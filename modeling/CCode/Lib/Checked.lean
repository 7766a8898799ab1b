import CCode.Lib.Bytes

/-!
# Reads that stay in their block

A parser that is to read only what it has received reads from a list of bytes, and a read
that leaves the list fails. Where `Mem` lets such a read see the bytes that happen to lie
behind, this module says that it happened.

## Main definitions

* `u8At`, `u16At`, `u32At`, `bytesAt` — the reads, `none` outside the list.
-/

namespace CCode.Lib

/-- The byte at an offset. -/
def u8At (bs : List UInt8) (p : ℕ) : Option UInt8 := bs[p]?

/-- The little-endian 16-bit word at an offset. -/
def u16At (bs : List UInt8) (p : ℕ) : Option UInt16 := do
  let b₀ ← bs[p]?
  let b₁ ← bs[p + 1]?
  some (ofLe16 b₀ b₁)

/-- The little-endian 32-bit word at an offset. -/
def u32At (bs : List UInt8) (p : ℕ) : Option UInt32 := do
  let b₀ ← bs[p]?
  let b₁ ← bs[p + 1]?
  let b₂ ← bs[p + 2]?
  let b₃ ← bs[p + 3]?
  some (ofLe32 b₀ b₁ b₂ b₃)

/-- The block of `n` bytes at an offset. -/
def bytesAt (bs : List UInt8) (p n : ℕ) : Option (List UInt8) :=
  if p + n ≤ bs.length then some ((bs.drop p).take n) else none

theorem u8At_append (pre : List UInt8) (b : UInt8) (post : List UInt8) :
    u8At (pre ++ b :: post) pre.length = some b := by
  simp [u8At]

theorem u16At_append (pre : List UInt8) (b₀ b₁ : UInt8) (post : List UInt8) :
    u16At (pre ++ b₀ :: b₁ :: post) pre.length = some (ofLe16 b₀ b₁) := by
  simp [u16At]

theorem u32At_append (pre : List UInt8) (v : UInt32) (post : List UInt8) :
    u32At (pre ++ (le32 v ++ post)) pre.length = some v := by
  simp [u32At, le32]

theorem bytesAt_append (pre mid post : List UInt8) :
    bytesAt (pre ++ (mid ++ post)) pre.length mid.length = some mid := by
  simp [bytesAt]

/-- Behind the end there is nothing. -/
theorem u8At_eq_none {bs : List UInt8} {p : ℕ} (h : bs.length ≤ p) : u8At bs p = none :=
  List.getElem?_eq_none h

/-- A word is there exactly if both its bytes are. -/
theorem u16At_isSome_iff {bs : List UInt8} {p : ℕ} : (u16At bs p).isSome ↔ p + 2 ≤ bs.length := by
  by_cases h : p + 1 < bs.length
  · have h' : p < bs.length := by omega
    simp [u16At, h, h']
    omega
  · have hnone : bs[p + 1]? = none := List.getElem?_eq_none (by omega)
    simp [u16At, hnone]
    omega

theorem bytesAt_isSome_iff {bs : List UInt8} {p n : ℕ} :
    (bytesAt bs p n).isSome ↔ p + n ≤ bs.length := by
  rw [bytesAt]
  split_ifs with h <;> simp [h]

section Mem

variable {m : Mem} {bs : List UInt8} (h : m.read 0 bs.length = bs)
include h

/-- Where memory holds the block, it holds what is read from it. -/
theorem Mem.eq_of_getElem? {p : ℕ} {b : UInt8} (hb : bs[p]? = some b) : m p = b := by
  obtain ⟨hp, rfl⟩ := List.getElem?_eq_some_iff.mp hb
  have hp' : p < (m.read 0 bs.length).length := by simpa using hp
  have hread := Mem.getElem_read m 0 bs.length p hp'
  rw [Nat.zero_add] at hread
  rw [← hread]
  simp only [h]

theorem Mem.u16_of_u16At {p : ℕ} {v : UInt16} (hv : u16At bs p = some v) : m.u16 p = v := by
  obtain ⟨b₀, h₀, hv⟩ := Option.bind_eq_some_iff.mp hv
  obtain ⟨b₁, h₁, hv⟩ := Option.bind_eq_some_iff.mp hv
  rw [Mem.u16, Mem.eq_of_getElem? h h₀, Mem.eq_of_getElem? h h₁]
  exact Option.some.inj hv

theorem Mem.read_of_bytesAt {p n : ℕ} {as : List UInt8} (has : bytesAt bs p n = some as) :
    m.read p n = as := by
  rw [bytesAt] at has
  split_ifs at has with hfit
  obtain rfl := Option.some.inj has
  apply List.ext_getElem
  · simp
    omega
  · intro i hi _
    rw [Mem.length_read] at hi
    rw [Mem.getElem_read, List.getElem_take, List.getElem_drop]
    exact Mem.eq_of_getElem? h (List.getElem?_eq_getElem _)

end Mem

end CCode.Lib
