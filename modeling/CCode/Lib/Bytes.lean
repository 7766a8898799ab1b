import Mathlib.Data.List.Basic
import Mathlib.Tactic

/-!
# Bytes, words and byte-addressed memory

The wire formats of small C programs are written through a moving `unsigned char *`.
This module has the pieces such code is made of: the bytes of a 16-bit and of a 32-bit
word in either order, memory as a total function from offsets to bytes, block reads and
writes, and `memcmp`.

Memory is total on purpose. A C parser that trusts its length field reads whatever
lies behind the received bytes, so a statement about such code has to quantify over
those bytes rather than make them unavailable.

## Main definitions

* `le16`, `le32`, `ofLe16`, `ofLe32` — little-endian words and their bytes.
* `be16`, `be32`, `ofBe16`, `ofBe32` — the same with the bytes the other way round.
* `byteSum` — the additive checksum.
* `Mem`, `Mem.read`, `Mem.write` — byte-addressed memory.
* `Mem.u16`, `Mem.u32` — the word that starts at an offset.
* `memcmp` — the C comparison, with its sign.
-/

namespace CCode.Lib

/-! ## Little-endian words -/

/-- The two little-endian bytes of a 16-bit word. -/
def le16 (v : UInt16) : List UInt8 := [v.toUInt8, (v >>> 8).toUInt8]

/-- The four little-endian bytes of a 32-bit word. -/
def le32 (v : UInt32) : List UInt8 :=
  [v.toUInt8, (v >>> 8).toUInt8, (v >>> 16).toUInt8, (v >>> 24).toUInt8]

/-- The 16-bit word whose low byte is `b₀`. -/
def ofLe16 (b₀ b₁ : UInt8) : UInt16 := b₀.toUInt16 + (b₁.toUInt16 <<< 8)

/-- The 32-bit word whose lowest byte is `b₀`. -/
def ofLe32 (b₀ b₁ b₂ b₃ : UInt8) : UInt32 :=
  b₀.toUInt32 + (b₁.toUInt32 <<< 8) + (b₂.toUInt32 <<< 16) + (b₃.toUInt32 <<< 24)

@[simp] theorem length_le16 (v : UInt16) : (le16 v).length = 2 := rfl
@[simp] theorem length_le32 (v : UInt32) : (le32 v).length = 4 := rfl

/-- Reassembling the two bytes of a word gives the word back. -/
@[simp] theorem ofLe16_bytes (v : UInt16) : ofLe16 v.toUInt8 (v >>> 8).toUInt8 = v := by
  apply UInt16.toNat_inj.mp
  have hlt := v.toNat_lt
  simp only [ofLe16, UInt16.toNat_add, UInt16.toNat_shiftLeft, UInt8.toNat_toUInt16,
    UInt16.toNat_toUInt8, UInt16.toNat_shiftRight, UInt16.reduceToNat, Nat.reduceMod,
    Nat.shiftLeft_eq, Nat.shiftRight_eq_div_pow]
  omega

/-- The two bytes of a reassembled word are the ones it was made of. -/
theorem bytes_ofLe16 (b₀ b₁ : UInt8) :
    (ofLe16 b₀ b₁).toUInt8 = b₀ ∧ (ofLe16 b₀ b₁ >>> 8).toUInt8 = b₁ := by
  have h₀ := b₀.toNat_lt
  have h₁ := b₁.toNat_lt
  constructor
  · apply UInt8.toNat_inj.mp
    simp only [ofLe16, UInt16.toNat_toUInt8, UInt16.toNat_add, UInt8.toNat_toUInt16,
      UInt16.toNat_shiftLeft, UInt16.reduceToNat, Nat.reduceMod, Nat.shiftLeft_eq]
    omega
  · apply UInt8.toNat_inj.mp
    simp only [ofLe16, UInt16.toNat_toUInt8, UInt16.toNat_add, UInt8.toNat_toUInt16,
      UInt16.toNat_shiftLeft, UInt16.toNat_shiftRight, UInt16.reduceToNat, Nat.reduceMod,
      Nat.shiftLeft_eq, Nat.shiftRight_eq_div_pow]
    omega

/-- Reassembling the four bytes of a word gives the word back. -/
@[simp] theorem ofLe32_bytes (v : UInt32) :
    ofLe32 v.toUInt8 (v >>> 8).toUInt8 (v >>> 16).toUInt8 (v >>> 24).toUInt8 = v := by
  apply UInt32.toNat_inj.mp
  have hlt := v.toNat_lt
  simp only [ofLe32, UInt32.toNat_add, UInt32.toNat_shiftLeft, UInt8.toNat_toUInt32,
    UInt32.toNat_toUInt8, UInt32.toNat_shiftRight, UInt32.reduceToNat, Nat.reduceMod,
    Nat.shiftLeft_eq, Nat.shiftRight_eq_div_pow]
  omega

/-- The four bytes of a reassembled word are the ones it was made of. -/
theorem bytes_ofLe32 (b₀ b₁ b₂ b₃ : UInt8) : le32 (ofLe32 b₀ b₁ b₂ b₃) = [b₀, b₁, b₂, b₃] := by
  have h₀ := b₀.toNat_lt
  have h₁ := b₁.toNat_lt
  have h₂ := b₂.toNat_lt
  have h₃ := b₃.toNat_lt
  simp only [le32, List.cons.injEq, and_true]
  refine ⟨?_, ?_, ?_, ?_⟩ <;>
  · apply UInt8.toNat_inj.mp
    simp only [ofLe32, UInt32.toNat_toUInt8, UInt32.toNat_add, UInt8.toNat_toUInt32,
      UInt32.toNat_shiftLeft, UInt32.toNat_shiftRight, UInt32.reduceToNat, Nat.reduceMod,
      Nat.shiftLeft_eq, Nat.shiftRight_eq_div_pow]
    omega

/-! ## Big-endian words -/

/-- The two big-endian bytes of a 16-bit word. -/
def be16 (v : UInt16) : List UInt8 := (le16 v).reverse

/-- The four big-endian bytes of a 32-bit word. -/
def be32 (v : UInt32) : List UInt8 := (le32 v).reverse

/-- The 16-bit word whose high byte is `b₁`. -/
def ofBe16 (b₁ b₀ : UInt8) : UInt16 := ofLe16 b₀ b₁

/-- The 32-bit word whose highest byte is `b₃`. -/
def ofBe32 (b₃ b₂ b₁ b₀ : UInt8) : UInt32 := ofLe32 b₀ b₁ b₂ b₃

@[simp] theorem length_be16 (v : UInt16) : (be16 v).length = 2 := rfl
@[simp] theorem length_be32 (v : UInt32) : (be32 v).length = 4 := rfl

theorem be16_ofBe16 (b₁ b₀ : UInt8) : be16 (ofBe16 b₁ b₀) = [b₁, b₀] := by
  obtain ⟨h₀, h₁⟩ := bytes_ofLe16 b₀ b₁
  rw [be16, ofBe16, le16, h₀, h₁]
  rfl

theorem be32_ofBe32 (b₃ b₂ b₁ b₀ : UInt8) :
    be32 (ofBe32 b₃ b₂ b₁ b₀) = [b₃, b₂, b₁, b₀] := by
  rw [be32, ofBe32, bytes_ofLe32]
  rfl

/-- Two bytes make a word exactly if they are its bytes. -/
theorem ofBe16_eq_iff {b₁ b₀ : UInt8} {v : UInt16} : ofBe16 b₁ b₀ = v ↔ [b₁, b₀] = be16 v := by
  constructor
  · rintro rfl
    exact (be16_ofBe16 b₁ b₀).symm
  · intro h
    simp only [be16, le16, List.reverse_cons, List.reverse_nil, List.nil_append,
      List.cons_append, List.cons.injEq, and_true] at h
    rw [h.1, h.2, ofBe16, ofLe16_bytes]

/-- A word determines its bytes. -/
theorem ofBe16_inj {a₁ a₀ b₁ b₀ : UInt8} (h : ofBe16 a₁ a₀ = ofBe16 b₁ b₀) :
    a₁ = b₁ ∧ a₀ = b₀ := by
  rw [ofBe16_eq_iff, be16_ofBe16] at h
  simpa using h

/-- Four bytes make a word exactly if they are its bytes. -/
theorem ofBe32_eq_iff {b₃ b₂ b₁ b₀ : UInt8} {v : UInt32} :
    ofBe32 b₃ b₂ b₁ b₀ = v ↔ [b₃, b₂, b₁, b₀] = be32 v := by
  constructor
  · rintro rfl
    exact (be32_ofBe32 b₃ b₂ b₁ b₀).symm
  · intro h
    simp only [be32, le32, List.reverse_cons, List.reverse_nil, List.nil_append,
      List.cons_append, List.cons.injEq, and_true] at h
    rw [h.1, h.2.1, h.2.2.1, h.2.2.2, ofBe32, ofLe32_bytes]

/-! ## Additive checksums -/

/-- The sum of the bytes, as a loop with a byte as its accumulator has it. -/
def byteSum (bs : List UInt8) : UInt8 := bs.foldl (fun sum b => sum + b) 0

theorem byteSum_append (as bs : List UInt8) : byteSum (as ++ bs) = byteSum as + byteSum bs := by
  have hacc := @List.foldl_assoc UInt8 (fun a b => a + b) _ bs (byteSum as) 0
  simp only [UInt8.add_zero] at hacc
  rw [byteSum, List.foldl_append]
  exact hacc

/-- A change of one byte changes the sum. -/
theorem eq_of_byteSum_eq {pre post : List UInt8} {a b : UInt8}
    (h : byteSum (pre ++ a :: post) = byteSum (pre ++ b :: post)) : a = b := by
  have hsplit : ∀ c : UInt8, byteSum (pre ++ c :: post) = byteSum pre + (c + byteSum post) := by
    intro c
    rw [byteSum_append, ← List.singleton_append, byteSum_append]
    congr 2
    exact UInt8.zero_add c
  rw [hsplit, hsplit, UInt8.add_right_inj, UInt8.add_left_inj] at h
  exact h

/-! ## Memory -/

/-- Byte-addressed memory, seen from the pointer a function was given. -/
abbrev Mem := ℕ → UInt8

namespace Mem

/-- The `n` bytes from offset `p`. -/
def read (m : Mem) (p n : ℕ) : List UInt8 := (List.range n).map fun i => m (p + i)

/-- Overwrite the bytes from offset `p` with `bs`. -/
def write (m : Mem) (p : ℕ) (bs : List UInt8) : Mem := fun a =>
  if p ≤ a then (bs[a - p]?).getD (m a) else m a

/-- The 16-bit word at offset `p`. -/
def u16 (m : Mem) (p : ℕ) : UInt16 := ofLe16 (m p) (m (p + 1))

/-- The 32-bit word at offset `p`. -/
def u32 (m : Mem) (p : ℕ) : UInt32 := ofLe32 (m p) (m (p + 1)) (m (p + 2)) (m (p + 3))

@[simp] theorem length_read (m : Mem) (p n : ℕ) : (m.read p n).length = n := by
  simp [read]

@[simp] theorem getElem_read (m : Mem) (p n i : ℕ) (h : i < (m.read p n).length) :
    (m.read p n)[i] = m (p + i) := by
  simp [read]

theorem getD_read (m : Mem) (p : ℕ) {n i : ℕ} (h : i < n) : (m.read p n).getD i 0 = m (p + i) := by
  simp [List.getD_eq_getElem?_getD, h]

/-- A block is its first part and the rest. -/
theorem read_add (m : Mem) (p k n : ℕ) : m.read p (k + n) = m.read p k ++ m.read (p + k) n := by
  simp [read, List.range_add, Function.comp_def, Nat.add_assoc]

/-- A block is what is before a byte of it, the byte, and what is behind. -/
theorem read_eq_append_cons (m : Mem) {k n : ℕ} (h : k < n) :
    m.read 0 n = m.read 0 k ++ m k :: m.read (k + 1) (n - 1 - k) := by
  obtain ⟨l, rfl⟩ : ∃ l, n = k + (1 + l) := ⟨n - 1 - k, by omega⟩
  have hl : k + (1 + l) - 1 - k = l := by omega
  rw [hl, read_add, read_add, Nat.zero_add]
  rfl

/-- Memories that agree on a block have the same block. -/
theorem read_congr {m m' : Mem} {p n : ℕ} (h : ∀ a, p ≤ a → a < p + n → m' a = m a) :
    m'.read p n = m.read p n := by
  apply List.map_congr_left
  intro i hi
  have hlt := List.mem_range.mp hi
  exact h (p + i) (by omega) (by omega)

/-- Reading through a pointer into a block. -/
theorem read_offset (m : Mem) (k p n : ℕ) : read (fun a => m (k + a)) p n = m.read (k + p) n := by
  simp [read, Nat.add_assoc]

/-- A byte inside a written block is the block's. -/
theorem write_apply {bs : List UInt8} (m : Mem) (p i : ℕ) (h : i < bs.length) :
    m.write p bs (p + i) = bs[i] := by
  simp [write, h]

/-- A byte outside a written block is untouched. -/
theorem write_frame {bs : List UInt8} (m : Mem) {p a : ℕ} (h : a < p ∨ p + bs.length ≤ a) :
    m.write p bs a = m a := by
  rcases h with h | h
  · simp [write, Nat.not_le.mpr h]
  · have hlen : bs.length ≤ a - p := by omega
    simp [write, List.getElem?_eq_none hlen]

/-- A block before a written one is untouched. -/
theorem read_write_before {bs : List UInt8} (m : Mem) {p q n : ℕ} (h : q + n ≤ p) :
    (m.write p bs).read q n = m.read q n := by
  apply List.ext_getElem
  · simp
  · intro i hi _
    simp only [length_read] at hi
    rw [getElem_read, getElem_read, write_frame m (.inl (by omega))]

/-- A block behind a written one is untouched. -/
theorem read_write_after {bs : List UInt8} (m : Mem) {p q : ℕ} (n : ℕ) (h : p + bs.length ≤ q) :
    (m.write p bs).read q n = m.read q n := by
  apply List.ext_getElem
  · simp
  · intro i _ _
    rw [getElem_read, getElem_read, write_frame m (.inr (by omega))]

/-- A word before a written block is untouched. -/
theorem u32_write_before {bs : List UInt8} (m : Mem) {p q : ℕ} (h : q + 4 ≤ p) :
    (m.write p bs).u32 q = m.u32 q := by
  simp only [u32]
  rw [write_frame m (.inl (by omega)), write_frame m (.inl (by omega)),
    write_frame m (.inl (by omega)), write_frame m (.inl (by omega))]

/-- Reading inside a written block returns that part of the block. -/
theorem read_write (m : Mem) (bs : List UInt8) (p off n : ℕ) (h : off + n ≤ bs.length) :
    (m.write p bs).read (p + off) n = (bs.drop off).take n := by
  apply List.ext_getElem
  · simp; omega
  · intro i hi _
    have hin : off + i < bs.length := by
      simp only [length_read] at hi
      omega
    rw [getElem_read, Nat.add_assoc, write_apply m p (off + i) hin]
    simp

/-- A part of a written block is read back. -/
theorem read_write_of_eq {bs mid : List UInt8} (m : Mem) (pre post : List UInt8) {p n : ℕ}
    (hbs : bs = pre ++ (mid ++ post)) (hp : pre.length = p) (hn : mid.length = n) :
    (m.write 0 bs).read p n = mid := by
  have h := read_write m bs 0 p n (by simp [hbs]; omega)
  rw [Nat.zero_add] at h
  rw [h, hbs, ← hp, ← hn, List.drop_left, List.take_left]

/-- A written block is read back. -/
theorem read_write_self (m : Mem) (p : ℕ) (bs : List UInt8) :
    (m.write p bs).read p bs.length = bs := by
  have h := read_write m bs p 0 bs.length (by simp)
  rw [Nat.add_zero] at h
  rw [h, List.drop_zero, List.take_length]

/-- Writing back what was read changes nothing. -/
theorem write_read_self (m : Mem) (p n : ℕ) : m.write p (m.read p n) = m := by
  funext a
  by_cases hin : p ≤ a ∧ a < p + n
  · obtain ⟨i, rfl⟩ : ∃ i, a = p + i := ⟨a - p, by omega⟩
    rw [write_apply m p i (by rw [length_read]; omega), getElem_read]
  · rw [write_frame m (by rw [length_read]; omega)]

/-- Where the bytes of a word are, the word is read. -/
theorem u32_eq_of_read {m : Mem} {p : ℕ} {v : UInt32} (h : m.read p 4 = le32 v) :
    m.u32 p = v := by
  simp only [read, List.range, List.range.loop, List.map_cons, List.map_nil, le32,
    List.cons.injEq, and_true] at h
  obtain ⟨h₀, h₁, h₂, h₃⟩ := h
  rw [Nat.add_zero] at h₀
  rw [u32, h₀, h₁, h₂, h₃, ofLe32_bytes]

/-- The bytes of the word at an offset are those at the offset. -/
theorem le32_u32 (m : Mem) (p : ℕ) : le32 (m.u32 p) = m.read p 4 := by
  rw [u32, bytes_ofLe32]
  rfl

/-- Two words are read back. -/
theorem u16_write_pair (m : Mem) (v w : UInt16) :
    (m.write 0 (le16 v ++ le16 w)).u16 0 = v ∧ (m.write 0 (le16 v ++ le16 w)).u16 2 = w := by
  simp [u16, write, le16]

/-- A word of a written block is read back. -/
theorem u32_write_of_eq {bs : List UInt8} (m : Mem) (pre post : List UInt8) {v : UInt32}
    {p : ℕ} (hbs : bs = pre ++ (le32 v ++ post)) (hp : pre.length = p) :
    (m.write 0 bs).u32 p = v :=
  u32_eq_of_read (read_write_of_eq m pre post hbs hp (length_le32 v))

/-- The first word of a written block is read back. -/
theorem u32_write (m : Mem) (p : ℕ) (v : UInt32) (post : List UInt8) :
    (m.write p (le32 v ++ post)).u32 p = v := by
  apply u32_eq_of_read
  have h := read_write m (le32 v ++ post) p 0 4 (by simp)
  rw [Nat.add_zero] at h
  rw [h, List.drop_zero]
  exact List.take_left' (length_le32 v)

end Mem

/-! ## Comparison -/

/-- `memcmp`: the difference of the first pair of unequal bytes, zero without one. -/
def memcmp : List UInt8 → List UInt8 → Int
  | a :: as, b :: bs => if a = b then memcmp as bs else (a.toNat : Int) - b.toNat
  | _, _ => 0

/-- Blocks of one length compare equal exactly when they are equal. -/
theorem memcmp_eq_zero_iff {as bs : List UInt8} (h : as.length = bs.length) :
    memcmp as bs = 0 ↔ as = bs := by
  induction as generalizing bs with
  | nil =>
      cases bs with
      | nil => simp [memcmp]
      | cons b bs => simp at h
  | cons a as ih =>
      cases bs with
      | nil => simp at h
      | cons b bs =>
          have hlen : as.length = bs.length := by simpa using h
          by_cases hab : a = b
          · simp [memcmp, hab, ih hlen]
          · have hne : (a.toNat : Int) - b.toNat ≠ 0 := by
              intro h0
              apply hab
              apply UInt8.toNat_inj.mp
              omega
            simp [memcmp, hab, hne]

end CCode.Lib
