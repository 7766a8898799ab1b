import Mathlib.Data.List.Basic
import Mathlib.Tactic

/-!
# Blocks, and pointers into them

A block that a C function gets through a pointer, with its length. A pointer is an offset from
the start and may lie outside of the block, but what is read or written there may not: such an
access has no result. An `int` that is given a value it cannot hold has none either.

## Main definitions

* `load`, `store`, `storeAll` — an entry read, an entry written, and several in a row.
* `int32`, `shiftLeft32`, `div32` — a value that an `int` can hold, a shift and a quotient.
-/

namespace CCode.Lib

variable {α : Type*}

/-- `*p`. -/
def load (b : List α) (p : ℤ) : Option α := if 0 ≤ p then b[p.toNat]? else none

/-- `*p = v`. -/
def store (b : List α) (p : ℤ) (v : α) : Option (List α) :=
  if 0 ≤ p ∧ p < b.length then some (b.set p.toNat v) else none

/-- `p[0] = v₀; p[1] = v₁;` and so on. -/
def storeAll (b : List α) (p : ℤ) : List α → Option (List α)
  | [] => some b
  | v :: vs => do
      let b ← store b p v
      storeAll b (p + 1) vs

theorem storeAll_nil (b : List α) (p : ℤ) : storeAll b p [] = some b := rfl

theorem storeAll_cons (b : List α) (p : ℤ) (v : α) (vs : List α) :
    storeAll b p (v :: vs) = (store b p v).bind fun b => storeAll b (p + 1) vs := rfl

/-- The value, where an `int` can hold it. -/
def int32 (v : ℤ) : Option ℤ := if -2 ^ 31 ≤ v ∧ v < 2 ^ 31 then some v else none

/-- `v << k` for an `int`: a negative value may not be shifted, and nothing may be shifted out. -/
def shiftLeft32 (v : ℤ) (k : ℕ) : Option ℤ := if 0 ≤ v then int32 (v * 2 ^ k) else none

/-- `v / w` for `int`s. -/
def div32 (v w : ℤ) : Option ℤ := if w = 0 then none else int32 (v.tdiv w)

theorem int32_of_lt {v : ℤ} (h₀ : 0 ≤ v) (h : v < 2 ^ 31) : int32 v = some v :=
  if_pos ⟨by omega, h⟩

theorem int32_eq_none {v : ℤ} (h : 2 ^ 31 ≤ v) : int32 v = none :=
  if_neg fun hv => by omega

theorem shiftLeft32_natCast {v k : ℕ} (h : v * 2 ^ k < 2 ^ 31) :
    shiftLeft32 v k = some ((v * 2 ^ k : ℕ) : ℤ) := by
  rw [shiftLeft32, if_pos (Int.natCast_nonneg v)]
  push_cast
  exact int32_of_lt (by positivity) (by exact_mod_cast h)

theorem shiftLeft32_eq_none {v k : ℕ} (h : 2 ^ 31 ≤ v * 2 ^ k) : shiftLeft32 v k = none := by
  rw [shiftLeft32, if_pos (Int.natCast_nonneg v)]
  exact int32_eq_none (by exact_mod_cast h)

theorem div32_natCast {v w : ℕ} (hw : 0 < w) (hv : v < 2 ^ 31) :
    div32 v w = some ((v / w : ℕ) : ℤ) := by
  have hle : v / w ≤ v := Nat.div_le_self _ _
  rw [div32, if_neg (by omega), ← Int.ofNat_tdiv]
  exact int32_of_lt (Int.natCast_nonneg _) (by exact_mod_cast hle.trans_lt hv)

/-- A value that a `uint32_t` can hold is kept. -/
theorem toNat_ofInt_natCast {v : ℕ} (h : v < 2 ^ 32) : (UInt32.ofInt v).toNat = v := by
  have hmod : ((v : ℤ) % 2 ^ 32).toNat = v := by omega
  rw [UInt32.ofInt, hmod]
  exact UInt32.toNat_ofNat_of_lt' h

@[simp] theorem load_natCast (b : List α) (p : ℕ) : load b p = b[p]? := by
  simp [load]

/-- The entry behind a part is read. -/
theorem load_append {pre post : List α} {x : α} {p : ℤ} (hp : p = pre.length) :
    load (pre ++ x :: post) p = some x := by
  rw [hp, load_natCast]
  simp

/-- The last entry is read. -/
theorem load_last {b : List α} (h : 0 < b.length) : load b ((b.length : ℤ) - 1) = b.getLast? := by
  have hindex : (b.length : ℤ) - 1 = ((b.length - 1 : ℕ) : ℤ) := by omega
  rw [hindex, load_natCast, List.getLast?_eq_getElem?]

/-- The entry behind a part is written. -/
theorem store_append {pre post : List α} {x : α} {p : ℤ} (hp : p = pre.length) (v : α) :
    store (pre ++ x :: post) p v = some (pre ++ v :: post) := by
  subst hp
  have hin : (pre.length : ℤ) < (pre ++ x :: post).length := by
    simp
  rw [store, if_pos ⟨by omega, hin⟩]
  simp

/-- The other entries stay. -/
theorem load_append_of_ne {pre post : List α} {x v : α} {p : ℤ} (hp : p ≠ pre.length) :
    load (pre ++ v :: post) p = load (pre ++ x :: post) p := by
  by_cases h₀ : 0 ≤ p
  · obtain ⟨n, rfl⟩ := Int.eq_ofNat_of_zero_le h₀
    have hn : n ≠ pre.length := by
      rintro rfl
      exact hp rfl
    simp only [load_natCast]
    rcases Nat.lt_or_gt_of_ne hn with hlt | hgt
    · rw [List.getElem?_append_left hlt, List.getElem?_append_left hlt]
    · obtain ⟨k, rfl⟩ := Nat.exists_eq_add_of_lt hgt
      rw [List.getElem?_append_right (by omega), List.getElem?_append_right (by omega)]
      simp [show pre.length + k + 1 - pre.length = k + 1 by omega]
  · rw [load, load, if_neg h₀, if_neg h₀]

/-- A part is written. -/
theorem storeAll_append {pre mid post vs : List α} {p : ℤ} (hp : p = pre.length)
    (hmid : mid.length = vs.length) :
    storeAll (pre ++ (mid ++ post)) p vs = some (pre ++ (vs ++ post)) := by
  induction vs generalizing pre mid p with
  | nil =>
      obtain rfl := List.eq_nil_of_length_eq_zero hmid
      rfl
  | cons v vs ih =>
      obtain ⟨x, mid, rfl⟩ := List.exists_cons_of_length_eq_add_one hmid
      have hrest : storeAll ((pre ++ [v]) ++ (mid ++ post)) (p + 1) vs
          = some ((pre ++ [v]) ++ (vs ++ post)) := ih (by simp [hp]) (by simpa using hmid)
      rw [storeAll_cons, List.cons_append, store_append hp, Option.bind_some, List.append_cons,
        hrest]
      simp

/-- The entry behind a part. -/
theorem load_of_eq (pre post : List α) {b : List α} {x : α} (hb : b = pre ++ x :: post) {p : ℤ}
    (hp : p = pre.length) : load b p = some x := by
  rw [hb]
  exact load_append hp

theorem storeAll_singleton (b : List α) (p : ℤ) (v : α) : storeAll b p [v] = store b p v := by
  rw [storeAll_cons]
  cases store b p v <;> rfl

/-- Entries one behind the other. -/
theorem storeAll_add (b vs ws : List α) (p : ℤ) :
    storeAll b p (vs ++ ws) = (storeAll b p vs).bind fun b => storeAll b (p + vs.length) ws := by
  induction vs generalizing b p with
  | nil =>
      rw [List.nil_append, storeAll_nil, Option.bind_some, List.length_nil, Nat.cast_zero, add_zero]
  | cons v vs ih =>
      rw [List.cons_append, storeAll_cons, storeAll_cons, Option.bind_assoc]
      congr 1
      funext b
      rw [ih, List.length_cons]
      congr 1
      funext b
      congr 1
      push_cast
      ring

/-- A block that is too short. -/
theorem storeAll_eq_none {b vs : List α} {p : ℕ} (hne : vs ≠ [])
    (h : b.length < p + vs.length) : storeAll b p vs = none := by
  induction vs generalizing b p with
  | nil => exact absurd rfl hne
  | cons v vs ih =>
      rw [storeAll_cons, store]
      rw [List.length_cons] at h
      split
      · rename_i hin
        have hvs : vs ≠ [] := by
          intro hvs
          rw [hvs, List.length_nil] at h
          omega
        have hrest := ih (b := b.set p v) (p := p + 1) hvs (by rw [List.length_set]; omega)
        rw [Option.bind_some]
        exact_mod_cast hrest
      · rfl

/-- Entries from the start on: the rest of the block stays. -/
theorem storeAll_zero (b : List α) {vs : List α} (hne : vs ≠ []) :
    storeAll b 0 vs = if vs.length ≤ b.length then some (vs ++ b.drop vs.length) else none := by
  split
  · rename_i h
    have hall : storeAll ([] ++ (b.take vs.length ++ b.drop vs.length)) 0 vs
        = some ([] ++ (vs ++ b.drop vs.length)) :=
      storeAll_append rfl (List.length_take_of_le h)
    rwa [List.nil_append, List.take_append_drop, List.nil_append] at hall
  · exact storeAll_eq_none (p := 0) hne (by omega)

end CCode.Lib
