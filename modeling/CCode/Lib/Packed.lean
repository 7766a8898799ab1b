import Mathlib.Tactic
import Mathlib.Data.Nat.Bitwise

/-!
# Fields of a word

A number as a vector of fields of `w` bits each. A field is read with a shift and a mask,
written by or-ing the shifted value into the word, and cleared with the shifted mask. Writing
only does what it should if the field was zero before: `get_put_self` and `clear_put` have
that as a hypothesis.

## Main definitions

* `get`, `put`, `clear` — a field of a word, and the word with a field written or cleared.
-/

namespace CCode.Lib.Packed

/-- A field of a word. -/
def get (w n k : ℕ) : ℕ := (n >>> (k * w)) &&& (2 ^ w - 1)

/-- The word with a value or-ed into a field. -/
def put (w n v k : ℕ) : ℕ := n ||| (v <<< (k * w))

/-- The word with a field set to zero. -/
def clear (w n k : ℕ) : ℕ := Nat.ldiff n ((2 ^ w - 1) <<< (k * w))

variable {w n k j v : ℕ}

/-- The bits of a field. -/
theorem testBit_get (w n k i : ℕ) :
    (get w n k).testBit i = (decide (i < w) && n.testBit (k * w + i)) := by
  rw [get, Nat.testBit_and, Nat.testBit_shiftRight, Nat.testBit_two_pow_sub_one, Bool.and_comm]

/-- A value of a field fits into it. -/
theorem get_lt (w n k : ℕ) : get w n k < 2 ^ w := by
  have hle : get w n k ≤ 2 ^ w - 1 := Nat.and_le_right
  have hpos := Nat.two_pow_pos w
  omega

@[simp] theorem get_zero (w k : ℕ) : get w 0 k = 0 := by
  simp [get]

/-- The fields determine the word. -/
theorem ext (hw : 0 < w) {m : ℕ} (h : ∀ k, get w n k = get w m k) : n = m := by
  apply Nat.eq_of_testBit_eq
  intro i
  have hbit : ∀ x : ℕ, x.testBit i = (get w x (i / w)).testBit (i % w) := by
    intro x
    rw [testBit_get, decide_eq_true (Nat.mod_lt i hw), Bool.true_and, Nat.div_add_mod']
  rw [hbit n, hbit m, h]

/-- A bit of a field is no bit of another one. -/
theorem field_bit (hj : j ≠ k) {i : ℕ} (hi : i < w) :
    ¬ (k * w ≤ j * w + i ∧ j * w + i - k * w < w) := by
  intro ⟨hle, hlt⟩
  rcases Nat.lt_or_gt_of_ne hj with h | h
  · have : (j + 1) * w ≤ k * w := Nat.mul_le_mul_right w h
    rw [Nat.add_mul] at this
    omega
  · have : (k + 1) * w ≤ j * w := Nat.mul_le_mul_right w h
    rw [Nat.add_mul] at this
    omega

/-- A value written into an empty field is read back. -/
theorem get_put_self (h : get w n k = 0) (hv : v < 2 ^ w) : get w (put w n v k) k = v := by
  apply Nat.eq_of_testBit_eq
  intro i
  have hbit := congrArg (Nat.testBit · i) h
  simp only [testBit_get, Nat.zero_testBit] at hbit
  rw [testBit_get, put, Nat.testBit_or, Nat.testBit_shiftLeft, Bool.and_or_distrib_left, hbit]
  by_cases hi : i < w
  · simp [hi]
  · have : v.testBit i = false :=
      Nat.testBit_lt_two_pow (hv.trans_le (Nat.pow_le_pow_right (by decide) (by omega)))
    simp [this]

/-- Writing a field leaves the others alone. -/
theorem get_put_of_ne (hj : j ≠ k) (hv : v < 2 ^ w) : get w (put w n v k) j = get w n j := by
  apply Nat.eq_of_testBit_eq
  intro i
  rw [testBit_get, testBit_get, put, Nat.testBit_or, Nat.testBit_shiftLeft]
  by_cases hi : i < w
  · by_cases hle : k * w ≤ j * w + i
    · have hge : w ≤ j * w + i - k * w := by
        by_contra hlt
        exact field_bit hj hi ⟨hle, by omega⟩
      have : v.testBit (j * w + i - k * w) = false :=
        Nat.testBit_lt_two_pow (hv.trans_le (Nat.pow_le_pow_right (by decide) hge))
      simp [this]
    · simp [hle]
  · simp [hi]

/-- A cleared field is zero. -/
theorem get_clear_self (w n k : ℕ) : get w (clear w n k) k = 0 := by
  apply Nat.eq_of_testBit_eq
  intro i
  rw [testBit_get, clear, Nat.testBit_ldiff, Nat.testBit_shiftLeft,
    Nat.testBit_two_pow_sub_one, Nat.zero_testBit]
  by_cases hi : i < w
  · simp [hi]
  · simp [hi]

/-- Clearing a field leaves the others alone. -/
theorem get_clear_of_ne (hj : j ≠ k) : get w (clear w n k) j = get w n j := by
  apply Nat.eq_of_testBit_eq
  intro i
  rw [testBit_get, testBit_get, clear, Nat.testBit_ldiff, Nat.testBit_shiftLeft,
    Nat.testBit_two_pow_sub_one]
  by_cases hi : i < w
  · have hno := field_bit hj hi
    rw [not_and] at hno
    by_cases hle : k * w ≤ j * w + i
    · simp [hno hle]
    · simp [hle]
  · simp [hi]

/-- **Clearing undoes a write**, if the field was empty before. -/
theorem clear_put (hw : 0 < w) (h : get w n k = 0) (hv : v < 2 ^ w) :
    clear w (put w n v k) k = n := by
  apply ext hw
  intro j
  by_cases hj : j = k
  · rw [hj, get_clear_self, h]
  · rw [get_clear_of_ne hj, get_put_of_ne hj hv]

/-- A write to one of the first `m` fields leaves a word of `m` fields. -/
theorem put_lt {m : ℕ} (hn : n < 2 ^ (m * w)) (hk : k < m) (hv : v < 2 ^ w) :
    put w n v k < 2 ^ (m * w) := by
  apply Nat.or_lt_two_pow hn
  rw [Nat.shiftLeft_eq]
  calc v * 2 ^ (k * w) < 2 ^ w * 2 ^ (k * w) :=
        Nat.mul_lt_mul_of_pos_right hv (Nat.two_pow_pos _)
    _ = 2 ^ ((k + 1) * w) := by rw [← pow_add, Nat.add_mul, one_mul, Nat.add_comm]
    _ ≤ 2 ^ (m * w) := Nat.pow_le_pow_right (by decide) (Nat.mul_le_mul_right w hk)

/-- A word of `m` fields has no further ones. -/
theorem get_of_le {m : ℕ} (hn : n < 2 ^ (m * w)) (hk : m ≤ k) : get w n k = 0 := by
  have hle : m * w ≤ k * w := Nat.mul_le_mul_right w hk
  rw [get, Nat.shiftRight_eq_zero n (k * w) (hn.trans_le (Nat.pow_le_pow_right (by decide) hle)),
    Nat.zero_and]

end CCode.Lib.Packed
