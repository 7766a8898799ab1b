import Mathlib.Data.Rat.Floor
import Mathlib.Tactic

/-!
# Fixed-point numbers

A position in a sequence of samples, as a number of `d`-th parts: the quotient by `d` says
between which samples it is, the remainder how far it is from the first to the second. The
samples are mixed with weights that sum up to `d`, and the sum is divided by `d`.

Where the value is known to fit, it may be computed with any of the numbers that are equal modulo
a power of two, and cut off in the end.

## Main definitions

* `interpolate` — the value between the samples, exactly.
* `mix` — the weighted sum.

## Main results

* `floor_interpolate` — the weighted sum divided by `d` is the value rounded down.
* `toInt_high` — the upper half of a word that the sum is cut off to.
-/

namespace CCode.Lib

/-- The value at a position, on the line between the entries next to it. -/
def interpolate (s : ℕ → ℤ) (x : ℚ) : ℚ :=
  s ⌊x⌋.toNat + (x - ⌊x⌋) * (s (⌊x⌋.toNat + 1) - s ⌊x⌋.toNat)

/-- Two values with weights that sum up to `d`. -/
def mix (d t : ℕ) (a b : ℤ) : ℤ := a * (d - t) + b * t

/-- A mixed value is between the two. -/
theorem mix_bounds {d t : ℕ} {a b lo hi : ℤ} (ht : t ≤ d) (ha : lo ≤ a ∧ a ≤ hi)
    (hb : lo ≤ b ∧ b ≤ hi) : lo * d ≤ mix d t a b ∧ mix d t a b ≤ hi * d := by
  have hrest : (0 : ℤ) ≤ d - t := by omega
  have ht₀ : (0 : ℤ) ≤ t := by omega
  have hlo : lo * d = lo * (d - t) + lo * t := by ring
  have hhi : hi * d = hi * (d - t) + hi * t := by ring
  rw [mix, hlo, hhi]
  constructor
  · gcongr
    · exact ha.1
    · exact hb.1
  · gcongr
    · exact ha.2
    · exact hb.2

/-- **Mixing rounds down** the value between the samples. -/
theorem floor_interpolate (s : ℕ → ℤ) {d : ℕ} (hd : 0 < d) (p : ℕ) :
    ⌊interpolate s (p / d : ℚ)⌋ = mix d (p % d) (s (p / d)) (s (p / d + 1)) / d := by
  have hfloor : ⌊(p / d : ℚ)⌋ = ((p / d : ℕ) : ℤ) := by
    rw [Rat.floor_natCast_div_natCast]
    rfl
  have hq : (d : ℚ) ≠ 0 := by positivity
  have hsplit : (p : ℚ) = d * ((p / d : ℕ) : ℚ) + ((p % d : ℕ) : ℚ) := by
    exact_mod_cast (Nat.div_add_mod p d).symm
  have hrest : (p / d : ℚ) - ((p / d : ℕ) : ℚ) = ((p % d : ℕ) : ℚ) / d := by
    rw [hsplit]
    field_simp
    ring
  have hvalue : interpolate s (p / d : ℚ)
      = ((mix d (p % d) (s (p / d)) (s (p / d + 1)) : ℤ) : ℚ) / d := by
    have hindex : ((p / d : ℕ) : ℤ).toNat = p / d := Int.toNat_natCast _
    rw [interpolate, hfloor, hindex, Int.cast_natCast, hrest, mix]
    simp only [Int.cast_add, Int.cast_mul, Int.cast_sub, Int.cast_natCast]
    field_simp
    ring
  rw [hvalue, Rat.floor_intCast_div_natCast]

/-- **The upper half** of a word with the low digits of a number is the number divided, if that
fits. -/
theorem toInt_high {x : ℤ} (h₀ : -2 ^ 15 ≤ x / 2 ^ 16) (h₁ : x / 2 ^ 16 < 2 ^ 15) :
    ((BitVec.ofInt 32 x >>> 16).setWidth 16).toInt = x / 2 ^ 16 := by
  rw [BitVec.toInt_setWidth, BitVec.toNat_ushiftRight, BitVec.toNat_ofInt,
    Nat.shiftRight_eq_div_pow]
  have hmod : (((x % ↑(2 ^ 32)).toNat / 2 ^ 16 : ℕ) : ℤ) % 2 ^ 16 = x / 2 ^ 16 % 2 ^ 16 := by
    omega
  have hself : (x / 2 ^ 16).bmod (2 ^ 16) = x / 2 ^ 16 := Int.bmod_eq_of_le (by omega) (by omega)
  rw [← Int.emod_bmod, ← hself, ← Int.emod_bmod (x / 2 ^ 16)]
  exact congrArg (fun v => Int.bmod v (2 ^ 16)) hmod

end CCode.Lib
