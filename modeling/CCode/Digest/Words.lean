import CCode.Lib.Absorb
import CCode.Lib.Bytes

/-!
# Words of 32 bits

What SHA-1 and MD5 have in common below their rounds: a rotation that is written as two shifts, and
words that are put together from their bytes.

## Main definitions

* `rotl` — a rotation to the left.

## Main results

* `shifts_eq_rotl` — two shifts make a rotation.
* `or_eq_ofLe32`, `leBytes_eq_le32` — bytes and words.
-/

namespace CCode.Digest

open CCode.Lib

/-- A rotation to the left. -/
def rotl (x : UInt32) (k : ℕ) : UInt32 := ⟨x.toBitVec.rotateLeft k⟩

/-- Two shifts make a rotation. -/
theorem shifts_eq_rotl (x : UInt32) {k : ℕ} (h₀ : 0 < k) (hk : k < 32) :
    x <<< UInt32.ofNat k ||| x >>> (32 - UInt32.ofNat k) = rotl x k := by
  have hleft : (UInt32.ofNat k).toBitVec % 32 = BitVec.ofNat 32 k := by
    apply BitVec.eq_of_toNat_eq
    rw [BitVec.toNat_umod]
    simp
    omega
  have hright : (32 - UInt32.ofNat k).toBitVec % 32 = BitVec.ofNat 32 (32 - k) := by
    apply BitVec.eq_of_toNat_eq
    rw [BitVec.toNat_umod, UInt32.toBitVec_sub, BitVec.toNat_sub]
    simp
    omega
  have hk₁ : k % 4294967296 = k := by omega
  have hk₂ : (32 - k) % 4294967296 = 32 - k := by omega
  apply UInt32.eq_of_toBitVec_eq
  rw [rotl, BitVec.rotateLeft_def, Nat.mod_eq_of_lt hk, UInt32.toBitVec_or,
    UInt32.toBitVec_shiftRight, UInt32.toBitVec_shiftLeft, hright, hleft]
  simp [hk₁, hk₂]

/-- A byte of a word. -/
theorem toUInt8_shiftRight32 (n : UInt32) {k : ℕ} (hk : k < 32) :
    (n >>> UInt32.ofNat k).toUInt8 = UInt8.ofNat (n.toNat / 2 ^ k) := by
  apply UInt8.toNat_inj.mp
  have hofNat : (UInt32.ofNat k).toNat = k :=
    UInt32.toNat_ofNat_of_lt' (Nat.lt_of_lt_of_le hk (by decide))
  rw [UInt32.toNat_toUInt8, UInt32.toNat_shiftRight, hofNat, Nat.mod_eq_of_lt hk,
    Nat.shiftRight_eq_div_pow, UInt8.toNat_ofNat']

/-- Four bytes make a word also without a sum. -/
theorem or_eq_ofLe32 (b₃ b₂ b₁ b₀ : UInt8) :
    b₃.toUInt32 <<< 24 ||| b₂.toUInt32 <<< 16 ||| b₁.toUInt32 <<< 8 ||| b₀.toUInt32
      = ofLe32 b₀ b₁ b₂ b₃ := by
  have h₀ := b₀.toNat_lt
  have h₁ := b₁.toNat_lt
  have h₂ := b₂.toNat_lt
  have h₃ := b₃.toNat_lt
  have hor₁ := Nat.shiftLeft_add_eq_or_of_lt (show b₀.toNat < 2 ^ 8 from h₀) b₁.toNat
  have hor₂ := Nat.shiftLeft_add_eq_or_of_lt
    (show b₁.toNat <<< 8 + b₀.toNat < 2 ^ 16 by rw [Nat.shiftLeft_eq]; omega) b₂.toNat
  have hor₃ := Nat.shiftLeft_add_eq_or_of_lt
    (show b₂.toNat <<< 16 + (b₁.toNat <<< 8 + b₀.toNat) < 2 ^ 24 by
      simp only [Nat.shiftLeft_eq]; omega) b₃.toNat
  have hsmall : ∀ (b : UInt8) (k : ℕ), k ≤ 24 → b.toNat <<< k % 2 ^ 32 = b.toNat <<< k := by
    intro b k hk
    have hb := b.toNat_lt
    have hpow : 2 ^ k ≤ 2 ^ 24 := Nat.pow_le_pow_right (by omega) hk
    rw [Nat.shiftLeft_eq]
    exact Nat.mod_eq_of_lt (by nlinarith)
  apply UInt32.toNat_inj.mp
  simp only [ofLe32, UInt32.toNat_or, UInt32.toNat_add, UInt32.toNat_shiftLeft,
    UInt8.toNat_toUInt32, UInt32.reduceToNat, Nat.reduceMod, hsmall _ 8 (by omega),
    hsmall _ 16 (by omega), hsmall _ 24 (by omega)]
  rw [Nat.or_assoc, Nat.or_assoc, ← hor₁, ← hor₂, ← hor₃]
  simp only [Nat.shiftLeft_eq]
  omega

/-- The four bytes of a number are those of its word. -/
theorem leBytes_eq_le32 (v : ℕ) : leBytes 4 v = le32 (UInt32.ofNat v) := by
  have hbyte : ∀ k < 32, (UInt32.ofNat v >>> UInt32.ofNat k).toUInt8
      = UInt8.ofNat (v % 2 ^ 32 / 2 ^ k) := by
    intro k hk
    rw [toUInt8_shiftRight32 _ hk, UInt32.toNat_ofNat']
  have hlow : (UInt32.ofNat v).toUInt8 = UInt8.ofNat (v % 2 ^ 32) := by
    apply UInt8.toNat_inj.mp
    rw [UInt32.toNat_toUInt8, UInt8.toNat_ofNat', UInt32.toNat_ofNat']
  have hmod : leBytes 4 (v % 2 ^ 32) = leBytes 4 v := leBytes_mod 4 v
  rw [← hmod, le32, hlow, ← Nat.div_one (v % 2 ^ 32)]
  simp only [leBytes, Nat.div_div_eq_div_mul, Nat.reduceMul, Nat.one_mul]
  exact congrArg₂ _ rfl (congrArg₂ _ (hbyte 8 (by omega)).symm
    (congrArg₂ _ (hbyte 16 (by omega)).symm (congrArg₂ _ (hbyte 24 (by omega)).symm rfl)))

end CCode.Digest
