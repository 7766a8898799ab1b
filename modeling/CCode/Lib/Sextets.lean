import Mathlib.Tactic

/-!
# Bytes in sixes of bits

Three bytes have the bits of four values of six bits. A list of bytes whose length is no multiple of
three has one or two at its end; their bits fill two or three values, and the rest of the last value
is zero. The other way, values whose last bits no byte takes are cut off, and so is a single value.

## Main definitions

* `sextets`, `octets` — bytes to values, and values to bytes.
* `Whole` — values that come from bytes.

## Main results

* `octets_sextets` — bytes come back.
* `sextets_octets_iff` — values come back if and only if they are whole.
-/

namespace CCode.Lib

/-- The values that the bits of some bytes make. -/
def sextets : List UInt8 → List UInt8
  | a :: b :: c :: rest =>
      ((a >>> 2) &&& 0x3f) :: (((a &&& 0x3) <<< 4) ||| ((b &&& 0xf0) >>> 4)) ::
        (((b &&& 0xf) <<< 2) ||| ((c &&& 0xc0) >>> 6)) :: (c &&& 0x3f) :: sextets rest
  | [a, b] =>
      [(a >>> 2) &&& 0x3f, ((a &&& 0x3) <<< 4) ||| ((b &&& 0xf0) >>> 4), (b &&& 0xf) <<< 2]
  | [a] => [(a >>> 2) &&& 0x3f, (a &&& 0x3) <<< 4]
  | [] => []

/-- The bytes that the bits of some values make. -/
def octets : List UInt8 → List UInt8
  | v₀ :: v₁ :: v₂ :: v₃ :: rest =>
      ((v₀ <<< 2) ||| (v₁ >>> 4)) :: ((v₁ <<< 4) ||| (v₂ >>> 2)) :: ((v₂ <<< 6) ||| v₃) ::
        octets rest
  | [v₀, v₁, v₂] => [(v₀ <<< 2) ||| (v₁ >>> 4), (v₁ <<< 4) ||| (v₂ >>> 2)]
  | [v₀, v₁] => [(v₀ <<< 2) ||| (v₁ >>> 4)]
  | [_] => []
  | [] => []

/-- Values without a rest: the last four have no bit that no byte takes. -/
def Whole : List UInt8 → Prop
  | _ :: _ :: _ :: _ :: rest => Whole rest
  | [_, _, v₂] => v₂ &&& 0x3 = 0
  | [_, v₁] => v₁ &&& 0xf = 0
  | [_] => False
  | [] => True

/-! ## Bits -/

section

variable (a b c : UInt8)

theorem octet₀_sextet : (((a >>> 2) &&& 0x3f) <<< 2) |||
    ((((a &&& 0x3) <<< 4) ||| ((b &&& 0xf0) >>> 4)) >>> 4) = a := by
  apply UInt8.toBitVec_inj.mp
  ext i hi
  interval_cases i <;> simp

theorem octet₀_last : (((a >>> 2) &&& 0x3f) <<< 2) ||| (((a &&& 0x3) <<< 4) >>> 4) = a := by
  apply UInt8.toBitVec_inj.mp
  ext i hi
  interval_cases i <;> simp

theorem octet₁_sextet : ((((a &&& 0x3) <<< 4) ||| ((b &&& 0xf0) >>> 4)) <<< 4) |||
    ((((b &&& 0xf) <<< 2) ||| ((c &&& 0xc0) >>> 6)) >>> 2) = b := by
  apply UInt8.toBitVec_inj.mp
  ext i hi
  interval_cases i <;> simp

theorem octet₁_last : ((((a &&& 0x3) <<< 4) ||| ((b &&& 0xf0) >>> 4)) <<< 4) |||
    (((b &&& 0xf) <<< 2) >>> 2) = b := by
  apply UInt8.toBitVec_inj.mp
  ext i hi
  interval_cases i <;> simp

theorem octet₂_sextet : ((((b &&& 0xf) <<< 2) ||| ((c &&& 0xc0) >>> 6)) <<< 6) ||| (c &&& 0x3f)
    = c := by
  apply UInt8.toBitVec_inj.mp
  ext i hi
  interval_cases i <;> simp

end

/-- Six bits. -/
theorem and_sextet {v : UInt8} : v &&& 0x3f = v ↔ v < 64 := by
  have hmod : v.toNat &&& 63 = v.toNat % 64 := Nat.and_two_pow_sub_one_eq_mod v.toNat 6
  have hiff : v.toNat &&& 63 = v.toNat ↔ v.toNat < 64 := by
    rw [hmod]
    omega
  rw [← UInt8.toNat_inj, UInt8.toNat_and, UInt8.lt_iff_toNat_lt]
  exact hiff

section

variable {v₀ v₁ v₂ v₃ : UInt8}

theorem bits_of_lt {v : UInt8} (h : v < 64) :
    v.toBitVec[6] = false ∧ v.toBitVec[7] = false := by
  rw [← and_sextet.mpr h]
  simp

theorem sextet₀_octet (h₀ : v₀ < 64) (h₁ : v₁ < 64) :
    (((v₀ <<< 2) ||| (v₁ >>> 4)) >>> 2) &&& 0x3f = v₀ := by
  apply UInt8.toBitVec_inj.mp
  ext i hi
  interval_cases i <;> simp [bits_of_lt h₀, bits_of_lt h₁]

theorem sextet₁_octet (h₁ : v₁ < 64) (h₂ : v₂ < 64) :
    ((((v₀ <<< 2) ||| (v₁ >>> 4)) &&& 0x3) <<< 4) |||
      ((((v₁ <<< 4) ||| (v₂ >>> 2)) &&& 0xf0) >>> 4) = v₁ := by
  apply UInt8.toBitVec_inj.mp
  ext i hi
  interval_cases i <;> simp [bits_of_lt h₁, bits_of_lt h₂]

theorem sextet₂_octet (h₂ : v₂ < 64) (h₃ : v₃ < 64) :
    ((((v₁ <<< 4) ||| (v₂ >>> 2)) &&& 0xf) <<< 2) |||
      ((((v₂ <<< 6) ||| v₃) &&& 0xc0) >>> 6) = v₂ := by
  apply UInt8.toBitVec_inj.mp
  ext i hi
  interval_cases i <;> simp [bits_of_lt h₂, bits_of_lt h₃]

theorem sextet₃_octet (h₃ : v₃ < 64) : ((v₂ <<< 6) ||| v₃) &&& 0x3f = v₃ := by
  apply UInt8.toBitVec_inj.mp
  ext i hi
  interval_cases i <;> simp [bits_of_lt h₃]

/-- What is left of the last value: it comes back without the bits that no byte takes. -/
theorem sextet₁_last (h₁ : v₁ < 64) :
    (((v₀ <<< 2) ||| (v₁ >>> 4)) &&& 0x3) <<< 4 = v₁ &&& 0x30 := by
  apply UInt8.toBitVec_inj.mp
  ext i hi
  interval_cases i <;> simp [bits_of_lt h₁]

theorem sextet₂_last (h₂ : v₂ < 64) :
    (((v₁ <<< 4) ||| (v₂ >>> 2)) &&& 0xf) <<< 2 = v₂ &&& 0x3c := by
  apply UInt8.toBitVec_inj.mp
  ext i hi
  interval_cases i <;> simp [bits_of_lt h₂]

end

theorem and_last {v : UInt8} (h : v < 64) :
    (v &&& 0x30 = v ↔ v &&& 0xf = 0) ∧ (v &&& 0x3c = v ↔ v &&& 0x3 = 0) := by
  have hall : ∀ n < 64, (n &&& 48 = n ↔ n &&& 15 = 0) ∧ (n &&& 60 = n ↔ n &&& 3 = 0) := by decide
  simp only [← UInt8.toNat_inj, UInt8.toNat_and]
  exact hall v.toNat (UInt8.lt_iff_toNat_lt.mp h)

/-! ## There and back -/

/-- **Bytes come back.** -/
@[simp] theorem octets_sextets (s : List UInt8) : octets (sextets s) = s := by
  induction s using sextets.induct with
  | case1 a b c rest ih =>
      rw [sextets, octets, ih, octet₀_sextet, octet₁_sextet, octet₂_sextet]
  | case2 a b => rw [sextets, octets, octet₀_sextet, octet₁_last]
  | case3 a => rw [sextets, octets, octet₀_last]
  | case4 => rfl

/-- **Values come back** if and only if they are whole. -/
theorem sextets_octets_iff {vs : List UInt8} (h : ∀ v ∈ vs, v < 64) :
    sextets (octets vs) = vs ↔ Whole vs := by
  induction vs using octets.induct with
  | case1 v₀ v₁ v₂ v₃ rest ih =>
      have hrest := ih fun v hv => h v (by simp [hv])
      have h₀ := h v₀ (by simp)
      have h₁ := h v₁ (by simp)
      have h₂ := h v₂ (by simp)
      have h₃ := h v₃ (by simp)
      rw [octets, sextets, Whole, ← hrest, sextet₀_octet h₀ h₁, sextet₁_octet h₁ h₂,
        sextet₂_octet h₂ h₃, sextet₃_octet h₃]
      simp
  | case2 v₀ v₁ v₂ =>
      have h₀ := h v₀ (by simp)
      have h₁ := h v₁ (by simp)
      have h₂ := h v₂ (by simp)
      rw [octets, sextets, Whole, sextet₀_octet h₀ h₁, sextet₁_octet h₁ h₂, sextet₂_last h₂,
        ← (and_last h₂).2]
      simp
  | case3 v₀ v₁ =>
      have h₀ := h v₀ (by simp)
      have h₁ := h v₁ (by simp)
      rw [octets, sextets, Whole, sextet₀_octet h₀ h₁, sextet₁_last h₁, ← (and_last h₁).1]
      simp
  | case4 v => simp [octets, sextets, Whole]
  | case5 => simp [octets, sextets, Whole]

theorem lt_of_bits {v : UInt8} (h₆ : v.toBitVec[6] = false) (h₇ : v.toBitVec[7] = false) :
    v < 64 := by
  apply and_sextet.mp
  apply UInt8.toBitVec_inj.mp
  ext i hi
  interval_cases i <;> simp [h₆, h₇]

theorem sextets_lt (s : List UInt8) : ∀ v ∈ sextets s, v < 64 := by
  induction s using sextets.induct with
  | case1 a b c rest ih =>
      simp only [sextets, List.forall_mem_cons]
      exact ⟨lt_of_bits (by simp) (by simp), lt_of_bits (by simp) (by simp),
        lt_of_bits (by simp) (by simp), lt_of_bits (by simp) (by simp), ih⟩
  | case2 a b =>
      simp only [sextets, List.forall_mem_cons]
      exact ⟨lt_of_bits (by simp) (by simp), lt_of_bits (by simp) (by simp),
        lt_of_bits (by simp) (by simp), by simp⟩
  | case3 a =>
      simp only [sextets, List.forall_mem_cons]
      exact ⟨lt_of_bits (by simp) (by simp), lt_of_bits (by simp) (by simp), by simp⟩
  | case4 => simp [sextets]

/-- The values of bytes are whole. -/
theorem whole_sextets (s : List UInt8) : Whole (sextets s) := by
  rw [← sextets_octets_iff (sextets_lt s), octets_sextets]

theorem length_sextets (s : List UInt8) : (sextets s).length = (4 * s.length + 2) / 3 := by
  induction s using sextets.induct with
  | case1 a b c rest ih =>
      simp only [sextets, List.length_cons, ih]
      omega
  | case2 a b => simp [sextets]
  | case3 a => simp [sextets]
  | case4 => rfl

theorem length_octets (vs : List UInt8) : (octets vs).length = 3 * vs.length / 4 := by
  induction vs using octets.induct with
  | case1 v₀ v₁ v₂ v₃ rest ih =>
      simp only [octets, List.length_cons, ih]
      omega
  | case2 v₀ v₁ v₂ => simp [octets]
  | case3 v₀ v₁ => simp [octets]
  | case4 v => simp [octets]
  | case5 => rfl

end CCode.Lib
