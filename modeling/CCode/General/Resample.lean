import CCode.Lib.Block
import CCode.Lib.Fixed

/-!
# The resampler of `sample_resample.c`

`resample_mono` goes through the input with steps of a fixed-point number of 16 and 16 bits, and
mixes the two samples at each position. The weights are unsigned, so the samples, which are not,
are mixed modulo `2 ^ 32`, and the upper half of the sum is cut off to 16 bits.

The step is the quotient of two `int`s, and the first of them is shifted to the left by 16.

## Main definitions

* `resampleMono` — the function.

## Main results

* `toInt_outSample` — a mixed sample is the right one.
* `resample_iff` — which inputs are resampled.
-/

namespace CCode.General

open CCode.Lib

/-! ## The function of the source -/

/-- `(s1 * (0x10000-t) + s2 * t) >> 16` as an `int16_t`. The `int`s become `uint32_t`s, as `t` is
one. -/
def outSample (s1 s2 : Int32) (t : UInt32) : Int16 :=
  ((s1.toUInt32 * (0x10000 - t) + s2.toUInt32 * t) >>> 16).toUInt16.toInt16

/-- The loop of `resample_mono`, with the number of rounds that are left. -/
def resampleLoop (inputSamples : List Int16) (istep : UInt32) :
    ℕ → ℤ → UInt32 → List Int16 → Option (List Int16)
  | 0, _, _, outputSamples => some outputSamples
  | rounds + 1, osample, isample, outputSamples => do
      let t := isample &&& 0xffff
      let s1 ← load inputSamples (isample >>> 16).toNat
      let s2 ← load inputSamples ((isample >>> 16) + 1).toNat
      let os := outSample s1.toInt32 s2.toInt32 t
      let outputSamples ← store outputSamples osample os
      resampleLoop inputSamples istep rounds (osample + 1) (isample + istep) outputSamples

/-- `resample_mono`, with what it leaves in `output_samples`; `none` where an access is out of the
samples or an `int` overflows. -/
def resampleMono (inputSamples : List Int16) (inSamples : ℤ) (outputSamples : List Int16)
    (outSamples : ℤ) : Option (List Int16) := do
  let istep ← div32 (← shiftLeft32 (inSamples - 2) 16) (outSamples - 2)
  let outputSamples ← resampleLoop inputSamples (UInt32.ofInt istep) (outSamples - 1).toNat 0 0
    outputSamples
  store outputSamples (outSamples - 1) (← load inputSamples (inSamples - 1))

/-! ## A sample -/

theorem toBitVec_weight {t : UInt32} (ht : t.toNat < 65536) :
    (0x10000 - t : UInt32).toBitVec = BitVec.ofInt 32 ((65536 : ℕ) - t.toNat) := by
  have hle : t ≤ 0x10000 := UInt32.le_iff_toNat_le.mpr ht.le
  have hsub : ((65536 : ℕ) : ℤ) - t.toNat = (65536 - t.toNat : ℕ) := by omega
  rw [hsub, BitVec.ofInt_natCast]
  apply BitVec.eq_of_toNat_eq
  rw [UInt32.toNat_toBitVec, UInt32.toNat_sub_of_le _ _ hle, BitVec.toNat_ofNat,
    Nat.mod_eq_of_lt (by omega)]
  rfl

theorem toInt_bounds (s : Int16) : -2 ^ 15 ≤ s.toInt ∧ s.toInt ≤ 2 ^ 15 - 1 := by
  have hlo := s.le_toInt
  have hhi := s.toInt_lt
  omega

/-- **A mixed sample**, with unsigned weights and a wrapped sum, is the right one. -/
theorem toInt_outSample (s1 s2 : Int16) {t : UInt32} (ht : t.toNat < 65536) :
    (outSample s1.toInt32 s2.toInt32 t).toInt = mix 65536 t.toNat s1.toInt s2.toInt / 65536 := by
  have hword : (s1.toInt32.toUInt32 * (0x10000 - t) + s2.toInt32.toUInt32 * t).toBitVec
      = BitVec.ofInt 32 (mix 65536 t.toNat s1.toInt s2.toInt) := by
    have hextend : ∀ s : Int16, s.toInt32.toUInt32.toBitVec = BitVec.ofInt 32 s.toInt :=
      fun _ => rfl
    have ht' : t.toBitVec = BitVec.ofInt 32 t.toNat := by
      apply BitVec.eq_of_toNat_eq
      simp
    rw [mix, BitVec.ofInt_add, BitVec.ofInt_mul, BitVec.ofInt_mul, ← hextend, ← hextend,
      ← toBitVec_weight ht, ← ht']
    rfl
  have hcut : (outSample s1.toInt32 s2.toInt32 t).toInt
      = ((BitVec.ofInt 32 (mix 65536 t.toNat s1.toInt s2.toInt) >>> 16).setWidth 16).toInt := by
    rw [← hword]
    rfl
  obtain ⟨hlo, hhi⟩ := mix_bounds (show t.toNat ≤ 65536 by omega) (toInt_bounds s1)
    (toInt_bounds s2)
  rw [hcut, toInt_high (by omega) (by omega)]
  rfl

/-! ## The loop -/

/-- The samples as a sequence of numbers. -/
def sampleAt (inputSamples : List Int16) (i : ℕ) : ℤ := (inputSamples.getD i 0).toInt

theorem sampleAt_of_load {inputSamples : List Int16} {i : ℕ} {s : Int16}
    (h : load inputSamples i = some s) : sampleAt inputSamples i = s.toInt := by
  rw [load_natCast] at h
  rw [sampleAt, List.getD_eq_getElem?_getD, h]
  rfl

/-- **One round**, at a position with a sample on both sides. -/
theorem resampleLoop_succ {inputSamples pre : List Int16} {isample : UInt32} {osample : ℤ}
    (istep : UInt32) (rounds : ℕ) (x : Int16) (post : List Int16) (hpre : osample = pre.length)
    (hin : isample.toNat / 65536 + 1 < inputSamples.length) (hsize : inputSamples.length ≤ 65536) :
    ∃ os : Int16, os.toInt = ⌊interpolate (sampleAt inputSamples) (isample.toNat / 65536 : ℚ)⌋ ∧
      resampleLoop inputSamples istep (rounds + 1) osample isample (pre ++ x :: post)
        = resampleLoop inputSamples istep rounds (osample + 1) (isample + istep)
          (pre ++ os :: post) := by
  have hindex : (isample >>> 16).toNat = isample.toNat / 65536 := by
    simp [Nat.shiftRight_eq_div_pow]
  have hnext : (isample >>> 16 + 1).toNat = isample.toNat / 65536 + 1 := by
    rw [UInt32.toNat_add, hindex]
    simp
    omega
  have ht : (isample &&& 0xffff).toNat = isample.toNat % 65536 := by
    rw [UInt32.toNat_and]
    exact Nat.and_two_pow_sub_one_eq_mod _ 16
  obtain ⟨s1, hs1⟩ : ∃ s, load inputSamples (isample.toNat / 65536 : ℕ) = some s := by
    rw [load_natCast]
    exact ⟨_, List.getElem?_eq_getElem (by omega)⟩
  obtain ⟨s2, hs2⟩ : ∃ s, load inputSamples (isample.toNat / 65536 + 1 : ℕ) = some s := by
    rw [load_natCast]
    exact ⟨_, List.getElem?_eq_getElem (by omega)⟩
  refine ⟨outSample s1.toInt32 s2.toInt32 (isample &&& 0xffff), ?_, ?_⟩
  · have hfloor := floor_interpolate (sampleAt inputSamples) (show 0 < 65536 by decide)
      isample.toNat
    rw [toInt_outSample s1 s2 (by omega), ht, ← sampleAt_of_load hs1, ← sampleAt_of_load hs2]
    exact hfloor.symm
  · rw [resampleLoop, hindex, hnext, hs1, hs2]
    simp only [Option.bind_eq_bind, Option.bind_some, store_append hpre]

/-- **The loop** writes a sample in each round, with the position a multiple of the step. -/
theorem resampleLoop_spec {inputSamples pre post tail : List Int16} {istep isample : UInt32}
    {rounds k : ℕ} {osample : ℤ} (hpre : pre.length = k) (hpost : post.length = rounds)
    (hosample : osample = k) (hisample : isample.toNat = k * istep.toNat)
    (hin : ∀ j < k + rounds, j * istep.toNat / 65536 + 1 < inputSamples.length)
    (hwrap : (k + rounds) * istep.toNat < 2 ^ 32) (hsize : inputSamples.length ≤ 65536) :
    ∃ out, resampleLoop inputSamples istep rounds osample isample (pre ++ (post ++ tail))
        = some (pre ++ (out ++ tail)) ∧
      out.map Int16.toInt = (List.range' k rounds).map fun j =>
        ⌊interpolate (sampleAt inputSamples) ((j * istep.toNat : ℕ) / 65536 : ℚ)⌋ := by
  induction rounds generalizing pre post k osample isample with
  | zero =>
      obtain rfl := List.eq_nil_of_length_eq_zero hpost
      exact ⟨[], rfl, rfl⟩
  | succ rounds ih =>
      obtain ⟨x, post, rfl⟩ := List.exists_cons_of_length_eq_add_one hpost
      have hin₀ := hin k (by omega)
      rw [← hisample] at hin₀
      obtain ⟨os, hos, hround⟩ := resampleLoop_succ istep rounds x (post ++ tail)
        (show osample = pre.length by omega) hin₀ hsize
      have hnext : (isample + istep).toNat = (k + 1) * istep.toNat := by
        have hmono : (k + 1) * istep.toNat ≤ (k + (rounds + 1)) * istep.toNat :=
          Nat.mul_le_mul_right _ (by omega)
        rw [UInt32.toNat_add, hisample, ← Nat.add_one_mul, Nat.mod_eq_of_lt (by omega)]
      have hin' : ∀ j < k + 1 + rounds, j * istep.toNat / 65536 + 1 < inputSamples.length :=
        fun j hj => hin j (by omega)
      have hwrap' : (k + 1 + rounds) * istep.toNat < 2 ^ 32 := by
        rw [Nat.add_right_comm, Nat.add_assoc]
        exact hwrap
      have hpre' : (pre ++ [os]).length = k + 1 := by simp [hpre]
      obtain ⟨out, hrun, hout⟩ := ih hpre' (by simpa using hpost)
        (show osample + 1 = ((k + 1 : ℕ) : ℤ) by push_cast; omega) hnext hin' hwrap'
      refine ⟨os :: out, ?_, ?_⟩
      · rw [List.cons_append, hround, List.append_cons, hrun]
        simp
      · rw [List.map_cons, hout, List.range'_succ, List.map_cons, hos, hisample]

/-! ## All lengths -/

/-- The steps stay in the input, and their number in a word. -/
theorem steps_bound {n m step : ℕ} (hn : n < 2 ^ 15) (hm : 0 < m) (hstep : m * step ≤ n * 2 ^ 16) :
    (∀ j < 0 + (m + 1), j * step / 65536 + 1 < n + 2) ∧ (0 + (m + 1)) * step < 2 ^ 32 := by
  constructor
  · intro j hj
    have hmul : j * step ≤ m * step := Nat.mul_le_mul_right _ (by omega)
    omega
  · have hone : 1 * step ≤ m * step := Nat.mul_le_mul_right _ hm
    rw [Nat.zero_add, Nat.add_one_mul]
    omega

/-- **What is resampled**, where the shift by 16 does not leave an `int`. -/
theorem resampleMono_spec {inputSamples outputSamples : List Int16} {n m : ℕ}
    (hn : inputSamples.length = n + 2) (hm : outputSamples.length = m + 2) (hpos : 0 < m)
    (hsmall : n < 2 ^ 15) :
    ∃ out s, resampleMono inputSamples (n + 2 : ℕ) outputSamples (m + 2 : ℕ) = some (out ++ [s]) ∧
      inputSamples.getLast? = some s ∧ out.map Int16.toInt = (List.range' 0 (m + 1)).map fun j =>
        ⌊interpolate (sampleAt inputSamples) ((j * (n * 65536 / m) : ℕ) / 65536 : ℚ)⌋ := by
  have hn' : ((n + 2 : ℕ) : ℤ) - 2 = n := by omega
  have hm' : ((m + 2 : ℕ) : ℤ) - 2 = m := by omega
  have hrounds : (((m + 2 : ℕ) : ℤ) - 1).toNat = m + 1 := by omega
  have hle : n * 2 ^ 16 / m ≤ n * 2 ^ 16 := Nat.div_le_self _ _
  have hword : (UInt32.ofInt ((n * 2 ^ 16 / m : ℕ) : ℤ)).toNat = n * 2 ^ 16 / m :=
    toNat_ofInt_natCast (by omega)
  rw [resampleMono, hn', hm', hrounds, shiftLeft32_natCast (by omega), Option.bind_eq_bind,
    Option.bind_some, div32_natCast hpos (by omega), Option.bind_eq_bind, Option.bind_some]
  generalize UInt32.ofInt ((n * 2 ^ 16 / m : ℕ) : ℤ) = istep at hword ⊢
  have htotal : m * istep.toNat ≤ n * 2 ^ 16 := by
    rw [Nat.mul_comm, hword]
    exact Nat.div_mul_le_self _ _
  obtain ⟨hbound, hwrap⟩ := steps_bound hsmall hpos htotal
  rw [← hn] at hbound
  obtain ⟨post, last, rfl⟩ : ∃ post last, outputSamples = post ++ [last] :=
    ⟨_, _, (List.dropLast_append_getLast (List.ne_nil_of_length_pos (by omega))).symm⟩
  have hpost : post.length = m + 1 := by
    rw [List.length_append, List.length_singleton] at hm
    omega
  obtain ⟨out, hrun, hout⟩ := resampleLoop_spec (show ([] : List Int16).length = 0 from rfl) hpost
    (show (0 : ℤ) = (0 : ℕ) from rfl) (show (0 : UInt32).toNat = 0 * istep.toNat by simp)
    hbound hwrap (by omega)
  have hlen : out.length = m + 1 := by
    have hboth := congrArg List.length hout
    simpa using hboth
  obtain ⟨s, hs⟩ : ∃ s, inputSamples.getLast? = some s :=
    ⟨_, List.getLast?_eq_getLast_of_ne_nil (List.ne_nil_of_length_pos (by omega))⟩
  have hload : load inputSamples (((n + 2 : ℕ) : ℤ) - 1) = some s := by
    rw [← hn, load_last (by omega), hs]
  refine ⟨out, s, ?_, hs, ?_⟩
  · simp only [List.nil_append] at hrun
    rw [hrun, Option.bind_some, hload, Option.bind_eq_bind, Option.bind_some,
      store_append (by omega)]
  · rw [hout, hword, show 2 ^ 16 = 65536 from rfl]

/-- **The last output** is the last input. Every other output is the value of the input at a
multiple of the step, rounded down, and no sample outside of the input is read, exactly if the
shift by 16 does not leave an `int`. -/
theorem resample_iff (inputSamples outputSamples : List Int16) (hin : 2 ≤ inputSamples.length)
    (hout : 3 ≤ outputSamples.length) :
    (∃ out, resampleMono inputSamples inputSamples.length outputSamples outputSamples.length
        = some out ∧ out.length = outputSamples.length ∧
      (∀ k (hk : k < out.length), k < out.length - 1 →
        out[k].toInt = ⌊interpolate (sampleAt inputSamples)
          ((k * ((inputSamples.length - 2) * 65536 / (outputSamples.length - 2)) : ℕ) / 65536)⌋) ∧
      out.getLast? = inputSamples.getLast?) ↔
      inputSamples.length ≤ 32769 := by
  obtain ⟨n, hn⟩ : ∃ n, inputSamples.length = n + 2 := ⟨inputSamples.length - 2, by omega⟩
  obtain ⟨m, hm⟩ : ∃ m, outputSamples.length = m + 2 := ⟨outputSamples.length - 2, by omega⟩
  rw [hn, hm]
  constructor
  · rintro ⟨out, hrun, -⟩
    by_contra hbig
    have hn' : ((n + 2 : ℕ) : ℤ) - 2 = n := by omega
    rw [resampleMono, hn', shiftLeft32_eq_none (by omega)] at hrun
    cases hrun
  · intro hsmall
    obtain ⟨out, s, hrun, hs, hvalues⟩ := resampleMono_spec hn hm (by omega) (by omega)
    have hlen : out.length = m + 1 := by
      have hboth := congrArg List.length hvalues
      simpa using hboth
    refine ⟨out ++ [s], hrun, by simp [hlen], ?_, by simp [hs]⟩
    intro k hk hk'
    have hk₁ : k < out.length := by
      rw [List.length_append, List.length_singleton] at hk'
      omega
    have hvalue := congrArg (fun L => L[k]?) hvalues
    simp only [List.getElem?_map, List.getElem?_eq_getElem hk₁, Option.map_some] at hvalue
    rw [List.getElem?_range' (by omega), Option.map_some, Option.some.injEq, Nat.zero_add,
      Nat.one_mul] at hvalue
    rw [List.getElem_append_left hk₁, Nat.add_sub_cancel, Nat.add_sub_cancel]
    exact hvalue

theorem resample_iff_three :
    ∃ out, resampleMono [10, 20, -30] 3 [0, 0, 0, 0] 4 = some out ∧ out.length = 4 ∧
      out.getLast? = some (-30) := by
  obtain ⟨out, hrun, hlen, -, hlast⟩ := (resample_iff [10, 20, -30] [0, 0, 0, 0] (by decide)
    (by decide)).mpr (by decide)
  exact ⟨out, hrun, hlen, hlast⟩

/-- With 32770 samples the shift leaves an `int`. -/
theorem resample_overflows :
    2 ≤ (List.replicate 32770 (0 : Int16)).length ∧
      resampleMono (List.replicate 32770 0) 32770 [0, 0, 0, 0] 4 = none := by
  constructor
  · rw [List.length_replicate]
    decide
  · have hshift : shiftLeft32 (32770 - 2) 16 = none := by decide
    rw [resampleMono, hshift]
    rfl

end CCode.General
