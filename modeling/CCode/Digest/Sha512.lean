import CCode.Digest.Buffer
import CCode.Lib.While
import Mathlib.Data.List.GetD

/-!
# SHA-384 and SHA-512

`sha512.c`. The rounds of `mbedtls_sha512_process` are unrolled by eight, with the variables moved
by their names in place of their values, and the two functions that choose and that vote are written
with fewer operations. What it computes is said here once more as a recurrence of one round for each
word, over the message as a whole.

## Main definitions

* `sha512Process`, `sha512Update`, `sha512Finish` — the functions of the source.
* `standardBlock` — a block by the recurrence.
* `sha512Digest` — the hash of a message.

## Main results

* `sha512Process_eq` — the unrolled rounds are those of the recurrence.
* `sha512_stream` — the hash does not see in which pieces a message comes.
-/

namespace CCode.Digest.Sha512

open CCode.Lib

/-! ## The functions of the source -/

/-- The words of `state[8]`, and the variables that they go to. -/
structure Words8 where
  (A B C D E F G H : UInt64)
deriving DecidableEq, Repr

/-- `mbedtls_sha512_context`. -/
structure Sha512Context where
  total0 : UInt64
  total1 : UInt64
  state : Words8
  buffer : List UInt8
  is384 : ℤ
deriving DecidableEq, Repr

/-- `GET_UINT64_BE`. -/
def getUint64Be (b : List UInt8) (i : ℕ) : UInt64 :=
  (b.getD i 0).toUInt64 <<< 56 ||| (b.getD (i + 1) 0).toUInt64 <<< 48 |||
    (b.getD (i + 2) 0).toUInt64 <<< 40 ||| (b.getD (i + 3) 0).toUInt64 <<< 32 |||
    (b.getD (i + 4) 0).toUInt64 <<< 24 ||| (b.getD (i + 5) 0).toUInt64 <<< 16 |||
    (b.getD (i + 6) 0).toUInt64 <<< 8 ||| (b.getD (i + 7) 0).toUInt64

/-- `PUT_UINT64_BE`, the bytes that it writes. -/
def putUint64Be (n : UInt64) : List UInt8 :=
  [(n >>> 56).toUInt8, (n >>> 48).toUInt8, (n >>> 40).toUInt8, (n >>> 32).toUInt8,
   (n >>> 24).toUInt8, (n >>> 16).toUInt8, (n >>> 8).toUInt8, n.toUInt8]

/-- `mbedtls_sha512_init`. -/
def sha512Init : Sha512Context :=
  { total0 := 0, total1 := 0, state := ⟨0, 0, 0, 0, 0, 0, 0, 0⟩
    buffer := List.replicate 128 0, is384 := 0 }

/-- The words that `mbedtls_sha512_starts` sets. -/
def sha512State (is384 : ℤ) : Words8 :=
  if is384 = 0 then
    { A := 0x6A09E667F3BCC908, B := 0xBB67AE8584CAA73B
      C := 0x3C6EF372FE94F82B, D := 0xA54FF53A5F1D36F1
      E := 0x510E527FADE682D1, F := 0x9B05688C2B3E6C1F
      G := 0x1F83D9ABFB41BD6B, H := 0x5BE0CD19137E2179 }
  else
    { A := 0xCBBB9D5DC1059ED8, B := 0x629A292A367CD507
      C := 0x9159015A3070DD17, D := 0x152FECD8F70E5939
      E := 0x67332667FFC00B31, F := 0x8EB44A8768581511
      G := 0xDB0C2E0D64F98FA7, H := 0x47B5481DBEFA4FA4 }

/-- `mbedtls_sha512_starts`. -/
def sha512Starts (ctx : Sha512Context) (is384 : ℤ) : Sha512Context :=
  { ctx with total0 := 0, total1 := 0, state := sha512State is384, is384 := is384 }

/-- `K[80]`. -/
def sha512K : List UInt64 :=
  [0x428A2F98D728AE22, 0x7137449123EF65CD, 0xB5C0FBCFEC4D3B2F, 0xE9B5DBA58189DBBC,
   0x3956C25BF348B538, 0x59F111F1B605D019, 0x923F82A4AF194F9B, 0xAB1C5ED5DA6D8118,
   0xD807AA98A3030242, 0x12835B0145706FBE, 0x243185BE4EE4B28C, 0x550C7DC3D5FFB4E2,
   0x72BE5D74F27B896F, 0x80DEB1FE3B1696B1, 0x9BDC06A725C71235, 0xC19BF174CF692694,
   0xE49B69C19EF14AD2, 0xEFBE4786384F25E3, 0x0FC19DC68B8CD5B5, 0x240CA1CC77AC9C65,
   0x2DE92C6F592B0275, 0x4A7484AA6EA6E483, 0x5CB0A9DCBD41FBD4, 0x76F988DA831153B5,
   0x983E5152EE66DFAB, 0xA831C66D2DB43210, 0xB00327C898FB213F, 0xBF597FC7BEEF0EE4,
   0xC6E00BF33DA88FC2, 0xD5A79147930AA725, 0x06CA6351E003826F, 0x142929670A0E6E70,
   0x27B70A8546D22FFC, 0x2E1B21385C26C926, 0x4D2C6DFC5AC42AED, 0x53380D139D95B3DF,
   0x650A73548BAF63DE, 0x766A0ABB3C77B2A8, 0x81C2C92E47EDAEE6, 0x92722C851482353B,
   0xA2BFE8A14CF10364, 0xA81A664BBC423001, 0xC24B8B70D0F89791, 0xC76C51A30654BE30,
   0xD192E819D6EF5218, 0xD69906245565A910, 0xF40E35855771202A, 0x106AA07032BBD1B8,
   0x19A4C116B8D2D0C8, 0x1E376C085141AB53, 0x2748774CDF8EEB99, 0x34B0BCB5E19B48A8,
   0x391C0CB3C5C95A63, 0x4ED8AA4AE3418ACB, 0x5B9CCA4F7763E373, 0x682E6FF3D6B2B8A3,
   0x748F82EE5DEFB2FC, 0x78A5636F43172F60, 0x84C87814A1F0AB72, 0x8CC702081A6439EC,
   0x90BEFFFA23631E28, 0xA4506CEBDE82BDE9, 0xBEF9A3F7B2C67915, 0xC67178F2E372532B,
   0xCA273ECEEA26619C, 0xD186B8C721C0C207, 0xEADA7DD6CDE0EB1E, 0xF57D4F7FEE6ED178,
   0x06F067AA72176FBA, 0x0A637DC5A2C898A6, 0x113F9804BEF90DAE, 0x1B710B35131C471B,
   0x28DB77F523047D84, 0x32CAAB7B40C72493, 0x3C9EBE0A15C9BEBC, 0x431D67C49C100D4C,
   0x4CC5D4BECB3E42B6, 0x597F299CFC657E2A, 0x5FCB6FAB3AD6FAEC, 0x6C44198C4A475817]

/-! The macros of `mbedtls_sha512_process`. -/

def SHR (x n : UInt64) : UInt64 := x >>> n
def ROTR (x n : UInt64) : UInt64 := SHR x n ||| x <<< (64 - n)

def S0 (x : UInt64) : UInt64 := ROTR x 1 ^^^ ROTR x 8 ^^^ SHR x 7
def S1 (x : UInt64) : UInt64 := ROTR x 19 ^^^ ROTR x 61 ^^^ SHR x 6

def S2 (x : UInt64) : UInt64 := ROTR x 28 ^^^ ROTR x 34 ^^^ ROTR x 39
def S3 (x : UInt64) : UInt64 := ROTR x 14 ^^^ ROTR x 18 ^^^ ROTR x 41

def F0 (x y z : UInt64) : UInt64 := (x &&& y) ||| (z &&& (x ||| y))
def F1 (x y z : UInt64) : UInt64 := z ^^^ (x &&& (y ^^^ z))

/-- `P`: the new values of `d` and `h`. -/
def P (a b c d e f g h x K : UInt64) : UInt64 × UInt64 :=
  let temp1 := h + S3 e + F1 e f g + K + x
  let temp2 := S2 a + F0 a b c
  (d + temp1, temp1 + temp2)

/-- The first loop: `W[0]` to `W[15]`, out of the block. -/
def sha512Load (data : List UInt8) : List UInt64 :=
  (List.range 16).map fun i => getUint64Be data (i <<< 3)

/-- The second loop: the words behind them. -/
def sha512Extend (W : List UInt64) : List UInt64 :=
  (List.range 64).foldl (fun W j =>
    let i := 16 + j
    W ++ [S1 (W.getD (i - 2) 0) + W.getD (i - 7) 0 + S0 (W.getD (i - 15) 0) + W.getD (i - 16) 0]) W

/-- The body of the third loop, from the index `i`. -/
def sha512Rounds8 (W : List UInt64) (s : Words8) (i : ℕ) : Words8 :=
  let W := fun i => W.getD i 0
  let K := fun i => sha512K.getD i 0
  let ⟨A, B, C, D, E, F, G, H⟩ := s
  let (D, H) := P A B C D E F G H (W i) (K i)
  let (C, G) := P H A B C D E F G (W (i + 1)) (K (i + 1))
  let (B, F) := P G H A B C D E F (W (i + 2)) (K (i + 2))
  let (A, E) := P F G H A B C D E (W (i + 3)) (K (i + 3))
  let (H, D) := P E F G H A B C D (W (i + 4)) (K (i + 4))
  let (G, C) := P D E F G H A B C (W (i + 5)) (K (i + 5))
  let (F, B) := P C D E F G H A B (W (i + 6)) (K (i + 6))
  let (E, A) := P B C D E F G H A (W (i + 7)) (K (i + 7))
  ⟨A, B, C, D, E, F, G, H⟩

/-- `+=` for each word of the state. -/
def Words8.add (s t : Words8) : Words8 :=
  ⟨s.A + t.A, s.B + t.B, s.C + t.C, s.D + t.D, s.E + t.E, s.F + t.F, s.G + t.G, s.H + t.H⟩

/-- `mbedtls_sha512_process`, on the words of the state. -/
def sha512Process (state : Words8) (data : List UInt8) : Words8 :=
  let W := sha512Extend (sha512Load data)
  -- `while( i < 80 )`, and each round moves `i` by eight
  state.add ((List.range 10).foldl (fun s j => sha512Rounds8 W s (8 * j)) state)

/-- `mbedtls_sha512_update`; `none` where it leaves the buffer. -/
def sha512Update (ctx : Sha512Context) (input : List UInt8) : Option Sha512Context :=
  if input.length = 0 then some ctx
  else do
    let left := (ctx.total0 &&& 0x7F).toNat
    let total0 := ctx.total0 + UInt64.ofNat input.length
    let total1 := if total0 < UInt64.ofNat input.length then ctx.total1 + 1 else ctx.total1
    let (state, buffer) ← bufferInput 128 sha512Process ctx.state ctx.buffer left input
    some { ctx with total0 := total0, total1 := total1, state := state, buffer := buffer }

/-- The words that go to the output. -/
def sha512Output (ctx : Sha512Context) : List UInt8 :=
  let s := ctx.state
  putUint64Be s.A ++ putUint64Be s.B ++ putUint64Be s.C ++ putUint64Be s.D ++ putUint64Be s.E ++
    putUint64Be s.F ++ if ctx.is384 = 0 then putUint64Be s.G ++ putUint64Be s.H else []

/-- `mbedtls_sha512_finish`, with the bytes that it writes to the output. -/
def sha512Finish (ctx : Sha512Context) : Option (Sha512Context × List UInt8) := do
  let high := ctx.total0 >>> 61 ||| ctx.total1 <<< 3
  let low := ctx.total0 <<< 3
  let msglen := putUint64Be high ++ putUint64Be low
  let last := (ctx.total0 &&& 0x7F).toNat
  let ctx ← sha512Update ctx ((padding 128).take (padLen 128 16 last))
  let ctx ← sha512Update ctx msglen
  some (ctx, sha512Output ctx)

/-- `mbedtls_sha512`. -/
def sha512 (input : List UInt8) (is384 : ℤ) : Option (List UInt8) := do
  let ctx ← sha512Update (sha512Starts sha512Init is384) input
  let (_, output) ← sha512Finish ctx
  some output

/-! ## The recurrence -/

/-- A rotation to the right. -/
def rotr (x : UInt64) (k : ℕ) : UInt64 := ⟨x.toBitVec.rotateRight k⟩

/-- `y` where `x` has a one, `z` elsewhere. -/
def choose (x y z : UInt64) : UInt64 := (x &&& y) ^^^ (~~~x &&& z)

/-- The majority, bit by bit. -/
def majority (x y z : UInt64) : UInt64 := (x &&& y) ^^^ (x &&& z) ^^^ (y &&& z)

def sigma0 (x : UInt64) : UInt64 := rotr x 1 ^^^ rotr x 8 ^^^ x >>> 7
def sigma1 (x : UInt64) : UInt64 := rotr x 19 ^^^ rotr x 61 ^^^ x >>> 6
def bigSigma0 (x : UInt64) : UInt64 := rotr x 28 ^^^ rotr x 34 ^^^ rotr x 39
def bigSigma1 (x : UInt64) : UInt64 := rotr x 14 ^^^ rotr x 18 ^^^ rotr x 41

/-- The words of the schedule, from those of the block. -/
def scheduleWord (M : ℕ → UInt64) (t : ℕ) : UInt64 :=
  if t < 16 then M t
  else sigma1 (scheduleWord M (t - 2)) + scheduleWord M (t - 7) + sigma0 (scheduleWord M (t - 15))
    + scheduleWord M (t - 16)

/-- One round: the values move on by one place. -/
def standardRound (W : ℕ → UInt64) (s : Words8) (t : ℕ) : Words8 :=
  let t₁ := s.H + bigSigma1 s.E + choose s.E s.F s.G + sha512K.getD t 0 + W t
  let t₂ := bigSigma0 s.A + majority s.A s.B s.C
  ⟨t₁ + t₂, s.A, s.B, s.C, s.D + t₁, s.E, s.F, s.G⟩

/-- One block. -/
def standardBlock (s : Words8) (block : List UInt8) : Words8 :=
  s.add ((List.range 80).foldl
    (standardRound (scheduleWord fun t => getUint64Be block (8 * t))) s)

/-- SHA-512, or SHA-384, of a message. -/
def sha512Digest (is384 : ℤ) (msg : List UInt8) : List UInt8 :=
  let s := compressAll 128 standardBlock (sha512State is384)
    (padded 128 (beBytes 16 (8 * msg.length)) msg)
  putUint64Be s.A ++ putUint64Be s.B ++ putUint64Be s.C ++ putUint64Be s.D ++ putUint64Be s.E ++
    putUint64Be s.F ++ if is384 = 0 then putUint64Be s.G ++ putUint64Be s.H else []

/-! ## The unrolled rounds -/

theorem F0_eq (x y z : UInt64) : F0 x y z = majority x y z := by
  apply UInt64.eq_of_toBitVec_eq
  ext i hi
  simp only [F0, majority, UInt64.toBitVec_or, UInt64.toBitVec_and, UInt64.toBitVec_xor,
    BitVec.getElem_or, BitVec.getElem_and, BitVec.getElem_xor]
  cases x.toBitVec[i] <;> cases y.toBitVec[i] <;> cases z.toBitVec[i] <;> rfl

theorem F1_eq (x y z : UInt64) : F1 x y z = choose x y z := by
  apply UInt64.eq_of_toBitVec_eq
  ext i hi
  simp only [F1, choose, UInt64.toBitVec_and, UInt64.toBitVec_xor, UInt64.toBitVec_not,
    BitVec.getElem_and, BitVec.getElem_xor, BitVec.getElem_not]
  cases x.toBitVec[i] <;> cases y.toBitVec[i] <;> cases z.toBitVec[i] <;> rfl

/-- Two shifts make a rotation. -/
theorem ROTR_eq (x : UInt64) {k : ℕ} (h₀ : 0 < k) (hk : k < 64) :
    ROTR x (UInt64.ofNat k) = rotr x k := by
  have hright : (UInt64.ofNat k).toBitVec % 64 = BitVec.ofNat 64 k := by
    apply BitVec.eq_of_toNat_eq
    rw [BitVec.toNat_umod]
    simp
    omega
  have hleft : (64 - UInt64.ofNat k).toBitVec % 64 = BitVec.ofNat 64 (64 - k) := by
    apply BitVec.eq_of_toNat_eq
    rw [BitVec.toNat_umod, UInt64.toBitVec_sub, BitVec.toNat_sub]
    simp
    omega
  have hk₁ : k % 18446744073709551616 = k := by omega
  have hk₂ : (64 - k) % 18446744073709551616 = 64 - k := by omega
  apply UInt64.eq_of_toBitVec_eq
  rw [ROTR, SHR, rotr, BitVec.rotateRight_def, Nat.mod_eq_of_lt hk, UInt64.toBitVec_or,
    UInt64.toBitVec_shiftRight, UInt64.toBitVec_shiftLeft, hright, hleft]
  simp [hk₁, hk₂]

theorem S0_eq (x : UInt64) : S0 x = sigma0 x := by
  rw [sigma0, ← ROTR_eq x (by omega) (by omega), ← ROTR_eq x (by omega) (by omega)]
  rfl

theorem S1_eq (x : UInt64) : S1 x = sigma1 x := by
  rw [sigma1, ← ROTR_eq x (by omega) (by omega), ← ROTR_eq x (by omega) (by omega)]
  rfl

theorem S2_eq (x : UInt64) : S2 x = bigSigma0 x := by
  rw [bigSigma0, ← ROTR_eq x (by omega) (by omega), ← ROTR_eq x (by omega) (by omega),
    ← ROTR_eq x (by omega) (by omega)]
  rfl

theorem S3_eq (x : UInt64) : S3 x = bigSigma1 x := by
  rw [bigSigma1, ← ROTR_eq x (by omega) (by omega), ← ROTR_eq x (by omega) (by omega),
    ← ROTR_eq x (by omega) (by omega)]
  rfl

/-- What `P` assigns is what the round makes new. -/
theorem standardRound_of_P {W : ℕ → UInt64} {t : ℕ} {a b c d e f g h d' h' : UInt64}
    (hP : P a b c d e f g h (W t) (sha512K.getD t 0) = (d', h')) :
    standardRound W ⟨a, b, c, d, e, f, g, h⟩ t = ⟨h', a, b, c, d', e, f, g⟩ := by
  simp only [P, S2_eq, S3_eq, F0_eq, F1_eq, Prod.mk.injEq] at hP
  rw [standardRound, ← hP.1, ← hP.2]

/-- **Eight rounds of the source** are eight rounds. -/
theorem sha512Rounds8_eq (W : List UInt64) (s : Words8) (i : ℕ) :
    sha512Rounds8 W s i
      = (List.range 8).foldl (fun s r => standardRound (fun t => W.getD t 0) s (i + r)) s := by
  obtain ⟨A, B, C, D, E, F, G, H⟩ := s
  let w := fun t => W.getD t 0
  let k := fun t => sha512K.getD t 0
  rcases h₀ : P A B C D E F G H (w i) (k i) with ⟨D₁, H₁⟩
  rcases h₁ : P H₁ A B C D₁ E F G (w (i + 1)) (k (i + 1)) with ⟨C₁, G₁⟩
  rcases h₂ : P G₁ H₁ A B C₁ D₁ E F (w (i + 2)) (k (i + 2)) with ⟨B₁, F₁⟩
  rcases h₃ : P F₁ G₁ H₁ A B₁ C₁ D₁ E (w (i + 3)) (k (i + 3)) with ⟨A₁, E₁⟩
  rcases h₄ : P E₁ F₁ G₁ H₁ A₁ B₁ C₁ D₁ (w (i + 4)) (k (i + 4)) with ⟨H₂, D₂⟩
  rcases h₅ : P D₂ E₁ F₁ G₁ H₂ A₁ B₁ C₁ (w (i + 5)) (k (i + 5)) with ⟨G₂, C₂⟩
  rcases h₆ : P C₂ D₂ E₁ F₁ G₂ H₂ A₁ B₁ (w (i + 6)) (k (i + 6)) with ⟨F₂, B₂⟩
  rcases h₇ : P B₂ C₂ D₂ E₁ F₂ G₂ H₂ A₁ (w (i + 7)) (k (i + 7)) with ⟨E₂, A₂⟩
  have hcode : sha512Rounds8 W ⟨A, B, C, D, E, F, G, H⟩ i = ⟨A₂, B₂, C₂, D₂, E₂, F₂, G₂, H₂⟩ := by
    simp only [w, k] at h₀ h₁ h₂ h₃ h₄ h₅ h₆ h₇
    simp only [sha512Rounds8, h₀, h₁, h₂, h₃, h₄, h₅, h₆, h₇]
  simp only [List.range, List.range.loop, List.foldl_cons, List.foldl_nil, Nat.add_zero]
  rw [hcode, standardRound_of_P h₀, standardRound_of_P h₁, standardRound_of_P h₂,
    standardRound_of_P h₃, standardRound_of_P h₄, standardRound_of_P h₅, standardRound_of_P h₆,
    standardRound_of_P h₇]

/-- **The words of the two loops** are those of the schedule. -/
theorem getD_sha512Extend (data : List UInt8) {t : ℕ} (ht : t < 80) :
    (sha512Extend (sha512Load data)).getD t 0
      = scheduleWord (fun t => getUint64Be data (8 * t)) t := by
  let P := fun (k : ℕ) (W : List UInt64) => W.length = 16 + k ∧
    ∀ t < 16 + k, W.getD t 0 = scheduleWord (fun t => getUint64Be data (8 * t)) t
  have hload : P 0 (sha512Load data) := by
    refine ⟨by simp [sha512Load], fun t ht => ?_⟩
    rw [scheduleWord, if_pos ht, sha512Load, List.getD_eq_getElem?_getD, List.getElem?_map,
      List.getElem?_range ht, Option.map_some, Option.getD_some, Nat.shiftLeft_eq, Nat.mul_comm]
  have hfinal : P 64 (sha512Extend (sha512Load data)) := by
    apply foldl_range_invariant hload
    intro j W hj hW
    obtain ⟨hlen, hwords⟩ := hW
    refine ⟨by simp [hlen]; omega, fun t ht => ?_⟩
    by_cases hlast : t < 16 + j
    · rw [List.getD_append _ _ _ _ (by omega)]
      exact hwords t hlast
    · obtain rfl : t = 16 + j := by omega
      rw [List.getD_append_right _ _ _ _ (by omega), hlen, Nat.sub_self, List.getD_cons_zero,
        scheduleWord, if_neg (by omega), hwords _ (by omega), hwords _ (by omega),
        hwords _ (by omega), hwords _ (by omega), S0_eq, S1_eq]
  exact hfinal.2 t ht

/-- **A block**, unrolled and with its words made beforehand, is a block of the recurrence. -/
theorem sha512Process_eq (s : Words8) (block : List UInt8) :
    sha512Process s block = standardBlock s block := by
  let W := fun t => (sha512Extend (sha512Load block)).getD t 0
  have hround : ∀ (r : Words8) (t : ℕ), t ∈ List.range 80 →
      standardRound W r t
        = standardRound (scheduleWord fun t => getUint64Be block (8 * t)) r t := by
    intro r t ht
    have hword : W t = scheduleWord (fun t => getUint64Be block (8 * t)) t :=
      getD_sha512Extend block (List.mem_range.mp ht)
    rw [standardRound, standardRound, hword]
  have hunrolled : (List.range 10).foldl
      (fun s j => sha512Rounds8 (sha512Extend (sha512Load block)) s (8 * j)) s
        = (List.range 80).foldl (standardRound W) s := by
    have h := foldl_range_mul (standardRound W) s 10 8
    simp only [sha512Rounds8_eq]
    exact h.symm
  rw [sha512Process, standardBlock, ← List.foldl_ext _ _ s hround, ← hunrolled]

/-! ## A message in pieces -/

/-- A context after a message. -/
structure Sha512Context.Holds (ctx : Sha512Context) (is384 : ℤ) (msg : List UInt8) : Prop where
  counted : (ctx.total0.toNat + 2 ^ 64 * ctx.total1.toNat) % 2 ^ 128 = msg.length % 2 ^ 128
  buffered : Buffered 128 sha512Process (sha512State is384) msg ctx.state ctx.buffer
  is384 : ctx.is384 = is384

/-- A byte of a word. -/
theorem toUInt8_shiftRight64 (n : UInt64) {k : ℕ} (hk : k < 64) :
    (n >>> UInt64.ofNat k).toUInt8 = UInt8.ofNat (n.toNat / 2 ^ k) := by
  apply UInt8.toNat_inj.mp
  have hofNat : (UInt64.ofNat k).toNat = k :=
    UInt64.toNat_ofNat_of_lt' (Nat.lt_of_lt_of_le hk (by decide))
  rw [UInt64.toNat_toUInt8, UInt64.toNat_shiftRight, hofNat, Nat.mod_eq_of_lt hk,
    Nat.shiftRight_eq_div_pow, UInt8.toNat_ofNat']

theorem putUint64Be_eq (n : UInt64) : putUint64Be n = beBytes 8 n.toNat := by
  have hbyte := fun k (hk : k < 64) => toUInt8_shiftRight64 n hk
  simp only [beBytes, leBytes, List.reverse_cons, List.reverse_nil, List.nil_append,
    List.cons_append, Nat.div_div_eq_div_mul, Nat.reduceMul]
  rw [putUint64Be]
  refine congrArg₂ _ (hbyte 56 (by omega)) (congrArg₂ _ (hbyte 48 (by omega)) ?_)
  refine congrArg₂ _ (hbyte 40 (by omega)) (congrArg₂ _ (hbyte 32 (by omega)) ?_)
  refine congrArg₂ _ (hbyte 24 (by omega)) (congrArg₂ _ (hbyte 16 (by omega)) ?_)
  refine congrArg₂ _ (hbyte 8 (by omega)) (congrArg₂ _ ?_ rfl)
  exact UInt8.toNat_inj.mp (by rw [UInt64.toNat_toUInt8, UInt8.toNat_ofNat'])

theorem starts_holds {ctx : Sha512Context} (hctx : ctx.buffer.length = 128) (is384 : ℤ) :
    (sha512Starts ctx is384).Holds is384 [] := by
  refine ⟨rfl, ?_, rfl⟩
  have h := @Absorbed.nil UInt8 Words8 128 sha512Process (sha512State is384) (by omega)
  exact Buffered.intro [] ctx.buffer h hctx

/-- What the low counter says about the buffer. -/
theorem Sha512Context.Holds.left_eq {ctx : Sha512Context} {is384 : ℤ} {msg : List UInt8}
    (h : ctx.Holds is384 msg) : (ctx.total0 &&& 0x7F).toNat = msg.length % 128 := by
  have hcount := h.counted
  have hlt := ctx.total0.toNat_lt
  have hmask : (ctx.total0 &&& 0x7F).toNat = ctx.total0.toNat % 128 := by
    rw [UInt64.toNat_and]
    exact Nat.and_two_pow_sub_one_eq_mod _ 7
  omega

/-- The two counters are one of 128 bits. -/
theorem count_add {total0 total1 : UInt64} {len n : ℕ}
    (h : (total0.toNat + 2 ^ 64 * total1.toNat) % 2 ^ 128 = len % 2 ^ 128) (hn : n < 2 ^ 64) :
    ((total0 + UInt64.ofNat n).toNat + 2 ^ 64 *
        (if total0 + UInt64.ofNat n < UInt64.ofNat n then total1 + 1 else total1).toNat) % 2 ^ 128
      = (len + n) % 2 ^ 128 := by
  have h₀ := total0.toNat_lt
  have hofNat : (UInt64.ofNat n).toNat = n := UInt64.toNat_ofNat_of_lt' hn
  have hsum : (total0 + UInt64.ofNat n).toNat = (total0.toNat + n) % 2 ^ 64 := by
    rw [UInt64.toNat_add, hofNat]
  have hone : (total1 + 1).toNat = (total1.toNat + 1) % 2 ^ 64 := UInt64.toNat_add total1 1
  have hcarry : total0 + UInt64.ofNat n < UInt64.ofNat n ↔ (total0.toNat + n) % 2 ^ 64 < n := by
    rw [UInt64.lt_iff_toNat_lt, hsum, hofNat]
  rw [hsum]
  by_cases hlt : total0 + UInt64.ofNat n < UInt64.ofNat n
  · have hlt' := hcarry.mp hlt
    rw [if_pos hlt, hone]
    omega
  · have hlt' := mt hcarry.mpr hlt
    rw [if_neg hlt]
    omega

/-- **An update.** -/
theorem Sha512Context.Holds.update {ctx : Sha512Context} {is384 : ℤ} {msg : List UInt8}
    (h : ctx.Holds is384 msg) {input : List UInt8} (hinput : input.length < 2 ^ 64) :
    ∃ ctx', sha512Update ctx input = some ctx' ∧ ctx'.Holds is384 (msg ++ input) := by
  by_cases hzero : input.length = 0
  · have hnil : input = [] := List.eq_nil_of_length_eq_zero hzero
    refine ⟨ctx, if_pos hzero, ?_⟩
    rwa [hnil, List.append_nil]
  · obtain ⟨state, buffer, heq, hbuf⟩ := bufferInput_spec h.buffered h.left_eq input
    let total0 := ctx.total0 + UInt64.ofNat input.length
    let total1 := if total0 < UInt64.ofNat input.length then ctx.total1 + 1 else ctx.total1
    refine ⟨{ ctx with total0 := total0, total1 := total1, state := state, buffer := buffer },
      ?_, ?_, hbuf, h.is384⟩
    · rw [sha512Update, if_neg hzero]
      simp only [heq]
      rfl
    · rw [List.length_append]
      exact count_add h.counted hinput

/-- **Updates**, one after the other. -/
theorem Sha512Context.Holds.updates {ctx : Sha512Context} {is384 : ℤ} {msg : List UInt8}
    (h : ctx.Holds is384 msg) (inputs : List (SizedInput 64)) :
    ∃ ctx', inputs.foldlM (fun ctx input => sha512Update ctx input.val) ctx = some ctx' ∧
      ctx'.Holds is384 (msg ++ inputs.flatMap Subtype.val) := by
  induction inputs generalizing ctx msg with
  | nil =>
      refine ⟨ctx, rfl, ?_⟩
      rwa [List.flatMap_nil, List.append_nil]
  | cons input inputs ih =>
      obtain ⟨ctx₁, heq₁, hholds₁⟩ := h.update input.property
      obtain ⟨ctx₂, heq₂, hholds₂⟩ := ih hholds₁
      refine ⟨ctx₂, ?_, ?_⟩
      · rw [List.foldlM_cons, heq₁]
        exact heq₂
      · rwa [List.flatMap_cons, ← List.append_assoc]

/-- The words that say how many bits there were. -/
theorem msglen_eq {ctx : Sha512Context} {is384 : ℤ} {msg : List UInt8}
    (h : ctx.Holds is384 msg) :
    putUint64Be (ctx.total0 >>> 61 ||| ctx.total1 <<< 3) ++ putUint64Be (ctx.total0 <<< 3)
      = beBytes 16 (8 * msg.length) := by
  have hcount := h.counted
  have h₀ := ctx.total0.toNat_lt
  have hlow : (ctx.total0 <<< 3).toNat = 8 * msg.length % 2 ^ 64 := by
    rw [UInt64.toNat_shiftLeft]
    simp [Nat.shiftLeft_eq]
    omega
  have hhigh : (ctx.total0 >>> 61 ||| ctx.total1 <<< 3).toNat
      = 8 * msg.length / 2 ^ 64 % 2 ^ 64 := by
    have h61 : ctx.total0.toNat / 2 ^ 61 < 2 ^ 3 := by omega
    have hshift : (ctx.total1 <<< 3).toNat = (ctx.total1.toNat % 2 ^ 61) <<< 3 := by
      rw [UInt64.toNat_shiftLeft]
      simp [Nat.shiftLeft_eq]
      omega
    rw [UInt64.toNat_or, hshift, UInt64.toNat_shiftRight, Nat.or_comm]
    have hright : ctx.total0.toNat >>> ((61 : UInt64).toNat % 64) = ctx.total0.toNat / 2 ^ 61 :=
      Nat.shiftRight_eq_div_pow _ 61
    rw [hright, ← Nat.shiftLeft_add_eq_or_of_lt h61, Nat.shiftLeft_eq]
    omega
  rw [putUint64Be_eq, putUint64Be_eq, hlow, hhigh, beBytes_add 8 8]
  have hbig : (2 : ℕ) ^ 64 = 256 ^ 8 := by norm_num
  rw [hbig, beBytes_mod, beBytes_mod]

/-- **The end of a message.** -/
theorem Sha512Context.Holds.finish {ctx : Sha512Context} {is384 : ℤ} {msg : List UInt8}
    (h : ctx.Holds is384 msg) :
    ∃ ctx', sha512Finish ctx = some (ctx', sha512Digest is384 msg) := by
  let lenBytes := beBytes 16 (8 * msg.length)
  have hlen : lenBytes.length = 16 := length_beBytes 16 _
  have htake : ((padding 128).take (padLen 128 16 (msg.length % 128))).length < 2 ^ 64 := by
    rw [List.length_take]
    exact Nat.lt_of_le_of_lt (Nat.min_le_right _ _) (by simp [padding])
  obtain ⟨ctx₁, heq₁, hholds₁⟩ := h.update htake
  obtain ⟨ctx₂, heq₂, hholds₂⟩ := hholds₁.update (show lenBytes.length < 2 ^ 64 by omega)
  have hpad := padded_eq (show lenBytes.length < 128 by omega) msg
  rw [hlen] at hpad
  rw [hpad] at hholds₂
  have hstate := hholds₂.buffered.eq_compressAll (dvd_length_padded (by omega) msg)
  have hprocess : sha512Process = standardBlock := funext₂ sha512Process_eq
  refine ⟨ctx₂, ?_⟩
  simp only [sha512Finish, h.left_eq, heq₁, msglen_eq h, Option.bind_eq_bind, Option.bind_some]
  rw [heq₂, Option.bind_some, sha512Output, hstate, hholds₂.is384, hprocess]
  rfl

/-- **The hash does not see the pieces**: on any context that is started, any updates and then the
end give the hash of all bytes together. -/
theorem sha512_stream {ctx : Sha512Context} (hctx : ctx.buffer.length = 128) (is384 : ℤ)
    (inputs : List (SizedInput 64)) :
    ((inputs.foldlM (fun ctx input => sha512Update ctx input.val) (sha512Starts ctx is384)).bind
        sha512Finish).map Prod.snd = some (sha512Digest is384 (inputs.flatMap Subtype.val)) := by
  obtain ⟨ctx₁, heq₁, hholds⟩ := (starts_holds hctx is384).updates inputs
  obtain ⟨ctx₂, heq₂⟩ := hholds.finish
  rw [heq₁, Option.bind_some, heq₂]
  rfl

theorem sha512_stream_abc :
    (([⟨[0x61], by decide⟩, ⟨[0x62, 0x63], by decide⟩].foldlM
        (fun ctx (input : SizedInput 64) => sha512Update ctx input.val)
          (sha512Starts sha512Init 1)).bind sha512Finish).map Prod.snd
      = some (sha512Digest 1 [0x61, 0x62, 0x63]) :=
  @sha512_stream sha512Init List.length_replicate 1
    [⟨[0x61], by decide⟩, ⟨[0x62, 0x63], by decide⟩]

/-- The same in one call. -/
theorem sha512_eq {input : List UInt8} (hinput : input.length < 2 ^ 64) (is384 : ℤ) :
    sha512 input is384 = some (sha512Digest is384 input) := by
  have hinit : sha512Init.buffer.length = 128 := List.length_replicate
  obtain ⟨ctx₁, heq₁, hholds⟩ := (starts_holds hinit is384).update hinput
  obtain ⟨ctx₂, heq₂⟩ := hholds.finish
  simp only [sha512, heq₁, heq₂, Option.bind_eq_bind, Option.bind_some, List.nil_append]

end CCode.Digest.Sha512
