import CCode.Digest.Buffer
import CCode.Digest.Words
import CCode.Lib.While
import Mathlib.Data.List.GetD

/-!
# SHA-1

`sha1.c`. `mbedtls_sha1_process` has its eighty rounds written out, with the variables moved by
their names, and makes the words of the schedule as it goes, in the sixteen places of the block. As
for SHA-512, the recurrence is stated here once more over the message as a whole.

The counters are of 32 bits, and `(uint32_t) ilen` drops what a `size_t` has above that. The number
that is written at the end is therefore the sum of the lower halves of the lengths.

## Main definitions

* `sha1Process`, `sha1Update`, `sha1Finish` — the functions of the source.
* `standardBlock` — a block by the recurrence.
* `sha1Digest` — the hash of a message.

## Main results

* `sha1Process_eq` — the rounds are those of the recurrence.
* `sha1_stream` — the hash does not see in which pieces a message comes, if none has 4 GiB.
-/

namespace CCode.Digest.Sha1

open CCode.Lib

/-! ## The functions of the source -/

/-- The words of `state[5]`, and the variables that they go to. -/
structure Words5 where
  (A B C D E : UInt32)
deriving DecidableEq, Repr

/-- `mbedtls_sha1_context`. -/
structure Sha1Context where
  total0 : UInt32
  total1 : UInt32
  state : Words5
  buffer : List UInt8
deriving DecidableEq, Repr

/-- `GET_UINT32_BE`. -/
def getUint32Be (b : List UInt8) (i : ℕ) : UInt32 :=
  (b.getD i 0).toUInt32 <<< 24 ||| (b.getD (i + 1) 0).toUInt32 <<< 16 |||
    (b.getD (i + 2) 0).toUInt32 <<< 8 ||| (b.getD (i + 3) 0).toUInt32

/-- `PUT_UINT32_BE`, the bytes that it writes. -/
def putUint32Be (n : UInt32) : List UInt8 :=
  [(n >>> 24).toUInt8, (n >>> 16).toUInt8, (n >>> 8).toUInt8, n.toUInt8]

/-- `mbedtls_sha1_init`. -/
def sha1Init : Sha1Context :=
  { total0 := 0, total1 := 0, state := ⟨0, 0, 0, 0, 0⟩, buffer := List.replicate 64 0 }

/-- The words that `mbedtls_sha1_starts` sets. -/
def sha1State : Words5 :=
  { A := 0x67452301, B := 0xEFCDAB89, C := 0x98BADCFE, D := 0x10325476, E := 0xC3D2E1F0 }

/-- `mbedtls_sha1_starts`. -/
def sha1Starts (ctx : Sha1Context) : Sha1Context :=
  { ctx with total0 := 0, total1 := 0, state := sha1State }

/-! The macros of `mbedtls_sha1_process`; `F` and `K` are defined anew for each twenty rounds. -/

def S (x n : UInt32) : UInt32 := x <<< n ||| (x &&& 0xFFFFFFFF) >>> (32 - n)

def F : ℕ → UInt32 → UInt32 → UInt32 → UInt32
  | 0, x, y, z => z ^^^ (x &&& (y ^^^ z))
  | 1, x, y, z => x ^^^ y ^^^ z
  | 2, x, y, z => (x &&& y) ||| (z &&& (x ||| y))
  | _, x, y, z => x ^^^ y ^^^ z

def K : ℕ → UInt32
  | 0 => 0x5A827999
  | 1 => 0x6ED9EBA1
  | 2 => 0x8F1BBCDC
  | _ => 0xCA62C1D6

/-- `P`: the new values of `e` and `b`. -/
def P (stage : ℕ) (a b c d e x : UInt32) : UInt32 × UInt32 :=
  (e + (S a 5 + F stage b c d + K stage + x), S b 30)

/-- The last argument of `P` in round `t`: `W[t]`, or `R(t)`, which puts it into the place of the
one that is sixteen rounds old. -/
def R (W : List UInt32) (t : ℕ) : UInt32 × List UInt32 :=
  if t < 16 then (W.getD t 0, W)
  else
    let temp := W.getD ((t - 3) &&& 0x0F) 0 ^^^ W.getD ((t - 8) &&& 0x0F) 0 ^^^
      W.getD ((t - 14) &&& 0x0F) 0 ^^^ W.getD (t &&& 0x0F) 0
    (S temp 1, W.set (t &&& 0x0F) (S temp 1))

/-- Five rounds from round `t`: after them, each variable has its own value again. -/
def fiveRounds (s : Words5 × List UInt32) (t : ℕ) : Words5 × List UInt32 :=
  let stage := t / 20
  let ⟨⟨A, B, C, D, E⟩, W⟩ := s
  let (x, W) := R W t
  let (E, B) := P stage A B C D E x
  let (x, W) := R W (t + 1)
  let (D, A) := P stage E A B C D x
  let (x, W) := R W (t + 2)
  let (C, E) := P stage D E A B C x
  let (x, W) := R W (t + 3)
  let (B, D) := P stage C D E A B x
  let (x, W) := R W (t + 4)
  let (A, C) := P stage B C D E A x
  (⟨A, B, C, D, E⟩, W)

/-- `+=` for each word of the state. -/
def Words5.add (s t : Words5) : Words5 :=
  ⟨s.A + t.A, s.B + t.B, s.C + t.C, s.D + t.D, s.E + t.E⟩

/-- `mbedtls_sha1_process`, on the words of the state. -/
def sha1Process (state : Words5) (data : List UInt8) : Words5 :=
  let W := (List.range 16).map fun i => getUint32Be data (4 * i)
  state.add ((List.range 16).foldl (fun s j => fiveRounds s (5 * j)) (state, W)).1

/-- `mbedtls_sha1_update`; `none` where it leaves the buffer. -/
def sha1Update (ctx : Sha1Context) (input : List UInt8) : Option Sha1Context :=
  if input.length = 0 then some ctx
  else do
    let left := (ctx.total0 &&& 0x3F).toNat
    let total0 := (ctx.total0 + UInt32.ofNat input.length) &&& 0xFFFFFFFF
    let total1 := if total0 < UInt32.ofNat input.length then ctx.total1 + 1 else ctx.total1
    let (state, buffer) ← bufferInput 64 sha1Process ctx.state ctx.buffer left input
    some { total0 := total0, total1 := total1, state := state, buffer := buffer }

/-- The words that go to the output. -/
def sha1Output (s : Words5) : List UInt8 :=
  putUint32Be s.A ++ putUint32Be s.B ++ putUint32Be s.C ++ putUint32Be s.D ++ putUint32Be s.E

/-- `mbedtls_sha1_finish`, with the bytes that it writes to the output. -/
def sha1Finish (ctx : Sha1Context) : Option (Sha1Context × List UInt8) := do
  let high := ctx.total0 >>> 29 ||| ctx.total1 <<< 3
  let low := ctx.total0 <<< 3
  let msglen := putUint32Be high ++ putUint32Be low
  let last := (ctx.total0 &&& 0x3F).toNat
  let ctx ← sha1Update ctx ((padding 64).take (padLen 64 8 last))
  let ctx ← sha1Update ctx msglen
  some (ctx, sha1Output ctx.state)

/-- `mbedtls_sha1`. -/
def sha1 (input : List UInt8) : Option (List UInt8) := do
  let ctx ← sha1Update (sha1Starts sha1Init) input
  let (_, output) ← sha1Finish ctx
  some output

/-! ## The recurrence -/

/-- The function of round `t`: a choice, a parity, a majority and a parity. -/
def roundFunction (t : ℕ) (x y z : UInt32) : UInt32 :=
  if t < 20 then (x &&& y) ^^^ (~~~x &&& z)
  else if t < 40 then x ^^^ y ^^^ z
  else if t < 60 then (x &&& y) ^^^ (x &&& z) ^^^ (y &&& z)
  else x ^^^ y ^^^ z

/-- The constant of round `t`. -/
def roundConstant (t : ℕ) : UInt32 :=
  if t < 20 then 0x5A827999
  else if t < 40 then 0x6ED9EBA1
  else if t < 60 then 0x8F1BBCDC
  else 0xCA62C1D6

/-- The words of the schedule, from those of the block. -/
def scheduleWord (M : ℕ → UInt32) (t : ℕ) : UInt32 :=
  if t < 16 then M t
  else rotl (scheduleWord M (t - 3) ^^^ scheduleWord M (t - 8) ^^^ scheduleWord M (t - 14) ^^^
    scheduleWord M (t - 16)) 1

/-- One round: the values move on by one place. -/
def standardRound (x : UInt32) (s : Words5) (t : ℕ) : Words5 :=
  ⟨rotl s.A 5 + roundFunction t s.B s.C s.D + s.E + roundConstant t + x, s.A, rotl s.B 30, s.C, s.D⟩

/-- One block. -/
def standardBlock (s : Words5) (block : List UInt8) : Words5 :=
  s.add ((List.range 80).foldl
    (fun s t => standardRound (scheduleWord (fun t => getUint32Be block (4 * t)) t) s t) s)

/-- SHA-1 of a message, with the number that stands for its length. -/
def sha1Counted (count : ℕ) (msg : List UInt8) : List UInt8 :=
  sha1Output (compressAll 64 standardBlock sha1State (padded 64 (beBytes 8 (8 * count)) msg))

/-- SHA-1 of a message. -/
def sha1Digest (msg : List UInt8) : List UInt8 := sha1Counted msg.length msg

/-! ## The rounds -/

theorem S_eq (x : UInt32) {k : ℕ} (h₀ : 0 < k) (hk : k < 32) : S x (UInt32.ofNat k) = rotl x k := by
  have hmask : x &&& 0xFFFFFFFF = x := UInt32.and_neg_one
  rw [S, hmask, shifts_eq_rotl x h₀ hk]

/-- The rounds of a stage. -/
theorem stage_cases (t : ℕ) : (t < 20 ∧ t / 20 = 0) ∨ (20 ≤ t ∧ t < 40 ∧ t / 20 = 1) ∨
    (40 ≤ t ∧ t < 60 ∧ t / 20 = 2) ∨ (60 ≤ t ∧ ∃ n, t / 20 = n + 3) := by
  by_cases h : t < 60
  · omega
  · exact .inr (.inr (.inr ⟨by omega, t / 20 - 3, by omega⟩))

theorem choose_eq (x y z : UInt32) : z ^^^ (x &&& (y ^^^ z)) = (x &&& y) ^^^ (~~~x &&& z) := by
  apply UInt32.eq_of_toBitVec_eq
  ext i hi
  simp only [UInt32.toBitVec_and, UInt32.toBitVec_xor, UInt32.toBitVec_not,
    BitVec.getElem_and, BitVec.getElem_xor, BitVec.getElem_not]
  cases x.toBitVec[i] <;> cases y.toBitVec[i] <;> cases z.toBitVec[i] <;> rfl

theorem majority_eq (x y z : UInt32) :
    (x &&& y) ||| (z &&& (x ||| y)) = (x &&& y) ^^^ (x &&& z) ^^^ (y &&& z) := by
  apply UInt32.eq_of_toBitVec_eq
  ext i hi
  simp only [UInt32.toBitVec_or, UInt32.toBitVec_and, UInt32.toBitVec_xor,
    BitVec.getElem_or, BitVec.getElem_and, BitVec.getElem_xor]
  cases x.toBitVec[i] <;> cases y.toBitVec[i] <;> cases z.toBitVec[i] <;> rfl

theorem F_eq (t : ℕ) (x y z : UInt32) : F (t / 20) x y z = roundFunction t x y z := by
  rcases stage_cases t with ⟨ht, hq⟩ | ⟨h₀, ht, hq⟩ | ⟨h₀, ht, hq⟩ | ⟨h₀, n, hq⟩
  · rw [hq, roundFunction, if_pos ht]
    exact choose_eq x y z
  · rw [hq, roundFunction, if_neg (by omega), if_pos ht, F]
  · rw [hq, roundFunction, if_neg (by omega), if_neg (by omega), if_pos ht]
    exact majority_eq x y z
  · rw [hq, roundFunction, if_neg (by omega), if_neg (by omega), if_neg (by omega)]
    rfl

theorem K_eq (t : ℕ) : K (t / 20) = roundConstant t := by
  rcases stage_cases t with ⟨ht, hq⟩ | ⟨h₀, ht, hq⟩ | ⟨h₀, ht, hq⟩ | ⟨h₀, n, hq⟩
  · rw [hq, roundConstant, if_pos ht, K]
  · rw [hq, roundConstant, if_neg (by omega), if_pos ht, K]
  · rw [hq, roundConstant, if_neg (by omega), if_neg (by omega), if_pos ht, K]
  · rw [hq, roundConstant, if_neg (by omega), if_neg (by omega), if_neg (by omega)]
    rfl

/-- What `P` assigns is what the round makes new. -/
theorem standardRound_of_P {t : ℕ} {a b c d e x e' b' : UInt32}
    (hP : P (t / 20) a b c d e x = (e', b')) :
    standardRound x ⟨a, b, c, d, e⟩ t = ⟨e', a, b', c, d⟩ := by
  have h₅ : S a 5 = rotl a 5 := S_eq a (k := 5) (by omega) (by omega)
  have h₃₀ : S b 30 = rotl b 30 := S_eq b (k := 30) (by omega) (by omega)
  simp only [P, h₅, h₃₀, F_eq, K_eq, Prod.mk.injEq] at hP
  have hsum : rotl a 5 + roundFunction t b c d + e + roundConstant t + x
      = e + (rotl a 5 + roundFunction t b c d + roundConstant t + x) := by
    ac_rfl
  rw [standardRound, ← hP.1, ← hP.2, ← hsum]

/-- A round together with its word. -/
def roundWithWord (s : Words5 × List UInt32) (t : ℕ) : Words5 × List UInt32 :=
  (standardRound (R s.2 t).1 s.1 t, (R s.2 t).2)

/-- **Five rounds of the source** are five rounds. -/
theorem fiveRounds_eq (s : Words5 × List UInt32) (j : ℕ) :
    fiveRounds s (5 * j) = (List.range 5).foldl (fun s r => roundWithWord s (5 * j + r)) s := by
  obtain ⟨⟨A, B, C, D, E⟩, W₀⟩ := s
  have hstage : ∀ r < 5, (5 * j + r) / 20 = 5 * j / 20 := by
    intro r hr
    omega
  rcases hx₀ : R W₀ (5 * j) with ⟨x₀, W₁⟩
  rcases h₀ : P (5 * j / 20) A B C D E x₀ with ⟨E₁, B₁⟩
  rcases hx₁ : R W₁ (5 * j + 1) with ⟨x₁, W₂⟩
  rcases h₁ : P (5 * j / 20) E₁ A B₁ C D x₁ with ⟨D₁, A₁⟩
  rcases hx₂ : R W₂ (5 * j + 2) with ⟨x₂, W₃⟩
  rcases h₂ : P (5 * j / 20) D₁ E₁ A₁ B₁ C x₂ with ⟨C₁, E₂⟩
  rcases hx₃ : R W₃ (5 * j + 3) with ⟨x₃, W₄⟩
  rcases h₃ : P (5 * j / 20) C₁ D₁ E₂ A₁ B₁ x₃ with ⟨B₂, D₂⟩
  rcases hx₄ : R W₄ (5 * j + 4) with ⟨x₄, W₅⟩
  rcases h₄ : P (5 * j / 20) B₂ C₁ D₂ E₂ A₁ x₄ with ⟨A₂, C₂⟩
  have hcode : fiveRounds (⟨A, B, C, D, E⟩, W₀) (5 * j) = (⟨A₂, B₂, C₂, D₂, E₂⟩, W₅) := by
    simp only [fiveRounds, hx₀, h₀, hx₁, h₁, hx₂, h₂, hx₃, h₃, hx₄, h₄]
  rw [← hstage 1 (by omega)] at h₁
  rw [← hstage 2 (by omega)] at h₂
  rw [← hstage 3 (by omega)] at h₃
  rw [← hstage 4 (by omega)] at h₄
  simp only [List.range, List.range.loop, List.foldl_cons, List.foldl_nil, Nat.add_zero,
    roundWithWord, hx₀, hx₁, hx₂, hx₃, hx₄]
  rw [hcode, standardRound_of_P h₀, standardRound_of_P h₁, standardRound_of_P h₂,
    standardRound_of_P h₃, standardRound_of_P h₄]

/-! ## The words -/

/-- Before round `t`, the sixteen places hold the words of the last sixteen rounds. -/
structure Circular (M : ℕ → UInt32) (t : ℕ) (W : List UInt32) : Prop where
  length : W.length = 16
  word : ∀ i, t ≤ i + 16 → (i < t ∨ i < 16) → W.getD (i % 16) 0 = scheduleWord M i

theorem Circular.load (M : ℕ → UInt32) : Circular M 0 ((List.range 16).map M) := by
  refine ⟨by simp, fun i _ hi => ?_⟩
  have hlt : i < 16 := by omega
  rw [scheduleWord, if_pos hlt, Nat.mod_eq_of_lt hlt, List.getD_eq_getElem?_getD,
    List.getElem?_map, List.getElem?_range hlt, Option.map_some, Option.getD_some]

/-- **A round takes its word**, and puts it into the place of the oldest one. -/
theorem Circular.step {M : ℕ → UInt32} {t : ℕ} {W : List UInt32} (h : Circular M t W) :
    (R W t).1 = scheduleWord M t ∧ Circular M (t + 1) (R W t).2 := by
  by_cases ht : t < 16
  · rw [R, if_pos ht]
    refine ⟨?_, h.length, fun i hle hi => h.word i (by omega) (by omega)⟩
    have hword := h.word t (by omega) (by omega)
    rwa [Nat.mod_eq_of_lt ht] at hword
  · have hmask : ∀ i : ℕ, i &&& 0x0F = i % 16 := fun i => Nat.and_two_pow_sub_one_eq_mod i 4
    have hold : (t - 16) % 16 = t % 16 := by omega
    have hnew : (R W t).1 = scheduleWord M t := by
      have h₃ := h.word (t - 3) (by omega) (by omega)
      have h₈ := h.word (t - 8) (by omega) (by omega)
      have h₁₄ := h.word (t - 14) (by omega) (by omega)
      have h₁₆ := h.word (t - 16) (by omega) (by omega)
      rw [hold] at h₁₆
      have hS : ∀ x, S x 1 = rotl x 1 := fun x => S_eq x (k := 1) (by omega) (by omega)
      rw [R, if_neg ht, scheduleWord, if_neg ht]
      simp only [hmask, h₃, h₈, h₁₄, h₁₆, hS]
    have hset : (R W t).2 = W.set (t % 16) (R W t).1 := by
      simp only [R, if_neg ht, hmask]
    refine ⟨hnew, ?_⟩
    rw [hset, hnew]
    refine ⟨by rw [List.length_set, h.length], fun i hle hi => ?_⟩
    have hplace : t % 16 < W.length := by rw [h.length]; omega
    by_cases hi' : i = t
    · rw [hi', List.getD_eq_getElem?_getD, List.getElem?_set_self hplace, Option.getD_some]
    · have hne : t % 16 ≠ i % 16 := by omega
      rw [List.getD_eq_getElem?_getD, List.getElem?_set_ne hne, ← List.getD_eq_getElem?_getD]
      exact h.word i (by omega) (by omega)

/-- So many rounds, each with its word. -/
theorem rounds_eq (M : ℕ → UInt32) (s : Words5) (k : ℕ) :
    ((List.range k).foldl roundWithWord (s, (List.range 16).map M)).1
        = (List.range k).foldl (fun s t => standardRound (scheduleWord M t) s t) s ∧
      Circular M k ((List.range k).foldl roundWithWord (s, (List.range 16).map M)).2 := by
  have hload := Circular.load M
  generalize (List.range 16).map M = W at hload ⊢
  induction k with
  | zero => exact ⟨rfl, hload⟩
  | succ k ih =>
      obtain ⟨hstate, hwords⟩ := ih
      obtain ⟨hword, hnext⟩ := hwords.step
      simp only [List.range_succ, List.foldl_append, List.foldl_cons, List.foldl_nil]
      refine ⟨?_, hnext⟩
      rw [roundWithWord, hword, hstate]

/-- **A block**, written out, is a block of the recurrence. -/
theorem sha1Process_eq (s : Words5) (block : List UInt8) :
    sha1Process s block = standardBlock s block := by
  let M := fun t => getUint32Be block (4 * t)
  have hunrolled : (List.range 16).foldl (fun s j => fiveRounds s (5 * j))
      (s, (List.range 16).map M)
        = (List.range 80).foldl roundWithWord (s, (List.range 16).map M) := by
    simp only [fiveRounds_eq]
    exact (foldl_range_mul roundWithWord _ 16 5).symm
  rw [sha1Process, standardBlock, hunrolled, (rounds_eq M s 80).1]

/-! ## A message in pieces -/

/-- A context after a message whose bytes were counted as `count`. -/
structure Sha1Context.Holds (ctx : Sha1Context) (count : ℕ) (msg : List UInt8) : Prop where
  counted : (ctx.total0.toNat + 2 ^ 32 * ctx.total1.toNat) % 2 ^ 64 = count % 2 ^ 64
  low : count % 64 = msg.length % 64
  buffered : Buffered 64 sha1Process sha1State msg ctx.state ctx.buffer

theorem putUint32Be_eq (n : UInt32) : putUint32Be n = beBytes 4 n.toNat := by
  have hbyte := fun k (hk : k < 32) => toUInt8_shiftRight32 n hk
  simp only [beBytes, leBytes, List.reverse_cons, List.reverse_nil, List.nil_append,
    List.cons_append, Nat.div_div_eq_div_mul, Nat.reduceMul]
  rw [putUint32Be]
  refine congrArg₂ _ (hbyte 24 (by omega)) (congrArg₂ _ (hbyte 16 (by omega)) ?_)
  refine congrArg₂ _ (hbyte 8 (by omega)) (congrArg₂ _ ?_ rfl)
  exact UInt8.toNat_inj.mp (by rw [UInt32.toNat_toUInt8, UInt8.toNat_ofNat'])

theorem starts_holds {ctx : Sha1Context} (hctx : ctx.buffer.length = 64) :
    (sha1Starts ctx).Holds 0 [] := by
  refine ⟨rfl, rfl, ?_⟩
  have h := @Absorbed.nil UInt8 Words5 64 sha1Process sha1State (by omega)
  exact Buffered.intro [] ctx.buffer h hctx

/-- What the low counter says about the buffer. -/
theorem Sha1Context.Holds.left_eq {ctx : Sha1Context} {count : ℕ} {msg : List UInt8}
    (h : ctx.Holds count msg) : (ctx.total0 &&& 0x3F).toNat = msg.length % 64 := by
  have hcount := h.counted
  have hlow := h.low
  have hmask : (ctx.total0 &&& 0x3F).toNat = ctx.total0.toNat % 64 := by
    rw [UInt32.toNat_and]
    exact Nat.and_two_pow_sub_one_eq_mod _ 6
  omega

/-- The two counters are one of 64 bits, to which the lower half of a length is added. -/
theorem count_add {total0 total1 : UInt32} {count n : ℕ}
    (h : (total0.toNat + 2 ^ 32 * total1.toNat) % 2 ^ 64 = count % 2 ^ 64) :
    (((total0 + UInt32.ofNat n) &&& 0xFFFFFFFF).toNat + 2 ^ 32 *
        (if (total0 + UInt32.ofNat n) &&& 0xFFFFFFFF < UInt32.ofNat n then total1 + 1
          else total1).toNat) % 2 ^ 64
      = (count + n % 2 ^ 32) % 2 ^ 64 := by
  have hmask : (total0 + UInt32.ofNat n) &&& 0xFFFFFFFF = total0 + UInt32.ofNat n :=
    UInt32.and_neg_one
  have h₀ := total0.toNat_lt
  have hofNat : (UInt32.ofNat n).toNat = n % 2 ^ 32 := UInt32.toNat_ofNat'
  have hsum : (total0 + UInt32.ofNat n).toNat = (total0.toNat + n % 2 ^ 32) % 2 ^ 32 := by
    rw [UInt32.toNat_add, hofNat]
  have hone : (total1 + 1).toNat = (total1.toNat + 1) % 2 ^ 32 := UInt32.toNat_add total1 1
  have hcarry : total0 + UInt32.ofNat n < UInt32.ofNat n ↔
      (total0.toNat + n % 2 ^ 32) % 2 ^ 32 < n % 2 ^ 32 := by
    rw [UInt32.lt_iff_toNat_lt, hsum, hofNat]
  rw [hmask, hsum]
  by_cases hlt : total0 + UInt32.ofNat n < UInt32.ofNat n
  · have hlt' := hcarry.mp hlt
    rw [if_pos hlt, hone]
    omega
  · have hlt' := mt hcarry.mpr hlt
    rw [if_neg hlt]
    omega

/-- **An update.** -/
theorem Sha1Context.Holds.update {ctx : Sha1Context} {count : ℕ} {msg : List UInt8}
    (h : ctx.Holds count msg) (input : List UInt8) :
    ∃ ctx', sha1Update ctx input = some ctx' ∧
      ctx'.Holds (count + input.length % 2 ^ 32) (msg ++ input) := by
  by_cases hzero : input.length = 0
  · have hnil : input = [] := List.eq_nil_of_length_eq_zero hzero
    refine ⟨ctx, if_pos hzero, ?_⟩
    rwa [hnil, List.append_nil]
  · obtain ⟨state, buffer, heq, hbuf⟩ := bufferInput_spec h.buffered h.left_eq input
    let total0 := (ctx.total0 + UInt32.ofNat input.length) &&& 0xFFFFFFFF
    let total1 := if total0 < UInt32.ofNat input.length then ctx.total1 + 1 else ctx.total1
    refine ⟨{ total0 := total0, total1 := total1, state := state, buffer := buffer },
      ?_, count_add h.counted, ?_, hbuf⟩
    · rw [sha1Update, if_neg hzero]
      simp only [heq]
      rfl
    · have hlow := h.low
      rw [List.length_append]
      omega

/-- How the bytes of some inputs are counted. -/
def lowLengths (inputs : List (List UInt8)) : ℕ :=
  (inputs.map fun input => input.length % 2 ^ 32).sum

/-- **Updates**, one after the other. -/
theorem Sha1Context.Holds.updates {ctx : Sha1Context} {count : ℕ} {msg : List UInt8}
    (h : ctx.Holds count msg) (inputs : List (List UInt8)) :
    ∃ ctx', inputs.foldlM sha1Update ctx = some ctx' ∧
      ctx'.Holds (count + lowLengths inputs) (msg ++ inputs.flatten) := by
  induction inputs generalizing ctx msg count with
  | nil =>
      refine ⟨ctx, rfl, ?_⟩
      rwa [List.flatten_nil, List.append_nil]
  | cons input inputs ih =>
      obtain ⟨ctx₁, heq₁, hholds₁⟩ := h.update input
      obtain ⟨ctx₂, heq₂, hholds₂⟩ := ih hholds₁
      refine ⟨ctx₂, ?_, ?_⟩
      · rw [List.foldlM_cons, heq₁]
        exact heq₂
      · rwa [List.flatten_cons, ← List.append_assoc, lowLengths, List.map_cons, List.sum_cons,
          ← Nat.add_assoc]

/-- The words that say how many bits there were. -/
theorem msglen_eq {ctx : Sha1Context} {count : ℕ} {msg : List UInt8} (h : ctx.Holds count msg) :
    putUint32Be (ctx.total0 >>> 29 ||| ctx.total1 <<< 3) ++ putUint32Be (ctx.total0 <<< 3)
      = beBytes 8 (8 * count) := by
  have hcount := h.counted
  have h₀ := ctx.total0.toNat_lt
  have hlow : (ctx.total0 <<< 3).toNat = 8 * count % 2 ^ 32 := by
    rw [UInt32.toNat_shiftLeft]
    simp [Nat.shiftLeft_eq]
    omega
  have hhigh : (ctx.total0 >>> 29 ||| ctx.total1 <<< 3).toNat = 8 * count / 2 ^ 32 % 2 ^ 32 := by
    have h29 : ctx.total0.toNat / 2 ^ 29 < 2 ^ 3 := by omega
    have hshift : (ctx.total1 <<< 3).toNat = (ctx.total1.toNat % 2 ^ 29) <<< 3 := by
      rw [UInt32.toNat_shiftLeft]
      simp [Nat.shiftLeft_eq]
      omega
    have hright : ctx.total0.toNat >>> ((29 : UInt32).toNat % 32) = ctx.total0.toNat / 2 ^ 29 :=
      Nat.shiftRight_eq_div_pow _ 29
    rw [UInt32.toNat_or, hshift, UInt32.toNat_shiftRight, Nat.or_comm, hright,
      ← Nat.shiftLeft_add_eq_or_of_lt h29, Nat.shiftLeft_eq]
    omega
  have hbig : (2 : ℕ) ^ 32 = 256 ^ 4 := by norm_num
  rw [putUint32Be_eq, putUint32Be_eq, hlow, hhigh, beBytes_add 4 4, hbig, beBytes_mod, beBytes_mod]

/-- **The end of a message.** -/
theorem Sha1Context.Holds.finish {ctx : Sha1Context} {count : ℕ} {msg : List UInt8}
    (h : ctx.Holds count msg) : ∃ ctx', sha1Finish ctx = some (ctx', sha1Counted count msg) := by
  let lenBytes := beBytes 8 (8 * count)
  have hlen : lenBytes.length = 8 := length_beBytes 8 _
  obtain ⟨ctx₁, heq₁, hholds₁⟩ := h.update ((padding 64).take (padLen 64 8 (msg.length % 64)))
  obtain ⟨ctx₂, heq₂, hholds₂⟩ := hholds₁.update lenBytes
  have hpad := padded_eq (show lenBytes.length < 64 by omega) msg
  rw [hlen] at hpad
  have hbuf := hholds₂.buffered
  rw [hpad] at hbuf
  have hstate := hbuf.eq_compressAll (dvd_length_padded (by omega) msg)
  have hprocess : sha1Process = standardBlock := funext₂ sha1Process_eq
  refine ⟨ctx₂, ?_⟩
  simp only [sha1Finish, h.left_eq, heq₁, msglen_eq h, Option.bind_eq_bind, Option.bind_some]
  rw [heq₂, Option.bind_some, hstate, hprocess]
  rfl

theorem lowLengths_eq {inputs : List (List UInt8)} (h : ∀ input ∈ inputs, input.length < 2 ^ 32) :
    lowLengths inputs = inputs.flatten.length := by
  have hmap : inputs.map (fun input => input.length % 2 ^ 32) = inputs.map List.length :=
    List.map_congr_left fun input hi => Nat.mod_eq_of_lt (h input hi)
  rw [lowLengths, hmap, List.length_flatten]

/-- **The hash does not see the pieces**, only the number at the end does: of a piece of 4 GiB or
more it counts what is above a multiple of that. -/
theorem sha1_stream {ctx : Sha1Context} (hctx : ctx.buffer.length = 64)
    (inputs : List (List UInt8)) :
    ((inputs.foldlM sha1Update (sha1Starts ctx)).bind sha1Finish).map Prod.snd
        = some (sha1Counted (lowLengths inputs) inputs.flatten) ∧
      ((∀ input ∈ inputs, input.length < 2 ^ 32) →
        ((inputs.foldlM sha1Update (sha1Starts ctx)).bind sha1Finish).map Prod.snd
          = some (sha1Digest inputs.flatten)) := by
  obtain ⟨ctx₁, heq₁, hholds⟩ := (starts_holds hctx).updates inputs
  rw [Nat.zero_add, List.nil_append] at hholds
  obtain ⟨ctx₂, heq₂⟩ := hholds.finish
  rw [heq₁, Option.bind_some, heq₂]
  refine ⟨rfl, fun hsmall => ?_⟩
  rw [lowLengths_eq hsmall]
  rfl

theorem sha1_stream_abc :
    ((([[0x61], [0x62, 0x63]] : List (List UInt8)).foldlM sha1Update (sha1Starts sha1Init)).bind
        sha1Finish).map Prod.snd = some (sha1Digest [0x61, 0x62, 0x63]) :=
  (@sha1_stream sha1Init List.length_replicate [[0x61], [0x62, 0x63]]).2 (by decide)

/-- The same in one call. -/
theorem sha1_eq (input : List UInt8) :
    sha1 input = some (sha1Counted (input.length % 2 ^ 32) input) := by
  have hinit : sha1Init.buffer.length = 64 := List.length_replicate
  obtain ⟨ctx₁, heq₁, hholds⟩ := (starts_holds hinit).update input
  obtain ⟨ctx₂, heq₂⟩ := hholds.finish
  simp only [sha1, heq₁, heq₂, Option.bind_eq_bind, Option.bind_some, List.nil_append,
    Nat.zero_add]

end CCode.Digest.Sha1
