import CCode.Digest.Buffer
import CCode.Digest.Words
import CCode.Lib.While
import Mathlib.Data.List.GetD

/-!
# MD5

`md5.c`. `MD5Update` takes its input byte by byte, except that on a little-endian machine whole
blocks are compressed where they lie, if the buffer is empty and the input is aligned.
`MD5Transform` has its 64 steps written out, with the variables moved by their names. The counters
are of bits.

## Main definitions

* `md5Transform`, `md5Update`, `md5Final` — the functions of the source.
* `standardBlock` — a block by the recurrence.
* `md5Digest` — the hash of a message.

## Main results

* `md5Transform_eq` — the steps are those of the recurrence.
* `md5_stream` — the hash sees neither in which pieces a message comes nor where they lie.
-/

namespace CCode.Digest.Md5

open CCode.Lib

/-! ## The functions of the source -/

/-- The words of `buf[4]`, and the variables that they go to. -/
structure Words4 where
  (a b c d : UInt32)
deriving DecidableEq, Repr

/-- `MD5_CTX`. -/
structure Md5Ctx where
  i0 : UInt32
  i1 : UInt32
  buf : Words4
  input : List UInt8
  digest : List UInt8
deriving DecidableEq, Repr

/-! The macros of `MD5Transform`. -/

def F (x y z : UInt32) : UInt32 := (x &&& y) ||| (~~~x &&& z)
def G (x y z : UInt32) : UInt32 := (x &&& z) ||| (y &&& ~~~z)
def H (x y z : UInt32) : UInt32 := x ^^^ y ^^^ z
def I (x y z : UInt32) : UInt32 := y ^^^ (x ||| ~~~z)

def ROTATE_LEFT (x n : UInt32) : UInt32 := x <<< n ||| x >>> (32 - n)

/-- `FF`, `GG`, `HH` and `II`: the new value of `a`. -/
def transformation (f : UInt32 → UInt32 → UInt32 → UInt32) (a b c d x s ac : UInt32) : UInt32 :=
  ROTATE_LEFT (a + (f b c d + x + ac)) s + b

/-- The function of the rounds 1, 2, 3 and 4. -/
def roundMacro : ℕ → UInt32 → UInt32 → UInt32 → UInt32
  | 0 => F
  | 1 => G
  | 2 => H
  | _ => I

/-- The word, the shift and the constant of each of the 64 lines. -/
def md5Lines : List (ℕ × UInt32 × UInt32) :=
  [(0, 7, 3614090360), (1, 12, 3905402710), (2, 17, 606105819), (3, 22, 3250441966),
   (4, 7, 4118548399), (5, 12, 1200080426), (6, 17, 2821735955), (7, 22, 4249261313),
   (8, 7, 1770035416), (9, 12, 2336552879), (10, 17, 4294925233), (11, 22, 2304563134),
   (12, 7, 1804603682), (13, 12, 4254626195), (14, 17, 2792965006), (15, 22, 1236535329),
   (1, 5, 4129170786), (6, 9, 3225465664), (11, 14, 643717713), (0, 20, 3921069994),
   (5, 5, 3593408605), (10, 9, 38016083), (15, 14, 3634488961), (4, 20, 3889429448),
   (9, 5, 568446438), (14, 9, 3275163606), (3, 14, 4107603335), (8, 20, 1163531501),
   (13, 5, 2850285829), (2, 9, 4243563512), (7, 14, 1735328473), (12, 20, 2368359562),
   (5, 4, 4294588738), (8, 11, 2272392833), (11, 16, 1839030562), (14, 23, 4259657740),
   (1, 4, 2763975236), (4, 11, 1272893353), (7, 16, 4139469664), (10, 23, 3200236656),
   (13, 4, 681279174), (0, 11, 3936430074), (3, 16, 3572445317), (6, 23, 76029189),
   (9, 4, 3654602809), (12, 11, 3873151461), (15, 16, 530742520), (2, 23, 3299628645),
   (0, 6, 4096336452), (7, 10, 1126891415), (14, 15, 2878612391), (5, 21, 4237533241),
   (12, 6, 1700485571), (3, 10, 2399980690), (10, 15, 4293915773), (1, 21, 2240044497),
   (8, 6, 1873313359), (15, 10, 4264355552), (6, 15, 2734768916), (13, 21, 1309151649),
   (4, 6, 4149444226), (11, 10, 3174756917), (2, 15, 718787259), (9, 21, 3951481745)]

/-- Four lines of `MD5Transform`, from line `4 * j`: after them, each variable has its own value
again. -/
def fourLines (x : List UInt32) (s : Words4) (j : ℕ) : Words4 :=
  let line := fun (a b c d : UInt32) (i : ℕ) =>
    let (k, s, ac) := md5Lines.getD (4 * j + i) (0, 0, 0)
    transformation (roundMacro (j / 4)) a b c d (x.getD k 0) s ac
  let ⟨a, b, c, d⟩ := s
  let a := line a b c d 0
  let d := line d a b c 1
  let c := line c d a b 2
  let b := line b c d a 3
  ⟨a, b, c, d⟩

/-- `+=` for each word of `buf`. -/
def Words4.add (s t : Words4) : Words4 := ⟨s.a + t.a, s.b + t.b, s.c + t.c, s.d + t.d⟩

/-- `MD5Transform`. -/
def md5Transform (buf : Words4) (x : List UInt32) : Words4 :=
  buf.add ((List.range 16).foldl (fourLines x) buf)

/-- `MD5Init`. -/
def md5Init (ctx : Md5Ctx) : Md5Ctx :=
  { ctx with
    i0 := 0, i1 := 0
    buf := { a := 0x67452301, b := 0xefcdab89, c := 0x98badcfe, d := 0x10325476 } }

/-- `in[i]`, from the bytes at `ii`. -/
def wordAt (b : List UInt8) (ii : ℕ) : UInt32 :=
  (b.getD (ii + 3) 0).toUInt32 <<< 24 ||| (b.getD (ii + 2) 0).toUInt32 <<< 16 |||
    (b.getD (ii + 1) 0).toUInt32 <<< 8 ||| (b.getD ii 0).toUInt32

/-- The first `k` words of a block; also what `(UINT4 *)` makes of it on a little-endian machine. -/
def wordsOf (k : ℕ) (b : List UInt8) : List UInt32 := (List.range k).map fun i => wordAt b (4 * i)

/-- A block of bytes. -/
def md5Block (buf : Words4) (block : List UInt8) : Words4 := md5Transform buf (wordsOf 16 block)

/-- `while (inLen--)`; `none` where `in[mdi++]` is outside of the buffer. -/
def md5Bytes : Words4 → List UInt8 → ℕ → List UInt8 → Option (Words4 × List UInt8)
  | buf, buffer, _, [] => some (buf, buffer)
  | buf, buffer, mdi, b :: bs => do
      let buffer ← store buffer mdi b
      if mdi + 1 = 0x40 then md5Bytes (md5Block buf buffer) buffer 0 bs
      else md5Bytes buf buffer (mdi + 1) bs

/-- `MD5Update`, where `aligned` says if `((int)inBuf & 3) == 0`. -/
def md5Update (ctx : Md5Ctx) (aligned : Bool) (inBuf : List UInt8) : Option Md5Ctx := do
  let inLen := UInt32.ofNat inBuf.length
  let mdi := ((ctx.i0 >>> 3) &&& 0x3F).toNat
  let i1 := if ctx.i0 + inLen <<< 3 < ctx.i0 then ctx.i1 + 1 else ctx.i1
  let i0 := ctx.i0 + inLen <<< 3
  let i1 := i1 + inLen >>> 29
  let (buf, inBuf) :=
    if mdi = 0 ∧ aligned then inputBlocks 64 md5Block inBuf.length ctx.buf inBuf
    else (ctx.buf, inBuf)
  let (buf, input) ← md5Bytes buf ctx.input mdi inBuf
  some { ctx with i0 := i0, i1 := i1, buf := buf, input := input }

/-- The bytes of `buf`, as they go to `digest`. -/
def md5Output (buf : Words4) : List UInt8 :=
  [buf.a, buf.b, buf.c, buf.d].flatMap fun (w : UInt32) =>
    [(w &&& 0xFF).toUInt8, ((w >>> 8) &&& 0xFF).toUInt8, ((w >>> 16) &&& 0xFF).toUInt8,
     ((w >>> 24) &&& 0xFF).toUInt8]

/-- `MD5Final`, where `aligned` is about `PADDING`. -/
def md5Final (ctx : Md5Ctx) (aligned : Bool) : Option Md5Ctx := do
  let in14 := ctx.i0
  let in15 := ctx.i1
  let mdi := ((ctx.i0 >>> 3) &&& 0x3F).toNat
  let ctx ← md5Update ctx aligned ((padding 64).take (padLen 64 8 mdi))
  let buf := md5Transform ctx.buf (wordsOf 14 ctx.input ++ [in14, in15])
  some { ctx with buf := buf, digest := md5Output buf }

/-- `md5`, on the context that it keeps from call to call. -/
def md5 (ctx : Md5Ctx) (alignedPadding aligned : Bool) (buf : List UInt8) : Option Md5Ctx := do
  let ctx ← md5Update (md5Init ctx) aligned buf
  md5Final ctx alignedPadding

/-! ## The recurrence -/

/-- `y` where `x` has a one, `z` elsewhere. -/
def choose (x y z : UInt32) : UInt32 := (x &&& y) ^^^ (~~~x &&& z)

/-- The function, the word and the shifts of step `i`. -/
def stepFunction (i : ℕ) (x y z : UInt32) : UInt32 :=
  if i < 16 then choose x y z
  else if i < 32 then choose z x y
  else if i < 48 then x ^^^ y ^^^ z
  else y ^^^ (x ||| ~~~z)

def stepWord (i : ℕ) : ℕ :=
  if i < 16 then i
  else if i < 32 then (5 * i + 1) % 16
  else if i < 48 then (3 * i + 5) % 16
  else 7 * i % 16

def stepShift (i : ℕ) : ℕ :=
  if i < 16 then [7, 12, 17, 22].getD (i % 4) 0
  else if i < 32 then [5, 9, 14, 20].getD (i % 4) 0
  else if i < 48 then [4, 11, 16, 23].getD (i % 4) 0
  else [6, 10, 15, 21].getD (i % 4) 0

/-- The constant of step `i`. -/
def stepConstant (i : ℕ) : UInt32 := (md5Lines.getD i (0, 0, 0)).2.2

/-- One step: the values move on by one place. -/
def standardStep (x : List UInt32) (s : Words4) (i : ℕ) : Words4 :=
  ⟨s.d, s.b + rotl (s.a + stepFunction i s.b s.c s.d + stepConstant i + x.getD (stepWord i) 0)
    (stepShift i), s.b, s.c⟩

/-- One block. -/
def standardBlock (s : Words4) (block : List UInt8) : Words4 :=
  s.add ((List.range 64).foldl (standardStep (wordsOf 16 block)) s)

/-- MD5 of a message. -/
def md5Digest (msg : List UInt8) : List UInt8 :=
  md5Output (compressAll 64 standardBlock
    { a := 0x67452301, b := 0xefcdab89, c := 0x98badcfe, d := 0x10325476 }
    (padded 64 (leBytes 8 (8 * msg.length)) msg))

/-! ## The steps -/

theorem F_eq (x y z : UInt32) : F x y z = choose x y z := by
  apply UInt32.eq_of_toBitVec_eq
  ext i hi
  simp only [F, choose, UInt32.toBitVec_or, UInt32.toBitVec_and, UInt32.toBitVec_xor,
    UInt32.toBitVec_not, BitVec.getElem_or, BitVec.getElem_and, BitVec.getElem_xor,
    BitVec.getElem_not]
  cases x.toBitVec[i] <;> cases y.toBitVec[i] <;> cases z.toBitVec[i] <;> rfl

theorem G_eq (x y z : UInt32) : G x y z = choose z x y := by
  apply UInt32.eq_of_toBitVec_eq
  ext i hi
  simp only [G, choose, UInt32.toBitVec_or, UInt32.toBitVec_and, UInt32.toBitVec_xor,
    UInt32.toBitVec_not, BitVec.getElem_or, BitVec.getElem_and, BitVec.getElem_xor,
    BitVec.getElem_not]
  cases x.toBitVec[i] <;> cases y.toBitVec[i] <;> cases z.toBitVec[i] <;> rfl

/-- The four macros are the function of the step. -/
theorem roundMacro_eq (i : ℕ) (x y z : UInt32) :
    roundMacro (i / 16) x y z = stepFunction i x y z := by
  by_cases h₁ : i < 16
  · rw [Nat.div_eq_of_lt h₁, stepFunction, if_pos h₁]
    exact F_eq x y z
  · by_cases h₂ : i < 32
    · rw [show i / 16 = 1 by omega, stepFunction, if_neg h₁, if_pos h₂]
      exact G_eq x y z
    · by_cases h₃ : i < 48
      · rw [show i / 16 = 2 by omega, stepFunction, if_neg h₁, if_neg h₂, if_pos h₃]
        rfl
      · rw [show i / 16 = (i / 16 - 3) + 3 by omega, stepFunction, if_neg h₁, if_neg h₂, if_neg h₃]
        rfl

/-- **The lines of the source**: their words and shifts follow the rules. -/
theorem md5Lines_eq : ∀ i < 64, (md5Lines.getD i (0, 0, 0)).1 = stepWord i ∧
    (md5Lines.getD i (0, 0, 0)).2.1 = UInt32.ofNat (stepShift i) ∧
    0 < stepShift i ∧ stepShift i < 32 := by
  decide

/-- What a line assigns is what the step makes new. -/
theorem standardStep_eq {i : ℕ} (hi : i < 64) (x : List UInt32) (a b c d : UInt32) :
    standardStep x ⟨a, b, c, d⟩ i
      = ⟨d, transformation (roundMacro (i / 16)) a b c d (x.getD (md5Lines.getD i (0, 0, 0)).1 0)
          (md5Lines.getD i (0, 0, 0)).2.1 (md5Lines.getD i (0, 0, 0)).2.2, b, c⟩ := by
  obtain ⟨hword, hshift, hpos, hlt⟩ := md5Lines_eq i hi
  have hsum : a + stepFunction i b c d + stepConstant i + x.getD (stepWord i) 0
      = a + (stepFunction i b c d + x.getD (stepWord i) 0 + stepConstant i) := by
    ac_rfl
  rw [standardStep, transformation, hword, hshift, ROTATE_LEFT, shifts_eq_rotl _ hpos hlt,
    roundMacro_eq, UInt32.add_comm b]
  simp only [hsum]
  rfl

/-- **Four lines of the source** are four steps. -/
theorem fourLines_eq {j : ℕ} (hj : j < 16) (x : List UInt32) (s : Words4) :
    fourLines x s j = (List.range 4).foldl (fun s r => standardStep x s (4 * j + r)) s := by
  obtain ⟨a, b, c, d⟩ := s
  have hround : ∀ r < 4, (4 * j + r) / 16 = j / 4 := by
    intro r hr
    omega
  simp only [List.range, List.range.loop, List.foldl_cons, List.foldl_nil]
  rw [standardStep_eq (by omega), standardStep_eq (by omega), standardStep_eq (by omega),
    standardStep_eq (by omega), hround 0 (by omega), hround 1 (by omega), hround 2 (by omega),
    hround 3 (by omega)]
  rfl

/-- **A block**, written out, is a block of the recurrence. -/
theorem md5Transform_eq (s : Words4) (x : List UInt32) :
    md5Transform s x = s.add ((List.range 64).foldl (standardStep x) s) := by
  have hlines : (List.range 16).foldl (fourLines x) s
      = (List.range 16).foldl (fun s j =>
          (List.range 4).foldl (fun s r => standardStep x s (4 * j + r)) s) s :=
    List.foldl_ext _ _ s fun s j hj => fourLines_eq (List.mem_range.mp hj) x s
  rw [md5Transform, hlines, ← foldl_range_mul (standardStep x) s 16 4]

theorem md5Block_eq (s : Words4) (block : List UInt8) : md5Block s block = standardBlock s block :=
  md5Transform_eq s (wordsOf 16 block)

/-! ## A message in pieces -/

/-- The words that `MD5Init` sets. -/
def md5State : Words4 := { a := 0x67452301, b := 0xefcdab89, c := 0x98badcfe, d := 0x10325476 }

variable {init buf : Words4} {msg buffer : List UInt8}

/-- The loop over the bytes. -/
theorem md5Bytes_spec (h : Buffered 64 md5Block init msg buf buffer) {mdi : ℕ}
    (hmdi : mdi = msg.length % 64) (input : List UInt8) :
    ∃ buf' buffer', md5Bytes buf buffer mdi input = some (buf', buffer') ∧
      Buffered 64 md5Block init (msg ++ input) buf' buffer' := by
  induction input generalizing buf buffer msg mdi with
  | nil =>
      refine ⟨buf, buffer, rfl, ?_⟩
      rwa [List.append_nil]
  | cons b bs ih =>
      cases h with
      | intro rest tail habs hlen =>
          have hrest : mdi = rest.length := by rw [habs.length_rest, hmdi]
          have hlt := habs.length_lt
          rw [List.length_append] at hlen
          obtain ⟨x, tail, rfl⟩ := List.exists_cons_of_length_pos (show 0 < tail.length by omega)
          have hstore : store (rest ++ x :: tail) mdi b = some (rest ++ b :: tail) :=
            store_append (by rw [hrest]) b
          rw [List.length_cons] at hlen
          have hmod : (msg ++ [b]).length % 64 = (mdi + 1) % 64 := by
            rw [List.length_append, List.length_singleton]
            omega
          rw [md5Bytes, hstore, Option.bind_eq_bind, Option.bind_some, List.append_cons msg b bs]
          by_cases hfull : mdi + 1 = 0x40
          · have hnil : tail = [] := List.eq_nil_of_length_eq_zero (by omega)
            have hfill := habs.fill (show rest.length + [b].length = 64 by simp; omega)
            rw [if_pos hfull, hnil]
            exact ih (Buffered.intro [] (rest ++ [b]) hfill (by simp; omega))
              (by rw [hmod, hfull])
          · have hshort := habs.short (show rest.length + [b].length < 64 by simp; omega)
            have hkeep := Buffered.intro (rest ++ [b]) tail hshort (by simp; omega)
            rw [List.append_assoc, List.singleton_append] at hkeep
            rw [if_neg hfull]
            exact ih hkeep (by omega)

/-- **The fast path** leaves the loop what is less than a block. -/
theorem inputBlocks_spec (h : Buffered 64 md5Block init msg buf buffer)
    (hmdi : msg.length % 64 = 0) (input : List UInt8) :
    ∃ buf' pre rest, inputBlocks 64 md5Block input.length buf input = (buf', rest) ∧
      input = pre ++ rest ∧ pre.length % 64 = 0 ∧
      Buffered 64 md5Block init (msg ++ pre) buf' buffer := by
  cases h with
  | intro rest tail habs hlen =>
      have hzero : rest.length = 0 := by rw [habs.length_rest, hmdi]
      have hnil : rest = [] := List.eq_nil_of_length_eq_zero hzero
      subst hnil
      let k := input.length / 64
      have hpre : (input.take (64 * k)).length = 64 * k := by
        rw [List.length_take]
        omega
      have hstate : foldBlocks 64 md5Block k buf input
          = foldBlocks 64 md5Block k buf (input.take (64 * k)) := by
        have h := @foldBlocks_eq_of_append UInt8 Words4 64 md5Block _ _ hpre buf
          (input.drop (64 * k))
        rwa [List.take_append_drop] at h
      refine ⟨_, input.take (64 * k), input.drop (64 * k),
        inputBlocks_eq (by omega) le_rfl buf, (List.take_append_drop _ _).symm, by omega, ?_⟩
      rw [hstate]
      exact Buffered.intro [] tail (habs.blocks hpre) hlen

/-- A context after a message. -/
structure Md5Ctx.Holds (ctx : Md5Ctx) (msg : List UInt8) : Prop where
  counted : (ctx.i0.toNat + 2 ^ 32 * ctx.i1.toNat) % 2 ^ 64 = 8 * msg.length % 2 ^ 64
  buffered : Buffered 64 md5Block md5State msg ctx.buf ctx.input

theorem init_holds {ctx : Md5Ctx} (hctx : ctx.input.length = 64) : (md5Init ctx).Holds [] := by
  refine ⟨rfl, ?_⟩
  have h := @Absorbed.nil UInt8 Words4 64 md5Block md5State (by omega)
  exact Buffered.intro [] ctx.input h hctx

/-- What the low counter says about the buffer. -/
theorem Md5Ctx.Holds.mdi_eq {ctx : Md5Ctx} (h : ctx.Holds msg) :
    ((ctx.i0 >>> 3) &&& 0x3F).toNat = msg.length % 64 := by
  have hcount := h.counted
  have hshift : (ctx.i0 >>> 3).toNat = ctx.i0.toNat / 8 := by
    rw [UInt32.toNat_shiftRight]
    exact Nat.shiftRight_eq_div_pow _ 3
  have hmask : ((ctx.i0 >>> 3) &&& 0x3F).toNat = ctx.i0.toNat / 8 % 64 := by
    rw [UInt32.toNat_and, hshift]
    exact Nat.and_two_pow_sub_one_eq_mod _ 6
  omega

/-- A carry out of the upper half is lost. -/
theorem mod_upper (y z : ℕ) : (y + 2 ^ 32 * (z % 2 ^ 32)) % 2 ^ 64 = (y + 2 ^ 32 * z) % 2 ^ 64 := by
  omega

/-- The two counters are one of 64 bits. -/
theorem count_add {i0 i1 : UInt32} {len n : ℕ}
    (h : (i0.toNat + 2 ^ 32 * i1.toNat) % 2 ^ 64 = 8 * len % 2 ^ 64) (hn : n < 2 ^ 32) :
    ((i0 + UInt32.ofNat n <<< 3).toNat + 2 ^ 32 *
        ((if i0 + UInt32.ofNat n <<< 3 < i0 then i1 + 1 else i1) + UInt32.ofNat n >>> 29).toNat)
          % 2 ^ 64 = 8 * (len + n) % 2 ^ 64 := by
  have h₀ := i0.toNat_lt
  have hofNat : (UInt32.ofNat n).toNat = n := UInt32.toNat_ofNat_of_lt' hn
  have hlow : (UInt32.ofNat n <<< 3).toNat = 8 * n % 2 ^ 32 := by
    rw [UInt32.toNat_shiftLeft, hofNat]
    simp [Nat.shiftLeft_eq]
    omega
  have hhigh : (UInt32.ofNat n >>> 29).toNat = n / 2 ^ 29 := by
    rw [UInt32.toNat_shiftRight, hofNat]
    exact Nat.shiftRight_eq_div_pow _ 29
  have hsum : (i0 + UInt32.ofNat n <<< 3).toNat = (i0.toNat + 8 * n % 2 ^ 32) % 2 ^ 32 := by
    rw [UInt32.toNat_add, hlow]
  have hcarry : i0 + UInt32.ofNat n <<< 3 < i0 ↔
      (i0.toNat + 8 * n % 2 ^ 32) % 2 ^ 32 < i0.toNat := by
    rw [UInt32.lt_iff_toNat_lt, hsum]
  have hone : (i1 + 1).toNat = (i1.toNat + 1) % 2 ^ 32 := UInt32.toNat_add i1 1
  have hbits : 8 * n = 8 * n % 2 ^ 32 + 2 ^ 32 * (n / 2 ^ 29) := by omega
  rw [hsum, UInt32.toNat_add _ (UInt32.ofNat n >>> 29), hhigh, mod_upper, Nat.mul_add, hbits]
  generalize 8 * n % 2 ^ 32 = low at hcarry hbits
  by_cases hlt : i0 + UInt32.ofNat n <<< 3 < i0
  · have hlt' := hcarry.mp hlt
    rw [if_pos hlt, hone]
    omega
  · have hlt' := mt hcarry.mpr hlt
    rw [if_neg hlt]
    omega

/-- **An update**, wherever the input lies. -/
theorem Md5Ctx.Holds.update {ctx : Md5Ctx} (h : ctx.Holds msg) (aligned : Bool)
    {inBuf : List UInt8} (hin : inBuf.length < 2 ^ 32) :
    ∃ ctx', md5Update ctx aligned inBuf = some ctx' ∧ ctx'.Holds (msg ++ inBuf) := by
  have hmdi := h.mdi_eq
  let i0 := ctx.i0 + UInt32.ofNat inBuf.length <<< 3
  let i1 := (if i0 < ctx.i0 then ctx.i1 + 1 else ctx.i1) + UInt32.ofNat inBuf.length >>> 29
  have hcount : (i0.toNat + 2 ^ 32 * i1.toNat) % 2 ^ 64 = 8 * (msg ++ inBuf).length % 2 ^ 64 := by
    rw [List.length_append]
    exact count_add h.counted hin
  by_cases hfast : msg.length % 64 = 0 ∧ aligned = true
  · obtain ⟨buf₁, pre, rest, hblocks, hsplit, hpre, hbuf₁⟩ :=
      inputBlocks_spec h.buffered hfast.1 inBuf
    have hmod : msg.length % 64 = (msg ++ pre).length % 64 := by
      rw [List.length_append]
      omega
    obtain ⟨buf₂, input, hbytes, hbuf₂⟩ := md5Bytes_spec hbuf₁ hmod rest
    rw [List.append_assoc, ← hsplit] at hbuf₂
    refine ⟨{ ctx with i0 := i0, i1 := i1, buf := buf₂, input := input }, ?_, hcount, hbuf₂⟩
    simp only [md5Update, hmdi, if_pos hfast, hblocks, hbytes, Option.bind_eq_bind,
      Option.bind_some]
    rfl
  · obtain ⟨buf₂, input, hbytes, hbuf₂⟩ := md5Bytes_spec h.buffered rfl inBuf
    refine ⟨{ ctx with i0 := i0, i1 := i1, buf := buf₂, input := input }, ?_, hcount, hbuf₂⟩
    simp only [md5Update, hmdi, if_neg hfast, hbytes, Option.bind_eq_bind, Option.bind_some]
    rfl

/-- **Updates**, one after the other. -/
theorem Md5Ctx.Holds.updates {ctx : Md5Ctx} (h : ctx.Holds msg)
    (inputs : List (Bool × SizedInput 32)) :
    ∃ ctx', inputs.foldlM (fun ctx input => md5Update ctx input.1 input.2.val) ctx = some ctx' ∧
      ctx'.Holds (msg ++ inputs.flatMap fun input => input.2.val) := by
  induction inputs generalizing ctx msg with
  | nil =>
      refine ⟨ctx, rfl, ?_⟩
      rwa [List.flatMap_nil, List.append_nil]
  | cons input inputs ih =>
      obtain ⟨ctx₁, heq₁, hholds₁⟩ := h.update input.1 input.2.property
      obtain ⟨ctx₂, heq₂, hholds₂⟩ := ih hholds₁
      refine ⟨ctx₂, ?_, ?_⟩
      · rw [List.foldlM_cons, heq₁]
        exact heq₂
      · rwa [List.flatMap_cons, ← List.append_assoc]

/-- A word is read where its bytes are. -/
theorem wordAt_le32 (pre post : List UInt8) (w : UInt32) :
    wordAt (pre ++ (le32 w ++ post)) pre.length = w := by
  rw [wordAt, or_eq_ofLe32]
  simp [le32]

/-- A word that is before the end is that of the first part. -/
theorem wordAt_append {as : List UInt8} (bs : List UInt8) {p : ℕ} (h : p + 4 ≤ as.length) :
    wordAt (as ++ bs) p = wordAt as p := by
  simp only [wordAt]
  rw [List.getD_append _ _ _ _ (by omega), List.getD_append _ _ _ _ (by omega),
    List.getD_append _ _ _ _ (by omega), List.getD_append _ _ _ _ (by omega)]

/-- **The last block**: the words that are in the buffer, and the two of the length. -/
theorem wordsOf_last {rest : List UInt8} (hrest : rest.length = 56) (tail : List UInt8) (v : ℕ) :
    wordsOf 14 (rest ++ tail) ++ [UInt32.ofNat v, UInt32.ofNat (v / 2 ^ 32)]
      = wordsOf 16 (rest ++ leBytes 8 v) := by
  have hbytes : leBytes 8 v = le32 (UInt32.ofNat v) ++ le32 (UInt32.ofNat (v / 2 ^ 32)) := by
    rw [leBytes_add 4 4, leBytes_eq_le32, leBytes_eq_le32]
    rfl
  have hfirst : wordsOf 14 (rest ++ tail) = wordsOf 14 (rest ++ leBytes 8 v) := by
    apply List.map_congr_left
    intro i hi
    have hlt := List.mem_range.mp hi
    rw [wordAt_append tail (by omega), wordAt_append _ (by omega)]
  have h₁₄ : wordAt (rest ++ leBytes 8 v) 56 = UInt32.ofNat v := by
    rw [hbytes, ← hrest]
    exact wordAt_le32 rest _ _
  have h₁₅ : wordAt (rest ++ leBytes 8 v) 60 = UInt32.ofNat (v / 2 ^ 32) := by
    have h := wordAt_le32 (rest ++ le32 (UInt32.ofNat v)) [] (UInt32.ofNat (v / 2 ^ 32))
    rw [List.append_nil, List.append_assoc, List.length_append, hrest] at h
    rw [hbytes]
    exact h
  rw [hfirst, wordsOf, wordsOf, show (16 : ℕ) = 14 + 2 from rfl, List.range_add, List.map_append,
    ← h₁₄, ← h₁₅]
  rfl

/-- **The end of a message.** -/
theorem Md5Ctx.Holds.final {ctx : Md5Ctx} (h : ctx.Holds msg) (aligned : Bool) :
    ∃ ctx', md5Final ctx aligned = some ctx' ∧ ctx'.digest = md5Digest msg := by
  let lenBytes := leBytes 8 (8 * msg.length)
  have hlen : lenBytes.length = 8 := length_leBytes 8 _
  let pad := (padding 64).take (padLen 64 8 (msg.length % 64))
  have hpad : pad.length < 2 ^ 32 := by
    rw [List.length_take]
    exact Nat.lt_of_le_of_lt (Nat.min_le_right _ _) (by simp [padding])
  obtain ⟨ctx₁, heq₁, hholds₁⟩ := h.update aligned hpad
  obtain ⟨rest, tail, hinput, hsize, habs⟩ := hholds₁.buffered.split
  have hpadded : msg ++ pad ++ lenBytes = padded 64 lenBytes msg := by
    have h := padded_eq (show lenBytes.length < 64 by omega) msg
    rwa [hlen] at h
  have hdvd := dvd_length_padded (show lenBytes.length < 64 by omega) msg
  have hrest : rest.length = 56 := by
    have hmod := habs.length_rest
    have hlt := habs.length_lt
    rw [← hpadded, List.length_append, hlen] at hdvd
    omega
  have hfill := habs.fill (show rest.length + lenBytes.length = 64 by omega)
  rw [hpadded] at hfill
  -- the counter, which was saved before the padding, is the length
  have hcount := h.counted
  have hlow := ctx.i0.toNat_lt
  have h₁₄ : ctx.i0 = UInt32.ofNat (8 * msg.length) := by
    apply UInt32.toNat_inj.mp
    rw [UInt32.toNat_ofNat']
    omega
  have h₁₅ : ctx.i1 = UInt32.ofNat (8 * msg.length / 2 ^ 32) := by
    have hhigh := ctx.i1.toNat_lt
    apply UInt32.toNat_inj.mp
    rw [UInt32.toNat_ofNat']
    omega
  have hlast : md5Transform ctx₁.buf (wordsOf 14 ctx₁.input ++ [ctx.i0, ctx.i1])
      = compressAll 64 standardBlock md5State (padded 64 lenBytes msg) := by
    have hblock : md5Block = standardBlock := funext₂ md5Block_eq
    rw [h₁₄, h₁₅, hinput, wordsOf_last hrest, ← hblock]
    exact hfill.eq_compressAll
  refine ⟨{ ctx₁ with
    buf := md5Transform ctx₁.buf (wordsOf 14 ctx₁.input ++ [ctx.i0, ctx.i1])
    digest := md5Output (md5Transform ctx₁.buf (wordsOf 14 ctx₁.input ++ [ctx.i0, ctx.i1])) },
    ?_, ?_⟩
  · simp only [md5Final, h.mdi_eq]
    rw [heq₁]
    rfl
  · rw [hlast]
    rfl

/-- **The hash sees neither the pieces nor where they lie**: on any context that is set up, any
updates, aligned or not, and then the end give the hash of all bytes together. -/
theorem md5_stream {ctx : Md5Ctx} (hctx : ctx.input.length = 64) (alignedPadding : Bool)
    (inputs : List (Bool × SizedInput 32)) :
    ((inputs.foldlM (fun ctx input => md5Update ctx input.1 input.2.val) (md5Init ctx)).bind
        fun ctx => md5Final ctx alignedPadding).map Md5Ctx.digest
      = some (md5Digest (inputs.flatMap fun input => input.2.val)) := by
  obtain ⟨ctx₁, heq₁, hholds⟩ := (init_holds hctx).updates inputs
  obtain ⟨ctx₂, heq₂, hdigest⟩ := hholds.final alignedPadding
  rw [heq₁, Option.bind_some, heq₂, Option.map_some, hdigest]
  rfl

theorem md5_stream_abc :
    (([(true, ⟨[0x61], by decide⟩), (false, ⟨[0x62, 0x63], by decide⟩)].foldlM
        (fun ctx (input : Bool × SizedInput 32) => md5Update ctx input.1 input.2.val)
          (md5Init ⟨0, 0, ⟨0, 0, 0, 0⟩, List.replicate 64 0, []⟩)).bind
        fun ctx => md5Final ctx true).map Md5Ctx.digest = some (md5Digest [0x61, 0x62, 0x63]) :=
  @md5_stream ⟨0, 0, ⟨0, 0, 0, 0⟩, List.replicate 64 0, []⟩ List.length_replicate true
    [(true, ⟨[0x61], by decide⟩), (false, ⟨[0x62, 0x63], by decide⟩)]

/-- The same in one call, on the context that is left from the last one. -/
theorem md5_eq {ctx : Md5Ctx} (hctx : ctx.input.length = 64) (alignedPadding aligned : Bool)
    {buf : List UInt8} (hbuf : buf.length < 2 ^ 32) :
    (md5 ctx alignedPadding aligned buf).map Md5Ctx.digest = some (md5Digest buf) := by
  obtain ⟨ctx₁, heq₁, hholds⟩ := (init_holds hctx).update aligned hbuf
  obtain ⟨ctx₂, heq₂, hdigest⟩ := hholds.final alignedPadding
  rw [md5, heq₁, Option.bind_eq_bind, Option.bind_some, heq₂, Option.map_some, hdigest]
  rfl

end CCode.Digest.Md5
