import CCode.Aes.Field
import CCode.Lib.Bytes

/-!
# AES on single blocks

`aes.c` with tables, on bytes. A round of the encryption substitutes, shifts and mixes in one step
that works on a copy; the last round works in place, with one variable for each cycle of a row. The
decryption goes the way back with the same round keys from the last to the first.

## Main definitions

* `shiftSubRows`, `mixSubColumns`, `invShiftSubRows`, `invMixSubColumns` — the steps of the source.
* `aesEncrypt`, `aesDecrypt` — a block.
* `aesCbcEncrypt`, `aesCbcDecrypt` — a number of blocks.

## Main results

* `aesEncrypt_eq_some_iff` — encryption and decryption undo each other, whatever the round keys.
* `cbc_round_trip` — so do the chained ones, in whatever calls.
-/

namespace CCode.Aes

open CCode.Lib

/-! ## The functions of the source -/

/-- `N_BLOCK` bytes. -/
abbrev Block := Vector UInt8 16

/-- `st[i] = v`. -/
def Block.put (st : Block) (i : Fin 16) (v : UInt8) : Block := st.setIfInBounds i v

/-- `st[i] = box(st[j])`. -/
def Block.subst (box : UInt8 → UInt8) (st : Block) (i j : Fin 16) : Block :=
  st.put i (box (st.get j))

/-- `xor_block`: the new value of `d`. -/
def xorBlock (d s : Block) : Block := Vector.ofFn fun i => d.get i ^^^ s.get i

/-- `copy_and_key`: what it writes to `d`. -/
def copyAndKey (s k : Block) : Block := Vector.ofFn fun i => s.get i ^^^ k.get i

/-- `add_round_key`. -/
def addRoundKey (d k : Block) : Block := xorBlock d k

/-- `shift_sub_rows`. -/
def shiftSubRows (st : Block) : Block :=
  let st := st.subst sBox 0 0
  let st := st.subst sBox 4 4
  let st := st.subst sBox 8 8
  let st := st.subst sBox 12 12
  let tt := st.get 1
  let st := st.subst sBox 1 5
  let st := st.subst sBox 5 9
  let st := st.subst sBox 9 13
  let st := st.put 13 (sBox tt)
  let tt := st.get 2
  let st := st.subst sBox 2 10
  let st := st.put 10 (sBox tt)
  let tt := st.get 6
  let st := st.subst sBox 6 14
  let st := st.put 14 (sBox tt)
  let tt := st.get 15
  let st := st.subst sBox 15 11
  let st := st.subst sBox 11 7
  let st := st.subst sBox 7 3
  st.put 3 (sBox tt)

/-- `inv_shift_sub_rows`. -/
def invShiftSubRows (st : Block) : Block :=
  let st := st.subst isBox 0 0
  let st := st.subst isBox 4 4
  let st := st.subst isBox 8 8
  let st := st.subst isBox 12 12
  let tt := st.get 13
  let st := st.subst isBox 13 9
  let st := st.subst isBox 9 5
  let st := st.subst isBox 5 1
  let st := st.put 1 (isBox tt)
  let tt := st.get 2
  let st := st.subst isBox 2 10
  let st := st.put 10 (isBox tt)
  let tt := st.get 6
  let st := st.subst isBox 6 14
  let st := st.put 14 (isBox tt)
  let tt := st.get 3
  let st := st.subst isBox 3 7
  let st := st.subst isBox 7 11
  let st := st.subst isBox 11 15
  st.put 15 (isBox tt)

/-- `mix_sub_columns`, from the copy `st`. -/
def mixSubColumns (st : Block) : Block :=
  #v[gfm2Sb (st.get 0) ^^^ gfm3Sb (st.get 5) ^^^ sBox (st.get 10) ^^^ sBox (st.get 15),
     sBox (st.get 0) ^^^ gfm2Sb (st.get 5) ^^^ gfm3Sb (st.get 10) ^^^ sBox (st.get 15),
     sBox (st.get 0) ^^^ sBox (st.get 5) ^^^ gfm2Sb (st.get 10) ^^^ gfm3Sb (st.get 15),
     gfm3Sb (st.get 0) ^^^ sBox (st.get 5) ^^^ sBox (st.get 10) ^^^ gfm2Sb (st.get 15),
     gfm2Sb (st.get 4) ^^^ gfm3Sb (st.get 9) ^^^ sBox (st.get 14) ^^^ sBox (st.get 3),
     sBox (st.get 4) ^^^ gfm2Sb (st.get 9) ^^^ gfm3Sb (st.get 14) ^^^ sBox (st.get 3),
     sBox (st.get 4) ^^^ sBox (st.get 9) ^^^ gfm2Sb (st.get 14) ^^^ gfm3Sb (st.get 3),
     gfm3Sb (st.get 4) ^^^ sBox (st.get 9) ^^^ sBox (st.get 14) ^^^ gfm2Sb (st.get 3),
     gfm2Sb (st.get 8) ^^^ gfm3Sb (st.get 13) ^^^ sBox (st.get 2) ^^^ sBox (st.get 7),
     sBox (st.get 8) ^^^ gfm2Sb (st.get 13) ^^^ gfm3Sb (st.get 2) ^^^ sBox (st.get 7),
     sBox (st.get 8) ^^^ sBox (st.get 13) ^^^ gfm2Sb (st.get 2) ^^^ gfm3Sb (st.get 7),
     gfm3Sb (st.get 8) ^^^ sBox (st.get 13) ^^^ sBox (st.get 2) ^^^ gfm2Sb (st.get 7),
     gfm2Sb (st.get 12) ^^^ gfm3Sb (st.get 1) ^^^ sBox (st.get 6) ^^^ sBox (st.get 11),
     sBox (st.get 12) ^^^ gfm2Sb (st.get 1) ^^^ gfm3Sb (st.get 6) ^^^ sBox (st.get 11),
     sBox (st.get 12) ^^^ sBox (st.get 1) ^^^ gfm2Sb (st.get 6) ^^^ gfm3Sb (st.get 11),
     gfm3Sb (st.get 12) ^^^ sBox (st.get 1) ^^^ sBox (st.get 6) ^^^ gfm2Sb (st.get 11)]

/-- `inv_mix_sub_columns`, from the copy `st`. -/
def invMixSubColumns (st : Block) : Block :=
  #v[isBox (gfmE (st.get 0) ^^^ gfmB (st.get 1) ^^^ gfmD (st.get 2) ^^^ gfm9 (st.get 3)),
     isBox (gfm9 (st.get 12) ^^^ gfmE (st.get 13) ^^^ gfmB (st.get 14) ^^^ gfmD (st.get 15)),
     isBox (gfmD (st.get 8) ^^^ gfm9 (st.get 9) ^^^ gfmE (st.get 10) ^^^ gfmB (st.get 11)),
     isBox (gfmB (st.get 4) ^^^ gfmD (st.get 5) ^^^ gfm9 (st.get 6) ^^^ gfmE (st.get 7)),
     isBox (gfmE (st.get 4) ^^^ gfmB (st.get 5) ^^^ gfmD (st.get 6) ^^^ gfm9 (st.get 7)),
     isBox (gfm9 (st.get 0) ^^^ gfmE (st.get 1) ^^^ gfmB (st.get 2) ^^^ gfmD (st.get 3)),
     isBox (gfmD (st.get 12) ^^^ gfm9 (st.get 13) ^^^ gfmE (st.get 14) ^^^ gfmB (st.get 15)),
     isBox (gfmB (st.get 8) ^^^ gfmD (st.get 9) ^^^ gfm9 (st.get 10) ^^^ gfmE (st.get 11)),
     isBox (gfmE (st.get 8) ^^^ gfmB (st.get 9) ^^^ gfmD (st.get 10) ^^^ gfm9 (st.get 11)),
     isBox (gfm9 (st.get 4) ^^^ gfmE (st.get 5) ^^^ gfmB (st.get 6) ^^^ gfmD (st.get 7)),
     isBox (gfmD (st.get 0) ^^^ gfm9 (st.get 1) ^^^ gfmE (st.get 2) ^^^ gfmB (st.get 3)),
     isBox (gfmB (st.get 12) ^^^ gfmD (st.get 13) ^^^ gfm9 (st.get 14) ^^^ gfmE (st.get 15)),
     isBox (gfmE (st.get 12) ^^^ gfmB (st.get 13) ^^^ gfmD (st.get 14) ^^^ gfm9 (st.get 15)),
     isBox (gfm9 (st.get 8) ^^^ gfmE (st.get 9) ^^^ gfmB (st.get 10) ^^^ gfmD (st.get 11)),
     isBox (gfmD (st.get 4) ^^^ gfm9 (st.get 5) ^^^ gfmE (st.get 6) ^^^ gfmB (st.get 7)),
     isBox (gfmB (st.get 0) ^^^ gfmD (st.get 1) ^^^ gfm9 (st.get 2) ^^^ gfmE (st.get 3))]

/-- `aes_context`; its 240 bytes of round keys are seen from their start. -/
structure AesContext where
  ksch : Mem
  rnd : UInt8

/-- The sixteen bytes at an offset. -/
def blockAt (m : Mem) (p : ℕ) : Block := Vector.ofFn fun i => m (p + i)

/-- `ctx->ksch + r * N_BLOCK`. -/
def AesContext.roundKey (ctx : AesContext) (r : ℕ) : Block := blockAt ctx.ksch (r * 16)

/-- The state behind round `r` of the encryption. -/
def encryptRounds (ctx : AesContext) (s1 : Block) : ℕ → Block
  | 0 => s1
  | r + 1 => addRoundKey (mixSubColumns (encryptRounds ctx s1 r)) (ctx.roundKey (r + 1))

/-- `aes_encrypt`: what is written to `out`, or `none` where it returns -1. -/
def aesEncrypt (inp : Block) (ctx : AesContext) : Option Block :=
  if ctx.rnd ≠ 0 then
    let s1 := copyAndKey inp (ctx.roundKey 0)
    let s1 := encryptRounds ctx s1 (ctx.rnd.toNat - 1)
    let s1 := shiftSubRows s1
    some (copyAndKey s1 (ctx.roundKey ctx.rnd.toNat))
  else none

/-- The rounds of the decryption from round `r` down. -/
def decryptRounds (ctx : AesContext) : ℕ → Block → Block
  | 0, s1 => s1
  | r + 1, s1 =>
      decryptRounds ctx r (invMixSubColumns (addRoundKey s1 (ctx.roundKey (r + 1))))

/-- `aes_decrypt`. -/
def aesDecrypt (inp : Block) (ctx : AesContext) : Option Block :=
  if ctx.rnd ≠ 0 then
    let s1 := copyAndKey inp (ctx.roundKey ctx.rnd.toNat)
    let s1 := invShiftSubRows s1
    let s1 := decryptRounds ctx (ctx.rnd.toNat - 1) s1
    some (copyAndKey s1 (ctx.roundKey 0))
  else none

/-- `aes_cbc_encrypt`, on the blocks at `in`: those at `out`, and the new `iv`. -/
def aesCbcEncrypt (ctx : AesContext) : List Block → Block → Option (List Block × Block)
  | [], iv => some ([], iv)
  | inp :: blocks, iv => do
      let iv ← aesEncrypt (xorBlock iv inp) ctx
      let (out, last) ← aesCbcEncrypt ctx blocks iv
      some (iv :: out, last)

/-- `aes_cbc_decrypt`. -/
def aesCbcDecrypt (ctx : AesContext) : List Block → Block → Option (List Block × Block)
  | [], iv => some ([], iv)
  | inp :: blocks, iv => do
      let out ← aesDecrypt inp ctx
      let (rest, last) ← aesCbcDecrypt ctx blocks inp
      some (xorBlock out iv :: rest, last)

/-! ## Bytes of a block -/

/-- Blocks that have the same bytes. -/
theorem Block.ext_get {a b : Block} (h : ∀ i, a.get i = b.get i) : a = b := by
  apply Vector.ext
  intro i hi
  exact h ⟨i, hi⟩

@[simp] theorem Block.get_put (st : Block) (i j : Fin 16) (v : UInt8) :
    (st.put i v).get j = if j = i then v else st.get j := by
  have hget : (st.put i v).get j = (st.setIfInBounds i v)[j.val] := rfl
  rw [hget, Vector.getElem_setIfInBounds]
  by_cases h : j = i
  · rw [if_pos h, if_pos (by rw [h])]
  · rw [if_neg h, if_neg (fun h' => h (Fin.ext h'.symm))]
    rfl

@[simp] theorem Block.get_subst (box : UInt8 → UInt8) (st : Block) (i j k : Fin 16) :
    (st.subst box i j).get k = if k = i then box (st.get j) else st.get k :=
  Block.get_put st i k _

theorem get_ofFn (f : Fin 16 → UInt8) (i : Fin 16) : (Vector.ofFn f).get i = f i :=
  Vector.getElem_ofFn i.isLt

@[simp] theorem get_xorBlock (d s : Block) (i : Fin 16) :
    (xorBlock d s).get i = d.get i ^^^ s.get i :=
  get_ofFn _ i

/-! ## The steps -/

/-- Where a byte comes from: each row moves by as many places as its number says. -/
def shiftIndex (i : Fin 16) : Fin 16 := i + 4 * (i % 4)

/-- Where a byte goes to. -/
def unshiftIndex (i : Fin 16) : Fin 16 := i + 12 * (i % 4)

/-- The byte below one in its column. -/
def below (i : Fin 16) : Fin 16 := i / 4 * 4 + (i + 1) % 4

theorem shift_unshift : ∀ i, shiftIndex (unshiftIndex i) = i := by decide
theorem unshift_shift : ∀ i, unshiftIndex (shiftIndex i) = i := by decide
theorem below_four : ∀ i, below (below (below (below i))) = i := by decide

theorem get_shiftSubRows (st : Block) (i : Fin 16) :
    (shiftSubRows st).get i = sBox (st.get (shiftIndex i)) := by
  fin_cases i <;> simp [shiftSubRows, shiftIndex]

theorem get_invShiftSubRows (st : Block) (i : Fin 16) :
    (invShiftSubRows st).get i = isBox (st.get (unshiftIndex i)) := by
  fin_cases i <;> simp [invShiftSubRows, unshiftIndex]

/-- One byte of a mixed column, and of an unmixed one. -/
def mix (a b c d : UInt8) : UInt8 := mul2 a ^^^ mul3 b ^^^ c ^^^ d
def unmix (a b c d : UInt8) : UInt8 := gfmE a ^^^ gfmB b ^^^ gfmD c ^^^ gfm9 d

theorem mix_row₀ (a b c d : UInt8) : mul2 a ^^^ mul3 b ^^^ c ^^^ d = mix a b c d := rfl

theorem mix_row₁ (a b c d : UInt8) : a ^^^ mul2 b ^^^ mul3 c ^^^ d = mix b c d a := by
  rw [mix]
  ac_rfl

theorem mix_row₂ (a b c d : UInt8) : a ^^^ b ^^^ mul2 c ^^^ mul3 d = mix c d a b := by
  rw [mix]
  ac_rfl

theorem mix_row₃ (a b c d : UInt8) : mul3 a ^^^ b ^^^ c ^^^ mul2 d = mix d a b c := by
  rw [mix]
  ac_rfl

theorem unmix_row₀ (a b c d : UInt8) :
    gfmE a ^^^ gfmB b ^^^ gfmD c ^^^ gfm9 d = unmix a b c d := rfl

theorem unmix_row₁ (a b c d : UInt8) :
    gfm9 a ^^^ gfmE b ^^^ gfmB c ^^^ gfmD d = unmix b c d a := by
  rw [unmix]
  ac_rfl

theorem unmix_row₂ (a b c d : UInt8) :
    gfmD a ^^^ gfm9 b ^^^ gfmE c ^^^ gfmB d = unmix c d a b := by
  rw [unmix]
  ac_rfl

theorem unmix_row₃ (a b c d : UInt8) :
    gfmB a ^^^ gfmD b ^^^ gfm9 c ^^^ gfmE d = unmix d a b c := by
  rw [unmix]
  ac_rfl

/-- **A mixed byte**, from the bytes of its column after the shift. -/
theorem get_mixSubColumns (st : Block) (i : Fin 16) :
    (mixSubColumns st).get i
      = mix (sBox (st.get (shiftIndex i))) (sBox (st.get (shiftIndex (below i))))
          (sBox (st.get (shiftIndex (below (below i)))))
          (sBox (st.get (shiftIndex (below (below (below i)))))) := by
  simp only [mixSubColumns, gfm2Sb_eq, gfm3Sb_eq, mix_row₀, mix_row₁, mix_row₂, mix_row₃]
  fin_cases i <;> rfl

/-- **An unmixed byte**, in the place that it goes to. -/
theorem get_invMixSubColumns (st : Block) (i : Fin 16) :
    (invMixSubColumns st).get (shiftIndex i)
      = isBox (unmix (st.get i) (st.get (below i)) (st.get (below (below i)))
          (st.get (below (below (below i))))) := by
  simp only [invMixSubColumns, unmix_row₀, unmix_row₁, unmix_row₂, unmix_row₃]
  fin_cases i <;> rfl

theorem unmix_mix_rows (a b c d : UInt8) :
    unmix (mix a b c d) (mix b c d a) (mix c d a b) (mix d a b c) = a := by
  have h := unmix_mix a b c d
  rwa [mix_row₀, mix_row₁, mix_row₂, mix_row₃] at h

theorem mix_unmix_rows (a b c d : UInt8) :
    mix (unmix a b c d) (unmix b c d a) (unmix c d a b) (unmix d a b c) = a := by
  have h := mix_unmix a b c d
  rwa [unmix_row₀, unmix_row₁, unmix_row₂, unmix_row₃] at h

theorem invMixSubColumns_mixSubColumns (st : Block) : invMixSubColumns (mixSubColumns st) = st := by
  apply Block.ext_get
  intro i
  rw [← shift_unshift i, get_invMixSubColumns]
  simp only [get_mixSubColumns, below_four]
  rw [unmix_mix_rows, isBox_sBox]

theorem mixSubColumns_invMixSubColumns (st : Block) : mixSubColumns (invMixSubColumns st) = st := by
  apply Block.ext_get
  intro i
  simp only [get_mixSubColumns, get_invMixSubColumns, sBox_isBox, below_four]
  exact mix_unmix_rows _ _ _ _

theorem invShiftSubRows_shiftSubRows (st : Block) : invShiftSubRows (shiftSubRows st) = st := by
  apply Block.ext_get
  intro i
  rw [get_invShiftSubRows, get_shiftSubRows, isBox_sBox, shift_unshift]

theorem shiftSubRows_invShiftSubRows (st : Block) : shiftSubRows (invShiftSubRows st) = st := by
  apply Block.ext_get
  intro i
  rw [get_shiftSubRows, get_invShiftSubRows, sBox_isBox, unshift_shift]

/-! ## Blocks -/

theorem xorBlock_xorBlock (d k : Block) : xorBlock (xorBlock d k) k = d := by
  apply Block.ext_get
  intro i
  rw [get_xorBlock, get_xorBlock, UInt8.xor_assoc, UInt8.xor_self, UInt8.xor_zero]

theorem copyAndKey_eq (s k : Block) : copyAndKey s k = xorBlock s k := rfl

/-- The rounds of the decryption undo those of the encryption. -/
theorem decryptRounds_encryptRounds (ctx : AesContext) (s1 : Block) (r : ℕ) :
    decryptRounds ctx r (encryptRounds ctx s1 r) = s1 := by
  induction r with
  | zero => rfl
  | succ r ih =>
      rw [decryptRounds, encryptRounds, addRoundKey, addRoundKey, xorBlock_xorBlock,
        invMixSubColumns_mixSubColumns, ih]

/-- And the other way round. -/
theorem encryptRounds_decryptRounds (ctx : AesContext) (s1 : Block) (r : ℕ) :
    encryptRounds ctx (decryptRounds ctx r s1) r = s1 := by
  induction r generalizing s1 with
  | zero => rfl
  | succ r ih =>
      rw [decryptRounds, encryptRounds, ih, mixSubColumns_invMixSubColumns, addRoundKey,
        addRoundKey, xorBlock_xorBlock]

/-- **A block that is encrypted is decrypted again**, whatever the round keys. -/
theorem aesDecrypt_of_aesEncrypt {ctx : AesContext} {inp out : Block}
    (h : aesEncrypt inp ctx = some out) : aesDecrypt out ctx = some inp := by
  rw [aesEncrypt] at h
  split at h
  · rename_i hrnd
    have hout := Option.some.inj h
    rw [aesDecrypt, if_pos hrnd, ← hout]
    simp only [copyAndKey_eq, xorBlock_xorBlock, invShiftSubRows_shiftSubRows,
      decryptRounds_encryptRounds]
  · cases h

theorem aesEncrypt_of_aesDecrypt {ctx : AesContext} {inp out : Block}
    (h : aesDecrypt inp ctx = some out) : aesEncrypt out ctx = some inp := by
  rw [aesDecrypt] at h
  split at h
  · rename_i hrnd
    have hout := Option.some.inj h
    rw [aesEncrypt, if_pos hrnd, ← hout]
    simp only [copyAndKey_eq, xorBlock_xorBlock, shiftSubRows_invShiftSubRows,
      encryptRounds_decryptRounds]
  · cases h

/-- Each block undoes the other. -/
theorem aesEncrypt_eq_some_iff {ctx : AesContext} {inp out : Block} :
    aesEncrypt inp ctx = some out ↔ aesDecrypt out ctx = some inp :=
  ⟨aesDecrypt_of_aesEncrypt, aesEncrypt_of_aesDecrypt⟩

/-- A call fails only without rounds. -/
theorem aesEncrypt_isSome_iff {ctx : AesContext} {inp : Block} :
    (aesEncrypt inp ctx).isSome ↔ ctx.rnd ≠ 0 := by
  rw [aesEncrypt]
  split <;> simp [*]

theorem xorBlock_comm (a b : Block) : xorBlock a b = xorBlock b a := by
  apply Block.ext_get
  intro i
  rw [get_xorBlock, get_xorBlock, UInt8.xor_comm]

/-- **Chained blocks come back**, and both sides end with the same vector. -/
theorem aesCbcDecrypt_of_aesCbcEncrypt {ctx : AesContext} {inp out : List Block} {iv last : Block}
    (h : aesCbcEncrypt ctx inp iv = some (out, last)) :
    aesCbcDecrypt ctx out iv = some (inp, last) := by
  induction inp generalizing iv out last with
  | nil =>
      rw [aesCbcEncrypt, Option.some.injEq, Prod.mk.injEq] at h
      rw [← h.1, ← h.2]
      rfl
  | cons b inp ih =>
      rw [aesCbcEncrypt] at h
      obtain ⟨c, hc, h⟩ := Option.bind_eq_some_iff.mp h
      obtain ⟨⟨rest, last'⟩, hrest, h⟩ := Option.bind_eq_some_iff.mp h
      rw [Option.some.injEq, Prod.mk.injEq] at h
      rw [← h.1, ← h.2, aesCbcDecrypt, aesDecrypt_of_aesEncrypt hc, ih hrest]
      simp only [Option.bind_eq_bind, Option.bind_some]
      rw [xorBlock_comm iv b, xorBlock_xorBlock]

theorem aesCbcEncrypt_of_aesCbcDecrypt {ctx : AesContext} {inp out : List Block}
    {iv last : Block} (h : aesCbcDecrypt ctx inp iv = some (out, last)) :
    aesCbcEncrypt ctx out iv = some (inp, last) := by
  induction inp generalizing iv out last with
  | nil =>
      rw [aesCbcDecrypt, Option.some.injEq, Prod.mk.injEq] at h
      rw [← h.1, ← h.2]
      rfl
  | cons b inp ih =>
      rw [aesCbcDecrypt] at h
      obtain ⟨c, hc, h⟩ := Option.bind_eq_some_iff.mp h
      obtain ⟨⟨rest, last'⟩, hrest, h⟩ := Option.bind_eq_some_iff.mp h
      rw [Option.some.injEq, Prod.mk.injEq] at h
      rw [← h.1, ← h.2, aesCbcEncrypt, xorBlock_comm iv, xorBlock_xorBlock,
        aesEncrypt_of_aesDecrypt hc, Option.bind_eq_bind, Option.bind_some, ih hrest]
      rfl

/-- Chained blocks fail only without rounds. -/
theorem aesCbcEncrypt_isSome_iff {ctx : AesContext} {inp : List Block} {iv : Block} :
    (aesCbcEncrypt ctx inp iv).isSome ↔ inp = [] ∨ ctx.rnd ≠ 0 := by
  induction inp generalizing iv with
  | nil => simp [aesCbcEncrypt]
  | cons b inp ih =>
      rw [aesCbcEncrypt]
      cases hc : aesEncrypt (xorBlock iv b) ctx with
      | none =>
          have hrnd := mt aesEncrypt_isSome_iff.mpr (by rw [hc]; simp)
          simpa using hrnd
      | some c =>
          have hrnd := aesEncrypt_isSome_iff.mp (by rw [hc]; rfl)
          obtain ⟨x, hx⟩ := Option.isSome_iff_exists.mp (@ih c |>.mpr (.inr hrnd))
          simp [hx, hrnd]

/-! ## Calls -/

/-- Calls one after the other, each with the vector that the last one left; what they have written
together. -/
def calls (f : List Block → Block → Option (List Block × Block)) :
    List (List Block) → Block → Option (List Block × Block)
  | [], iv => some ([], iv)
  | inp :: inps, iv =>
      (f inp iv).bind fun x => (calls f inps x.2).map fun y => (x.1 ++ y.1, y.2)

/-- A function of blocks whose calls make one call. -/
theorem calls_eq {f : List Block → Block → Option (List Block × Block)}
    (hnil : ∀ iv, f [] iv = some ([], iv))
    (happend : ∀ first second iv, f (first ++ second) iv =
      (f first iv).bind fun x => (f second x.2).map fun y => (x.1 ++ y.1, y.2))
    (inps : List (List Block)) (iv : Block) : calls f inps iv = f inps.flatten iv := by
  induction inps generalizing iv with
  | nil => rw [calls, List.flatten_nil, hnil]
  | cons inp inps ih =>
      simp only [calls, ih, List.flatten_cons, happend]

theorem aesCbcEncrypt_append (ctx : AesContext) (first second : List Block) (iv : Block) :
    aesCbcEncrypt ctx (first ++ second) iv =
      (aesCbcEncrypt ctx first iv).bind fun x =>
        (aesCbcEncrypt ctx second x.2).map fun y => (x.1 ++ y.1, y.2) := by
  induction first generalizing iv with
  | nil => simp [aesCbcEncrypt]
  | cons b first ih =>
      simp only [List.cons_append, aesCbcEncrypt, ih, Option.bind_eq_bind, Option.map_eq_bind,
        Option.bind_assoc, Option.bind_some, Function.comp_def]

theorem aesCbcDecrypt_append (ctx : AesContext) (first second : List Block) (iv : Block) :
    aesCbcDecrypt ctx (first ++ second) iv =
      (aesCbcDecrypt ctx first iv).bind fun x =>
        (aesCbcDecrypt ctx second x.2).map fun y => (x.1 ++ y.1, y.2) := by
  induction first generalizing iv with
  | nil => simp [aesCbcDecrypt]
  | cons b first ih =>
      simp only [List.cons_append, aesCbcDecrypt, ih, Option.bind_eq_bind, Option.map_eq_bind,
        Option.bind_assoc, Option.bind_some, Function.comp_def]

/-- **Chained blocks come back**, in whatever calls they are encrypted and decrypted, and both sides
end with the same vector; only a context without rounds makes a call fail. -/
theorem cbc_round_trip (ctx : AesContext) (inps outs : List (List Block)) (iv last : Block) :
    (calls (aesCbcEncrypt ctx) inps iv = some (outs.flatten, last) ↔
      calls (aesCbcDecrypt ctx) outs iv = some (inps.flatten, last)) ∧
    ((calls (aesCbcEncrypt ctx) inps iv).isSome ↔ inps.flatten = [] ∨ ctx.rnd ≠ 0) := by
  rw [calls_eq (fun iv => rfl) (aesCbcEncrypt_append ctx),
    calls_eq (fun iv => rfl) (aesCbcDecrypt_append ctx)]
  exact ⟨⟨aesCbcDecrypt_of_aesCbcEncrypt, aesCbcEncrypt_of_aesCbcDecrypt⟩,
    aesCbcEncrypt_isSome_iff⟩

end CCode.Aes
