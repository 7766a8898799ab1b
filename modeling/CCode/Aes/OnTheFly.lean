import CCode.Aes.Keys

/-!
# Round keys on the fly

These functions keep only one key and change it in place from round to round, forwards when they
encrypt and backwards when they decrypt; the last key of the one is the first of the other. An
update adds words to words by an exclusive or, and such a step undoes itself as long as it does not
change the word that it adds. Forwards the key is a window that moves over the schedule.

## Main definitions

* `updateEncryptKey128`, `updateDecryptKey128` and the same for 256 bits — one step of the key.
* `aesEncrypt128`, `aesDecrypt128`, `aesEncrypt256`, `aesDecrypt256` — a block.
* `OtfKey.Window` — a key that is a part of the schedule.

## Main results

* `updateDecryptKey128_updateEncryptKey128` and the same for 256 bits — back and forth.
* `OtfKey.Window.updateKey` — an update moves the window.
* `otf128`, `otf256` — on the fly is as with the schedule, and the key comes back.
-/

namespace CCode.Aes

open CCode.Lib

/-! ## The functions of the source -/

/-- `rc = d2(rc)`. -/
def prevRc (rc : UInt8) : UInt8 := UInt8.ofNat (d2 rc.toNat)

/-- A key that is updated in place, and the constant of its next update. -/
structure OtfKey where
  k : Mem
  rc : UInt8

/-- `k[c + b] ^= t[b]` for the bytes of a word. -/
def OtfKey.xorAt (s : OtfKey) (c : ℕ) (t : List UInt8) : OtfKey :=
  { s with k := s.k.write c (List.zipWith (fun a b => a ^^^ b) (s.k.read c 4) t) }

/-- `s_box` of the word at `p`, the first byte last, with `*rc`. -/
def OtfKey.rotSub (s : OtfKey) (p : ℕ) : List UInt8 :=
  [sBox (s.k (p + 1)) ^^^ s.rc, sBox (s.k (p + 2)), sBox (s.k (p + 3)), sBox (s.k p)]

/-- `s_box` of the word at `p`. -/
def OtfKey.subWord (s : OtfKey) (p : ℕ) : List UInt8 :=
  [sBox (s.k p), sBox (s.k (p + 1)), sBox (s.k (p + 2)), sBox (s.k (p + 3))]

/-- The body of the loops: `k[cc + b] ^= k[cc - 4 + b]`. -/
def OtfKey.xorPrev (s : OtfKey) (cc : ℕ) : OtfKey := s.xorAt cc (s.k.read (cc - 4) 4)

/-- `update_encrypt_key_128`. -/
def updateEncryptKey128 (s : OtfKey) : OtfKey :=
  let s := s.xorAt 0 (s.rotSub 12)
  let s := { s with rc := nextRc s.rc }
  [4, 8, 12].foldl OtfKey.xorPrev s

/-- `update_decrypt_key_128`. -/
def updateDecryptKey128 (s : OtfKey) : OtfKey :=
  let s := [12, 8, 4].foldl OtfKey.xorPrev s
  let s := { s with rc := prevRc s.rc }
  s.xorAt 0 (s.rotSub 12)

/-- `update_encrypt_key_256`. -/
def updateEncryptKey256 (s : OtfKey) : OtfKey :=
  let s := s.xorAt 0 (s.rotSub 28)
  let s := { s with rc := nextRc s.rc }
  let s := [4, 8, 12].foldl OtfKey.xorPrev s
  let s := s.xorAt 16 (s.subWord 12)
  [20, 24, 28].foldl OtfKey.xorPrev s

/-- `update_decrypt_key_256`. -/
def updateDecryptKey256 (s : OtfKey) : OtfKey :=
  let s := [28, 24, 20].foldl OtfKey.xorPrev s
  let s := s.xorAt 16 (s.subWord 12)
  let s := [12, 8, 4].foldl OtfKey.xorPrev s
  let s := { s with rc := prevRc s.rc }
  s.xorAt 0 (s.rotSub 28)

/-- The state behind round `r` of `aes_encrypt_128`: `s1`, and `o_key` with `rc`. -/
def encryptRounds128 (s : Block × OtfKey) : ℕ → Block × OtfKey
  | 0 => s
  | r + 1 =>
      let (s1, key) := encryptRounds128 s r
      let s1 := mixSubColumns s1
      let key := updateEncryptKey128 key
      (addRoundKey s1 (blockAt key.k 0), key)

/-- `aes_encrypt_128`: what is written to `out`, and `o_key`. Where `o_key` is `key`, the copy is of
a key to itself. -/
def aesEncrypt128 (inp : Block) (key oKey : Mem) : Block × Mem :=
  let oKey := oKey.write 0 (key.read 0 16)
  let s1 := copyAndKey inp (blockAt oKey 0)
  let (s1, key) := encryptRounds128 (s1, { k := oKey, rc := 1 }) 9
  let s1 := shiftSubRows s1
  let key := updateEncryptKey128 key
  (copyAndKey s1 (blockAt key.k 0), key.k)

/-- The rounds of `aes_decrypt_128` from round `r` down. -/
def decryptRounds128 : ℕ → Block × OtfKey → Block × OtfKey
  | 0, s => s
  | r + 1, (s1, key) =>
      let key := updateDecryptKey128 key
      let s1 := addRoundKey s1 (blockAt key.k 0)
      decryptRounds128 r (invMixSubColumns s1, key)

/-- `aes_decrypt_128`. -/
def aesDecrypt128 (inp : Block) (key oKey : Mem) : Block × Mem :=
  let oKey := oKey.write 0 (key.read 0 16)
  let s1 := invShiftSubRows (copyAndKey inp (blockAt oKey 0))
  let (s1, key) := decryptRounds128 9 (s1, { k := oKey, rc := 0x6c })
  let key := updateDecryptKey128 key
  (copyAndKey s1 (blockAt key.k 0), key.k)

/-- The state behind round `r` of `aes_encrypt_256`. -/
def encryptRounds256 (s : Block × OtfKey) : ℕ → Block × OtfKey
  | 0 => s
  | r + 1 =>
      let (s1, key) := encryptRounds256 s r
      let s1 := mixSubColumns s1
      if (r + 1) % 2 = 1 then (addRoundKey s1 (blockAt key.k 16), key)
      else
        let key := updateEncryptKey256 key
        (addRoundKey s1 (blockAt key.k 0), key)

/-- `aes_encrypt_256`. -/
def aesEncrypt256 (inp : Block) (key oKey : Mem) : Block × Mem :=
  let oKey := oKey.write 0 (key.read 0 32)
  let s1 := copyAndKey inp (blockAt oKey 0)
  let (s1, key) := encryptRounds256 (s1, { k := oKey, rc := 1 }) 13
  let s1 := shiftSubRows s1
  let key := updateEncryptKey256 key
  (copyAndKey s1 (blockAt key.k 0), key.k)

/-- The rounds of `aes_decrypt_256` from round `r` down. -/
def decryptRounds256 : ℕ → Block × OtfKey → Block × OtfKey
  | 0, s => s
  | r + 1, (s1, key) =>
      if (r + 1) % 2 = 1 then
        let key := updateDecryptKey256 key
        let s1 := addRoundKey s1 (blockAt key.k 16)
        decryptRounds256 r (invMixSubColumns s1, key)
      else
        let s1 := addRoundKey s1 (blockAt key.k 0)
        decryptRounds256 r (invMixSubColumns s1, key)

/-- `aes_decrypt_256`. -/
def aesDecrypt256 (inp : Block) (key oKey : Mem) : Block × Mem :=
  let oKey := oKey.write 0 (key.read 0 32)
  let s1 := invShiftSubRows (copyAndKey inp (blockAt oKey 0))
  let (s1, key) := decryptRounds256 13 (s1, { k := oKey, rc := 0x80 })
  (copyAndKey s1 (blockAt key.k 0), key.k)

/-! ## Steps of a key -/

theorem getD_zipWith_xor {w : List UInt8} (t : List UInt8) (hw : w.length = 4)
    (ht : t.length = 4) {b : ℕ} (hb : b < 4) :
    (List.zipWith (fun a b => a ^^^ b) w t).getD b 0 = w.getD b 0 ^^^ t.getD b 0 := by
  have hin : b < (List.zipWith (fun a b => a ^^^ b) w t).length := by simp [hw, ht, hb]
  rw [List.getD_eq_getElem _ _ hin, List.getElem_zipWith, List.getD_eq_getElem,
    List.getD_eq_getElem]

theorem length_xorWord (k : Mem) (c : ℕ) {t : List UInt8} (ht : t.length = 4) :
    (List.zipWith (fun a b => a ^^^ b) (k.read c 4) t).length = 4 := by
  simp [ht]

/-- A byte of the word that is changed. -/
theorem OtfKey.xorAt_apply (s : OtfKey) (c : ℕ) {t : List UInt8} (ht : t.length = 4) {b : ℕ}
    (hb : b < 4) : (s.xorAt c t).k (c + b) = s.k (c + b) ^^^ t.getD b 0 := by
  have hin : b < (List.zipWith (fun a b => a ^^^ b) (s.k.read c 4) t).length := by
    rw [length_xorWord s.k c ht]
    exact hb
  have hget : (s.xorAt c t).k (c + b)
      = s.k.write c (List.zipWith (fun a b => a ^^^ b) (s.k.read c 4) t) (c + b) := rfl
  rw [hget, Mem.write_apply s.k c b hin, List.getElem_zipWith, Mem.getElem_read,
    List.getD_eq_getElem]

/-- The other bytes. -/
theorem OtfKey.xorAt_frame (s : OtfKey) {c a : ℕ} {t : List UInt8} (ht : t.length = 4)
    (h : a < c ∨ c + 4 ≤ a) : (s.xorAt c t).k a = s.k a := by
  rw [xorAt]
  apply Mem.write_frame
  rwa [length_xorWord s.k c ht]

@[simp] theorem OtfKey.xorAt_rc (s : OtfKey) (c : ℕ) (t : List UInt8) :
    (s.xorAt c t).rc = s.rc := rfl

/-- Other words. -/
theorem OtfKey.read_xorAt (s : OtfKey) {c p : ℕ} {t : List UInt8} (ht : t.length = 4)
    (h : p + 4 ≤ c ∨ c + 4 ≤ p) : (s.xorAt c t).k.read p 4 = s.k.read p 4 := by
  apply Mem.read_congr
  intro a hp ha
  exact s.xorAt_frame ht (by omega)

/-- **A step undoes itself.** -/
theorem OtfKey.xorAt_xorAt (s : OtfKey) (c : ℕ) {t : List UInt8} (ht : t.length = 4) :
    (s.xorAt c t).xorAt c t = s := by
  have hk : ((s.xorAt c t).xorAt c t).k = s.k := by
    funext a
    by_cases hin : a < c ∨ c + 4 ≤ a
    · rw [xorAt_frame _ ht hin, xorAt_frame _ ht hin]
    · obtain ⟨b, rfl⟩ : ∃ b, a = c + b := ⟨a - c, by omega⟩
      rw [xorAt_apply _ c ht (by omega), xorAt_apply _ c ht (by omega), UInt8.xor_assoc,
        UInt8.xor_self, UInt8.xor_zero]
  cases s
  simp only [xorAt] at hk ⊢
  rw [hk]

theorem OtfKey.xorPrev_xorPrev (s : OtfKey) {cc : ℕ} (hcc : 4 ≤ cc) :
    (s.xorPrev cc).xorPrev cc = s := by
  have ht : (s.k.read (cc - 4) 4).length = 4 := Mem.length_read _ _ _
  have hread : (s.xorPrev cc).k.read (cc - 4) 4 = s.k.read (cc - 4) 4 :=
    s.read_xorAt ht (by omega)
  rw [xorPrev, hread]
  exact s.xorAt_xorAt cc ht

theorem OtfKey.rotSub_eq (s : OtfKey) (p : ℕ) :
    s.rotSub p = [sBox ((s.k.read p 4).getD 1 0) ^^^ s.rc, sBox ((s.k.read p 4).getD 2 0),
      sBox ((s.k.read p 4).getD 3 0), sBox ((s.k.read p 4).getD 0 0)] := rfl

theorem OtfKey.subWord_eq (s : OtfKey) (p : ℕ) :
    s.subWord p = [sBox ((s.k.read p 4).getD 0 0), sBox ((s.k.read p 4).getD 1 0),
      sBox ((s.k.read p 4).getD 2 0), sBox ((s.k.read p 4).getD 3 0)] := rfl

theorem OtfKey.rotSub_undo (s : OtfKey) {p : ℕ} (hp : 4 ≤ p) :
    (s.xorAt 0 (s.rotSub p)).xorAt 0 ((s.xorAt 0 (s.rotSub p)).rotSub p) = s := by
  have hsame : (s.xorAt 0 (s.rotSub p)).rotSub p = s.rotSub p := by
    rw [rotSub_eq, s.read_xorAt rfl (by omega), xorAt_rc, ← rotSub_eq]
  rw [hsame]
  exact s.xorAt_xorAt 0 rfl

theorem OtfKey.subWord_undo (s : OtfKey) :
    (s.xorAt 16 (s.subWord 12)).xorAt 16 ((s.xorAt 16 (s.subWord 12)).subWord 12) = s := by
  have hsame : (s.xorAt 16 (s.subWord 12)).subWord 12 = s.subWord 12 := by
    rw [subWord_eq, s.read_xorAt rfl (by omega), ← subWord_eq]
  rw [hsame]
  exact s.xorAt_xorAt 16 rfl

theorem linearNat_d2 : LinearNat d2 := by
  intro m n
  have hbit : ∀ x : ℕ, (if x &&& 1 ≠ 0 then DPOLY else 0) = (x.testBit 0).toNat * DPOLY := by
    intro x
    rw [show (1 : ℕ) = 2 ^ 0 from rfl, Nat.and_two_pow]
    cases x.testBit 0 <;> rfl
  rw [d2, d2, d2, hbit, hbit, hbit, Nat.shiftRight_xor_distrib, xor_four, Nat.testBit_xor]
  cases m.testBit 0 <;> cases n.testBit 0 <;> simp

theorem linear_prevRc : Linear prevRc := linearNat_d2.linear
theorem linear_nextRc : Linear nextRc := linearNat_f2.linear

/-- The constants go the same way back. -/
theorem rc_bits : ∀ i < 8, prevRc (nextRc (bit i)) = bit i ∧ nextRc (prevRc (bit i)) = bit i := by
  decide

theorem prevRc_nextRc (rc : UInt8) : prevRc (nextRc rc) = rc :=
  (linear_prevRc.comp linear_nextRc).ext linear_id (fun i hi => (rc_bits i hi).1) rc

theorem nextRc_prevRc (rc : UInt8) : nextRc (prevRc rc) = rc :=
  (linear_nextRc.comp linear_prevRc).ext linear_id (fun i hi => (rc_bits i hi).2) rc

/-- **A key goes back** by the steps of its update in the other order. -/
theorem updateDecryptKey128_updateEncryptKey128 (s : OtfKey) :
    updateDecryptKey128 (updateEncryptKey128 s) = s := by
  simp only [updateDecryptKey128, updateEncryptKey128, List.foldl_cons, List.foldl_nil]
  rw [OtfKey.xorPrev_xorPrev _ (by omega), OtfKey.xorPrev_xorPrev _ (by omega),
    OtfKey.xorPrev_xorPrev _ (by omega)]
  simp only [prevRc_nextRc]
  exact s.rotSub_undo (by omega)

theorem updateEncryptKey128_updateDecryptKey128 (s : OtfKey) :
    updateEncryptKey128 (updateDecryptKey128 s) = s := by
  simp only [updateDecryptKey128, updateEncryptKey128, List.foldl_cons, List.foldl_nil]
  rw [OtfKey.rotSub_undo _ (by omega)]
  simp only [nextRc_prevRc]
  rw [OtfKey.xorPrev_xorPrev _ (by omega), OtfKey.xorPrev_xorPrev _ (by omega),
    OtfKey.xorPrev_xorPrev _ (by omega)]

theorem updateDecryptKey256_updateEncryptKey256 (s : OtfKey) :
    updateDecryptKey256 (updateEncryptKey256 s) = s := by
  simp only [updateDecryptKey256, updateEncryptKey256, List.foldl_cons, List.foldl_nil]
  rw [OtfKey.xorPrev_xorPrev _ (by omega), OtfKey.xorPrev_xorPrev _ (by omega),
    OtfKey.xorPrev_xorPrev _ (by omega), OtfKey.subWord_undo,
    OtfKey.xorPrev_xorPrev _ (by omega), OtfKey.xorPrev_xorPrev _ (by omega),
    OtfKey.xorPrev_xorPrev _ (by omega)]
  simp only [prevRc_nextRc]
  exact s.rotSub_undo (by omega)

theorem updateEncryptKey256_updateDecryptKey256 (s : OtfKey) :
    updateEncryptKey256 (updateDecryptKey256 s) = s := by
  simp only [updateDecryptKey256, updateEncryptKey256, List.foldl_cons, List.foldl_nil]
  rw [OtfKey.rotSub_undo _ (by omega)]
  simp only [nextRc_prevRc]
  rw [OtfKey.xorPrev_xorPrev _ (by omega), OtfKey.xorPrev_xorPrev _ (by omega),
    OtfKey.xorPrev_xorPrev _ (by omega), OtfKey.subWord_undo,
    OtfKey.xorPrev_xorPrev _ (by omega), OtfKey.xorPrev_xorPrev _ (by omega),
    OtfKey.xorPrev_xorPrev _ (by omega)]
/-! ## Keys that agree -/

/-- Two keys with the same `n` bytes and the same constant. -/
structure OtfKey.Agree (n : ℕ) (s s' : OtfKey) : Prop where
  k : ∀ i < n, s.k i = s'.k i
  rc : s.rc = s'.rc

namespace OtfKey.Agree

variable {n : ℕ} {s s' : OtfKey}

theorem refl (s : OtfKey) : s.Agree n s := ⟨fun _ _ => rfl, rfl⟩

theorem read (h : s.Agree n s') {p : ℕ} (hp : p + 4 ≤ n) : s.k.read p 4 = s'.k.read p 4 := by
  apply Mem.read_congr
  intro a _ ha
  exact h.k a (by omega)

theorem xorAt (h : s.Agree n s') {c : ℕ} {t t' : List UInt8} (ht : t.length = 4) (heq : t = t') :
    (s.xorAt c t).Agree n (s'.xorAt c t') := by
  subst heq
  refine ⟨fun i hi => ?_, h.rc⟩
  by_cases hin : i < c ∨ c + 4 ≤ i
  · rw [xorAt_frame _ ht hin, xorAt_frame _ ht hin, h.k i hi]
  · obtain ⟨b, rfl⟩ : ∃ b, i = c + b := ⟨i - c, by omega⟩
    rw [xorAt_apply _ c ht (by omega), xorAt_apply _ c ht (by omega), h.k _ hi]

theorem xorPrev (h : s.Agree n s') {cc : ℕ} (hcc : 4 ≤ cc) (hn : cc ≤ n) :
    (s.xorPrev cc).Agree n (s'.xorPrev cc) :=
  h.xorAt (Mem.length_read _ _ _) (h.read (by omega))

theorem rotSub (h : s.Agree n s') {p : ℕ} (hp : p + 4 ≤ n) : s.rotSub p = s'.rotSub p := by
  rw [rotSub_eq, h.read hp, h.rc, ← rotSub_eq]

theorem subWord (h : s.Agree n s') {p : ℕ} (hp : p + 4 ≤ n) : s.subWord p = s'.subWord p := by
  rw [subWord_eq, h.read hp, ← subWord_eq]

theorem setRc (h : s.Agree n s') (f : UInt8 → UInt8) :
    OtfKey.Agree n { s with rc := f s.rc } { s' with rc := f s'.rc } :=
  ⟨h.k, congrArg f h.rc⟩

end OtfKey.Agree

theorem updateDecryptKey128_agree {s s' : OtfKey} (h : s.Agree 16 s') :
    (updateDecryptKey128 s).Agree 16 (updateDecryptKey128 s') := by
  have h₁ := h.xorPrev (show 4 ≤ 12 by omega) (by omega)
  have h₂ := h₁.xorPrev (show 4 ≤ 8 by omega) (by omega)
  have h₃ := h₂.xorPrev (show 4 ≤ 4 by omega) (by omega)
  have h₄ := h₃.setRc prevRc
  exact h₄.xorAt rfl (h₄.rotSub (by omega))

theorem updateDecryptKey256_agree {s s' : OtfKey} (h : s.Agree 32 s') :
    (updateDecryptKey256 s).Agree 32 (updateDecryptKey256 s') := by
  have h₁ := h.xorPrev (show 4 ≤ 28 by omega) (by omega)
  have h₂ := h₁.xorPrev (show 4 ≤ 24 by omega) (by omega)
  have h₃ := h₂.xorPrev (show 4 ≤ 20 by omega) (by omega)
  have h₄ := h₃.xorAt (c := 16) rfl (h₃.subWord (p := 12) (by omega))
  have h₅ := h₄.xorPrev (show 4 ≤ 12 by omega) (by omega)
  have h₆ := h₅.xorPrev (show 4 ≤ 8 by omega) (by omega)
  have h₇ := h₆.xorPrev (show 4 ≤ 4 by omega) (by omega)
  have h₈ := h₇.setRc prevRc
  exact h₈.xorAt rfl (h₈.rotSub (by omega))

/-! ## The key on the fly is a window of the schedule -/

/-- One word of an update: the `m`-th of a key of `n` bytes. -/
def updateWord (n : ℕ) (s : OtfKey) (m : ℕ) : OtfKey :=
  let s' := s.xorAt (4 * m)
    (scheduleTemp n (4 * m) s.rc (s.k.read (if m = 0 then n - 4 else 4 * m - 4) 4))
  if m = 0 then { s' with rc := nextRc s'.rc } else s'

theorem updateEncryptKey128_eq (s : OtfKey) :
    updateEncryptKey128 s = (List.range 4).foldl (updateWord 16) s := rfl

theorem updateEncryptKey256_eq (s : OtfKey) :
    updateEncryptKey256 s = (List.range 8).foldl (updateWord 32) s := rfl

/-- A key on the fly that is what the schedule has from byte `n * q` on, up to its end at `hi`. -/
structure OtfKey.Window (n hi : ℕ) (ksch : Mem) (q : ℕ) (s : OtfKey) : Prop where
  k : ∀ i < n, n * q + i < hi → s.k i = ksch (n * q + i)
  rc : s.rc = rcon q

/-- The constant matters only for the first word. -/
theorem scheduleTemp_rc {n m : ℕ} (hm : m ≠ 0) (rc rc' : UInt8) (t : List UInt8) :
    scheduleTemp n m rc t = scheduleTemp n m rc' t := by
  rw [scheduleTemp, scheduleTemp, if_neg hm, if_neg hm]

/-- An update under way: `m` words are those of the next window, the others still old. -/
structure OtfKey.Moving (n hi : ℕ) (ksch : Mem) (q : ℕ) (s s₀ : OtfKey) (m : ℕ) : Prop where
  new : ∀ i < 4 * m, n * (q + 1) + i < hi → s.k i = ksch (n * (q + 1) + i)
  old : ∀ i, 4 * m ≤ i → s.k i = s₀.k i
  rc : s.rc = if m = 0 then rcon q else rcon (q + 1)

section

variable {n hi : ℕ} {ksch : Mem} {q m : ℕ} {s₀ s : OtfKey}

/-- What an update adds to a word is what the schedule adds to it. -/
theorem OtfKey.Moving.temp_eq (hmn : 4 * m < n) (hn4 : 4 ∣ n) (hhi : n * (q + 1) + 4 * m < hi)
    (h₀ : s₀.Window n hi ksch q) (h : s.Moving n hi ksch q s₀ m) :
    scheduleTemp n (4 * m) s.rc (s.k.read (if m = 0 then n - 4 else 4 * m - 4) 4)
      = scheduleTemp n ((n * (q + 1) + 4 * m) % n) (rcon ((n * (q + 1) + 4 * m - 1) / n))
          (ksch.read (n * (q + 1) + 4 * m - 4) 4) := by
  rw [Nat.mul_add_mod, Nat.mod_eq_of_lt hmn]
  by_cases hm : m = 0
  · subst hm
    have hdiv : (n * (q + 1) + 4 * 0 - 1) / n = q := by
      rw [show n * (q + 1) + 4 * 0 - 1 = n * q + (n - 1) by rw [Nat.mul_succ]; omega,
        Nat.mul_add_div (by omega), Nat.div_eq_of_lt (by omega), Nat.add_zero]
    have hread : s.k.read (n - 4) 4 = ksch.read (n * (q + 1) + 4 * 0 - 4) 4 := by
      apply List.ext_getElem (by simp)
      intro b hb hb'
      rw [Mem.length_read] at hb
      rw [Mem.getElem_read, Mem.getElem_read, h.old _ (by omega),
        h₀.k _ (by omega) (by rw [Nat.mul_succ] at hhi; omega)]
      congr 1
      rw [Nat.mul_succ]
      omega
    rw [if_pos rfl, hread, h.rc, if_pos rfl, hdiv]
  · have hread : s.k.read (4 * m - 4) 4 = ksch.read (n * (q + 1) + 4 * m - 4) 4 := by
      apply List.ext_getElem (by simp)
      intro b hb hb'
      rw [Mem.length_read] at hb
      rw [Mem.getElem_read, Mem.getElem_read, h.new _ (by omega) (by omega)]
      congr 1
      omega
    rw [if_neg hm, hread]
    exact scheduleTemp_rc (by omega) _ _ _

theorem updateWord_k (s : OtfKey) (n m : ℕ) :
    (updateWord n s m).k = (s.xorAt (4 * m)
      (scheduleTemp n (4 * m) s.rc (s.k.read (if m = 0 then n - 4 else 4 * m - 4) 4))).k := by
  by_cases hm : m = 0
  · subst hm
    rfl
  · rw [updateWord, if_neg hm]

/-- **One word of an update** is a word of the schedule. -/
theorem OtfKey.Moving.step (hmn : 4 * m < n) (hn4 : 4 ∣ n) (hhi4 : 4 ∣ hi)
    (hword : n * (q + 1) + 4 * m < hi → IsScheduleWord n ksch (n * (q + 1) + 4 * m))
    (h₀ : s₀.Window n hi ksch q) (h : s.Moving n hi ksch q s₀ m) :
    (updateWord n s m).Moving n hi ksch q s₀ (m + 1) := by
  let t := scheduleTemp n (4 * m) s.rc (s.k.read (if m = 0 then n - 4 else 4 * m - 4) 4)
  have ht : t.length = 4 := length_scheduleTemp n (4 * m) s.rc (Mem.length_read _ _ _)
  have hk : (updateWord n s m).k = (s.xorAt (4 * m) t).k := updateWord_k s n m
  refine ⟨?_, ?_, ?_⟩
  · intro i hi₁ hi₂
    rw [hk]
    by_cases hlt : i < 4 * m
    · rw [s.xorAt_frame ht (by omega)]
      exact h.new i hlt hi₂
    · have hb : i - 4 * m < 4 := by omega
      have hdvd : 4 ∣ n * (q + 1) := hn4.mul_right _
      have hc : n * (q + 1) + 4 * m < hi := by omega
      have hsched := hword hc
      rw [IsScheduleWord, ← h.temp_eq hmn hn4 hc h₀] at hsched
      have hbyte := congrArg (fun l : List UInt8 => l.getD (i - 4 * m) 0) hsched
      rw [Mem.getD_read _ _ hb] at hbyte
      replace hbyte := hbyte.trans
        ((getD_zipWith_xor t (Mem.length_read _ _ _) ht hb).trans
          (congrArg (· ^^^ t.getD (i - 4 * m) 0) (Mem.getD_read _ _ hb)))
      have hold : s.k i = ksch (n * (q + 1) + 4 * m - n + (i - 4 * m)) := by
        rw [h.old i (by omega), h₀.k i (by omega) (by rw [Nat.mul_succ] at hi₂; omega)]
        congr 1
        rw [Nat.mul_succ]
        omega
      rw [show i = 4 * m + (i - 4 * m) by omega, s.xorAt_apply _ ht hb,
        show 4 * m + (i - 4 * m) = i by omega, hold, ← hbyte]
      congr 1
      omega
  · intro i hi'
    rw [hk, s.xorAt_frame ht (by omega)]
    exact h.old i (by omega)
  · have hnew : (if m + 1 = 0 then rcon q else rcon (q + 1)) = rcon (q + 1) := if_neg (by omega)
    rw [hnew]
    by_cases hm : m = 0
    · have hrc := h.rc
      rw [if_pos hm] at hrc
      rw [rcon_succ, ← hrc, hm]
      rfl
    · have hrc := h.rc
      rw [if_neg hm] at hrc
      rw [updateWord, if_neg hm, ← hrc]
      rfl

end

/-- An update, word by word. -/
def updateKey (n : ℕ) (s : OtfKey) : OtfKey := (List.range (n / 4)).foldl (updateWord n) s

section

variable {n hi : ℕ} {ksch : Mem} {q : ℕ} {s : OtfKey}

/-- **An update moves the window** by a key. -/
theorem OtfKey.Window.updateKey (hpos : 0 < n) (hn4 : 4 ∣ n) (hhi4 : 4 ∣ hi)
    (hword : ∀ i, n + 4 * i < hi → IsScheduleWord n ksch (n + 4 * i))
    (h : s.Window n hi ksch q) : (updateKey n s).Window n hi ksch (q + 1) := by
  have hmoving : ∀ m, 4 * m ≤ n →
      ((List.range m).foldl (updateWord n) s).Moving n hi ksch q s m := by
    intro m
    induction m with
    | zero =>
        intro _
        exact ⟨fun i hi => absurd hi (by omega), fun _ _ => rfl, h.rc⟩
    | succ m ih =>
        intro hm
        rw [List.range_succ, List.foldl_append]
        refine (ih (by omega)).step (by omega) hn4 hhi4 (fun hc => ?_) h
        obtain ⟨j, hj⟩ : ∃ j, n * (q + 1) + 4 * m = n + 4 * j := by
          obtain ⟨k, hk⟩ := hn4.mul_right q
          exact ⟨k + m, by rw [Nat.mul_succ]; omega⟩
        rw [hj] at hc ⊢
        exact hword j hc
  have hall := hmoving (n / 4) (by omega)
  refine ⟨fun i hlt hin => hall.new i (by omega) hin, ?_⟩
  have hrc := hall.rc
  rwa [if_neg (by omega)] at hrc

theorem OtfKey.Window.iterate (hpos : 0 < n) (hn4 : 4 ∣ n) (hhi4 : 4 ∣ hi)
    (hword : ∀ i, n + 4 * i < hi → IsScheduleWord n ksch (n + 4 * i))
    (h : s.Window n hi ksch 0) (q : ℕ) : ((Aes.updateKey n)^[q] s).Window n hi ksch q := by
  induction q with
  | zero => exact h
  | succ q ih =>
      rw [Function.iterate_succ_apply']
      exact ih.updateKey hpos hn4 hhi4 hword

/-- The block of a window that is a round key. -/
theorem OtfKey.Window.blockAt (h : s.Window n hi ksch q) {p : ℕ} (hp : p + 16 ≤ n)
    (hin : n * q + p + 16 ≤ hi) : Aes.blockAt s.k p = Aes.blockAt ksch (n * q + p) := by
  apply Block.ext_get
  intro i
  rw [Aes.blockAt, Aes.blockAt, get_ofFn, get_ofFn, h.k _ (by omega) (by omega), Nat.add_assoc]

end

/-! ## Rounds with a key on the fly -/

theorem OtfKey.Agree.blockAt {n : ℕ} {s s' : OtfKey} (h : s.Agree n s') {p : ℕ}
    (hp : p + 16 ≤ n) : Aes.blockAt s.k p = Aes.blockAt s'.k p := by
  apply Block.ext_get
  intro i
  rw [Aes.blockAt, Aes.blockAt, get_ofFn, get_ofFn, h.k _ (by omega)]

/-- A key copied to where it is updated. -/
theorem agree_copy {n : ℕ} {key : Mem} {s : OtfKey} (hkey : ∀ i < n, key i = s.k i)
    (oKey : Mem) {rc : UInt8} (hrc : rc = s.rc) :
    OtfKey.Agree n { k := oKey.write 0 (key.read 0 n), rc := rc } s := by
  refine ⟨fun i hi => ?_, hrc⟩
  have hin : i < (key.read 0 n).length := by rwa [Mem.length_read]
  have hcopy := Mem.write_apply oKey 0 i hin
  rw [Nat.zero_add, Mem.getElem_read, Nat.zero_add] at hcopy
  rw [← hkey i hi, ← hcopy]

section

variable {ctx : AesContext} {s : OtfKey}

/-- The keys of the rounds are those of a context. -/
def Keys128 (ctx : AesContext) (s : OtfKey) : Prop :=
  ∀ r ≤ 10, blockAt (updateEncryptKey128^[r] s).k 0 = ctx.roundKey r

theorem encryptRounds128_eq (hkey : Keys128 ctx s) (s1 : Block) :
    ∀ r ≤ 10, encryptRounds128 (s1, s) r
      = (encryptRounds ctx s1 r, updateEncryptKey128^[r] s) := by
  intro r
  induction r with
  | zero => intro _; rfl
  | succ r ih =>
      intro hr
      have hround := hkey (r + 1) hr
      rw [Function.iterate_succ_apply'] at hround
      rw [encryptRounds128, ih (by omega), encryptRounds, ← hround,
        Function.iterate_succ_apply']

/-- **The way back** takes the keys in the other order, and ends with that of the first round. -/
theorem decryptRounds128_eq (hkey : Keys128 ctx s) :
    ∀ r < 10, ∀ s1 t, OtfKey.Agree 16 t (updateEncryptKey128^[r + 1] s) →
      (decryptRounds128 r (s1, t)).1 = decryptRounds ctx r s1 ∧
      OtfKey.Agree 16 (decryptRounds128 r (s1, t)).2 (updateEncryptKey128 s) := by
  intro r
  induction r with
  | zero => exact fun _ s1 t ht => ⟨rfl, ht⟩
  | succ r ih =>
      intro hr s1 t ht
      have hback := updateDecryptKey128_agree ht
      rw [Function.iterate_succ_apply', updateDecryptKey128_updateEncryptKey128] at hback
      have hround := hback.blockAt (p := 0) (by omega)
      rw [hkey (r + 1) (by omega)] at hround
      have hrest := ih (by omega) (invMixSubColumns (addRoundKey s1 (ctx.roundKey (r + 1))))
        (updateDecryptKey128 t) hback
      rw [decryptRounds128, decryptRounds, hround]
      exact hrest

theorem aesEncrypt128_eq (hrnd : ctx.rnd = 10) {key oKey : Mem}
    (hkey : Keys128 ctx { k := oKey.write 0 (key.read 0 16), rc := 1 }) (inp : Block) :
    some (aesEncrypt128 inp key oKey).1 = aesEncrypt inp ctx ∧
      (aesEncrypt128 inp key oKey).2
        = (updateEncryptKey128^[10] { k := oKey.write 0 (key.read 0 16), rc := 1 }).k := by
  let s₀ : OtfKey := { k := oKey.write 0 (key.read 0 16), rc := 1 }
  have hfirst : blockAt (oKey.write 0 (key.read 0 16)) 0 = ctx.roundKey 0 := hkey 0 (by omega)
  have hlast := hkey 10 (by omega)
  rw [Function.iterate_succ_apply'] at hlast
  have hall : aesEncrypt128 inp key oKey
      = (copyAndKey (shiftSubRows (encryptRounds ctx (copyAndKey inp (ctx.roundKey 0)) 9))
          (blockAt (updateEncryptKey128 (updateEncryptKey128^[9] s₀)).k 0),
          (updateEncryptKey128 (updateEncryptKey128^[9] s₀)).k) := by
    rw [aesEncrypt128, hfirst, encryptRounds128_eq hkey _ 9 (by omega)]
  have hne : ctx.rnd ≠ 0 := by rw [hrnd]; decide
  have hten : ctx.rnd.toNat = 10 := by rw [hrnd]; rfl
  rw [hall, aesEncrypt, if_pos hne, hten, hlast]
  exact ⟨rfl, congrArg OtfKey.k (Function.iterate_succ_apply' updateEncryptKey128 9 s₀).symm⟩

theorem aesDecrypt128_eq (hrnd : ctx.rnd = 10) (hkey : Keys128 ctx s)
    (hrc : (updateEncryptKey128^[10] s).rc = 0x6c) {key : Mem}
    (hk : ∀ i < 16, key i = (updateEncryptKey128^[10] s).k i) (inp : Block) (oKey : Mem) :
    some (aesDecrypt128 inp key oKey).1 = aesDecrypt inp ctx ∧
      ∀ i < 16, (aesDecrypt128 inp key oKey).2 i = s.k i := by
  let t : OtfKey := { k := oKey.write 0 (key.read 0 16), rc := 0x6c }
  have hcopy : OtfKey.Agree 16 t (updateEncryptKey128^[10] s) := agree_copy hk oKey hrc.symm
  have hlast := hcopy.blockAt (p := 0) (by omega)
  rw [hkey 10 (by omega)] at hlast
  let s1 := invShiftSubRows (copyAndKey inp (blockAt t.k 0))
  have hrounds := decryptRounds128_eq hkey 9 (by omega) s1 t hcopy
  have hback := updateDecryptKey128_agree hrounds.2
  rw [updateDecryptKey128_updateEncryptKey128] at hback
  have hfirst := (hback.blockAt (p := 0) (by omega)).trans (hkey 0 (by omega))
  have hall : aesDecrypt128 inp key oKey
      = (copyAndKey (decryptRounds128 9 (s1, t)).1
          (blockAt (updateDecryptKey128 (decryptRounds128 9 (s1, t)).2).k 0),
          (updateDecryptKey128 (decryptRounds128 9 (s1, t)).2).k) := rfl
  have hne : ctx.rnd ≠ 0 := by rw [hrnd]; decide
  have hten : ctx.rnd.toNat = 10 := by rw [hrnd]; rfl
  refine ⟨?_, ?_⟩
  · rw [hall, hrounds.1, hfirst, aesDecrypt, if_pos hne, hten, ← hlast]
  · rw [hall]
    exact hback.k

/-- The same for 256 bits: a key has those of two rounds. -/
def Keys256 (ctx : AesContext) (s : OtfKey) : Prop :=
  ∀ r ≤ 14, blockAt (updateEncryptKey256^[r / 2] s).k (16 * (r % 2)) = ctx.roundKey r

theorem encryptRounds256_eq (hkey : Keys256 ctx s) (s1 : Block) :
    ∀ r ≤ 13, encryptRounds256 (s1, s) r
      = (encryptRounds ctx s1 r, updateEncryptKey256^[r / 2] s) := by
  intro r
  induction r with
  | zero => intro _; rfl
  | succ r ih =>
      intro hr
      have hround := hkey (r + 1) (by omega)
      rw [encryptRounds256, ih (by omega), encryptRounds, ← hround]
      by_cases hodd : (r + 1) % 2 = 1
      · have hhalf : (r + 1) / 2 = r / 2 := by omega
        simp only [hodd, hhalf, if_true, Nat.mul_one]
      · have hhalf : (r + 1) / 2 = r / 2 + 1 := by omega
        have heven : (r + 1) % 2 = 0 := by omega
        simp only [heven, hhalf, Function.iterate_succ_apply', Nat.zero_ne_one, if_false,
          Nat.mul_zero]

theorem decryptRounds256_eq (hkey : Keys256 ctx s) :
    ∀ r ≤ 13, ∀ s1 t, OtfKey.Agree 32 t (updateEncryptKey256^[(r + 1) / 2] s) →
      (decryptRounds256 r (s1, t)).1 = decryptRounds ctx r s1 ∧
      OtfKey.Agree 32 (decryptRounds256 r (s1, t)).2 s := by
  intro r
  induction r with
  | zero => exact fun _ s1 t ht => ⟨rfl, ht⟩
  | succ r ih =>
      intro hr s1 t ht
      have hround := hkey (r + 1) (by omega)
      rw [decryptRounds256]
      by_cases hodd : (r + 1) % 2 = 1
      · rw [if_pos hodd]
        rw [show (r + 1 + 1) / 2 = (r + 1) / 2 + 1 by omega] at ht
        have hback := updateDecryptKey256_agree ht
        rw [Function.iterate_succ_apply', updateDecryptKey256_updateEncryptKey256] at hback
        have hblock := hback.blockAt (p := 16) (by omega)
        rw [hodd, Nat.mul_one, ← hblock] at hround
        simp only [hround, decryptRounds]
        exact ih (by omega) _ _ hback
      · rw [if_neg hodd]
        rw [show (r + 1 + 1) / 2 = (r + 1) / 2 by omega] at ht
        have hblock := ht.blockAt (p := 0) (by omega)
        rw [show (r + 1) % 2 = 0 by omega, Nat.mul_zero, ← hblock] at hround
        simp only [hround, decryptRounds]
        exact ih (by omega) _ _ ht

theorem aesEncrypt256_eq (hrnd : ctx.rnd = 14) {key oKey : Mem}
    (hkey : Keys256 ctx { k := oKey.write 0 (key.read 0 32), rc := 1 }) (inp : Block) :
    some (aesEncrypt256 inp key oKey).1 = aesEncrypt inp ctx ∧
      (aesEncrypt256 inp key oKey).2
        = (updateEncryptKey256^[7] { k := oKey.write 0 (key.read 0 32), rc := 1 }).k := by
  let s₀ : OtfKey := { k := oKey.write 0 (key.read 0 32), rc := 1 }
  have hfirst : blockAt (oKey.write 0 (key.read 0 32)) 0 = ctx.roundKey 0 := hkey 0 (by omega)
  have hlast : blockAt (updateEncryptKey256 (updateEncryptKey256^[6] s₀)).k 0
      = ctx.roundKey 14 := by
    rw [← Function.iterate_succ_apply' updateEncryptKey256 6 s₀]
    exact hkey 14 (by omega)
  have hall : aesEncrypt256 inp key oKey
      = (copyAndKey (shiftSubRows (encryptRounds ctx (copyAndKey inp (ctx.roundKey 0)) 13))
          (blockAt (updateEncryptKey256 (updateEncryptKey256^[6] s₀)).k 0),
          (updateEncryptKey256 (updateEncryptKey256^[6] s₀)).k) := by
    rw [aesEncrypt256, hfirst, encryptRounds256_eq hkey _ 13 (by omega)]
  have hne : ctx.rnd ≠ 0 := by rw [hrnd]; decide
  have hten : ctx.rnd.toNat = 14 := by rw [hrnd]; rfl
  rw [hall, aesEncrypt, if_pos hne, hten, hlast]
  exact ⟨rfl, congrArg OtfKey.k (Function.iterate_succ_apply' updateEncryptKey256 6 s₀).symm⟩

theorem aesDecrypt256_eq (hrnd : ctx.rnd = 14) (hkey : Keys256 ctx s)
    (hrc : (updateEncryptKey256^[7] s).rc = 0x80) {key : Mem}
    (hk : ∀ i < 32, key i = (updateEncryptKey256^[7] s).k i) (inp : Block) (oKey : Mem) :
    some (aesDecrypt256 inp key oKey).1 = aesDecrypt inp ctx ∧
      ∀ i < 32, (aesDecrypt256 inp key oKey).2 i = s.k i := by
  let t : OtfKey := { k := oKey.write 0 (key.read 0 32), rc := 0x80 }
  have hcopy : OtfKey.Agree 32 t (updateEncryptKey256^[7] s) := agree_copy hk oKey hrc.symm
  have hlast := (hcopy.blockAt (p := 0) (by omega)).trans (hkey 14 (by omega))
  let s1 := invShiftSubRows (copyAndKey inp (blockAt t.k 0))
  have hrounds := decryptRounds256_eq hkey 13 (by omega) s1 t hcopy
  have hfirst := (hrounds.2.blockAt (p := 0) (by omega)).trans (hkey 0 (by omega))
  have hall : aesDecrypt256 inp key oKey
      = (copyAndKey (decryptRounds256 13 (s1, t)).1
          (blockAt (decryptRounds256 13 (s1, t)).2.k 0), (decryptRounds256 13 (s1, t)).2.k) := rfl
  have hne : ctx.rnd ≠ 0 := by rw [hrnd]; decide
  have hten : ctx.rnd.toNat = 14 := by rw [hrnd]; rfl
  refine ⟨?_, ?_⟩
  · rw [hall, hrounds.1, hfirst, aesDecrypt, if_pos hne, hten, ← hlast]
  · rw [hall]
    exact hrounds.2.k

end

/-! ## On the fly and beforehand -/

/-- The key itself is the first window of its schedule. -/
theorem AesContext.Keyed.window {ctx : AesContext} {key : Mem} {n : ℕ} (h : ctx.Keyed key n)
    (oKey : Mem) : OtfKey.Window n (4 * (n + 28)) ctx.ksch 0
      { k := oKey.write 0 (key.read 0 n), rc := 1 } := by
  have hcopy : OtfKey.Agree n { k := oKey.write 0 (key.read 0 n), rc := 1 } ⟨ctx.ksch, 1⟩ := by
    refine agree_copy (fun i hi => ?_) oKey rfl
    have hbyte := congrArg (fun l : List UInt8 => l[i]?) h.key
    simpa [List.getElem?_eq_getElem, hi] using hbyte.symm
  refine ⟨fun i hi _ => ?_, rfl⟩
  rw [hcopy.k i hi, Nat.mul_zero, Nat.zero_add]

theorem AesContext.Keyed.keys128 {ctx : AesContext} {key : Mem} (h : ctx.Keyed key 16)
    (oKey : Mem) : Keys128 ctx { k := oKey.write 0 (key.read 0 16), rc := 1 } := by
  intro r hr
  have hwindow := (h.window oKey).iterate (by omega) (by omega) (by omega) h.word r
  rw [AesContext.roundKey, Nat.mul_comm]
  exact hwindow.blockAt (p := 0) (by omega) (by omega)

theorem AesContext.Keyed.keys256 {ctx : AesContext} {key : Mem} (h : ctx.Keyed key 32)
    (oKey : Mem) : Keys256 ctx { k := oKey.write 0 (key.read 0 32), rc := 1 } := by
  intro r hr
  have hwindow := (h.window oKey).iterate (by omega) (by omega) (by omega) h.word (r / 2)
  rw [AesContext.roundKey, show r * 16 = 32 * (r / 2) + 16 * (r % 2) by omega]
  exact hwindow.blockAt (by omega) (by omega)

theorem rcon_ten : rcon 10 = 0x6c := by decide

theorem rcon_seven : rcon 7 = 0x80 := by decide

/-- **A key on the fly does what the schedule does.** Whatever block is encrypted, the key is then
that of the last round, and from it any block is decrypted as with the schedule; after that the key
is what it was. So a block comes back. -/
theorem otf128 {keylen : UInt8} (h : keyBytes keylen = some 16) (key oKey oKey' : Mem)
    (ctx : AesContext) (inp inp' : Block) :
    let made := (aesSetKey key keylen ctx).1
    let enc := aesEncrypt128 inp key oKey
    let dec := aesDecrypt128 inp' enc.2 oKey'
    some enc.1 = aesEncrypt inp made ∧ blockAt enc.2 0 = made.roundKey 10 ∧
      some dec.1 = aesDecrypt inp' made ∧ dec.2.read 0 16 = key.read 0 16 ∧
      (aesDecrypt128 enc.1 enc.2 oKey').1 = inp := by
  intro made enc dec
  have hmade : made.Keyed key 16 := (aesSetKey_spec key h ctx).2
  have hkeys := hmade.keys128 oKey
  have hrnd : made.rnd = 10 := UInt8.toNat_inj.mp hmade.rnd
  let s : OtfKey := { k := oKey.write 0 (key.read 0 16), rc := 1 }
  have hrc : (updateEncryptKey128^[10] s).rc = 0x6c :=
    ((hmade.window oKey).iterate (by omega) (by omega) (by omega) hmade.word 10).rc.trans rcon_ten
  have hs : s.k.read 0 16 = key.read 0 16 := by
    have hself := Mem.read_write_self oKey 0 (key.read 0 16)
    rwa [Mem.length_read] at hself
  have henc := aesEncrypt128_eq hrnd hkeys inp
  have hdec := aesDecrypt128_eq hrnd hkeys hrc (fun i _ => congrFun henc.2 i)
  have hlast : blockAt enc.2 0 = made.roundKey 10 :=
    (congrArg (blockAt · 0) henc.2).trans (hkeys 10 (by omega))
  have hfirst : dec.2.read 0 16 = key.read 0 16 := by
    rw [← hs]
    exact Mem.read_congr fun a _ ha => (hdec inp' oKey').2 a (by omega)
  have hback := (hdec enc.1 oKey').1
  rw [aesDecrypt_of_aesEncrypt henc.1.symm] at hback
  exact ⟨henc.1, hlast, (hdec inp' oKey').1, hfirst, Option.some.inj hback⟩

theorem otf128_of_bits :
    (aesDecrypt128 (aesEncrypt128 (Vector.replicate 16 7) (fun _ => 3) (fun _ => 0)).1
      (aesEncrypt128 (Vector.replicate 16 7) (fun _ => 3) (fun _ => 0)).2 (fun _ => 0)).1
      = Vector.replicate 16 7 :=
  (@otf128 128 rfl (fun _ => 3) (fun _ => 0) (fun _ => 0)
    { ksch := fun _ => 0, rnd := 0 } (Vector.replicate 16 7) (Vector.replicate 16 7)).2.2.2.2

/-- The same for 256 bits, where a key is changed every other round. -/
theorem otf256 {keylen : UInt8} (h : keyBytes keylen = some 32) (key oKey oKey' : Mem)
    (ctx : AesContext) (inp inp' : Block) :
    let made := (aesSetKey key keylen ctx).1
    let enc := aesEncrypt256 inp key oKey
    let dec := aesDecrypt256 inp' enc.2 oKey'
    some enc.1 = aesEncrypt inp made ∧ blockAt enc.2 0 = made.roundKey 14 ∧
      some dec.1 = aesDecrypt inp' made ∧ dec.2.read 0 32 = key.read 0 32 ∧
      (aesDecrypt256 enc.1 enc.2 oKey').1 = inp := by
  intro made enc dec
  have hmade : made.Keyed key 32 := (aesSetKey_spec key h ctx).2
  have hkeys := hmade.keys256 oKey
  have hrnd : made.rnd = 14 := UInt8.toNat_inj.mp hmade.rnd
  let s : OtfKey := { k := oKey.write 0 (key.read 0 32), rc := 1 }
  have hrc : (updateEncryptKey256^[7] s).rc = 0x80 :=
    ((hmade.window oKey).iterate (by omega) (by omega) (by omega) hmade.word 7).rc.trans rcon_seven
  have hs : s.k.read 0 32 = key.read 0 32 := by
    have hself := Mem.read_write_self oKey 0 (key.read 0 32)
    rwa [Mem.length_read] at hself
  have henc := aesEncrypt256_eq hrnd hkeys inp
  have hdec := aesDecrypt256_eq hrnd hkeys hrc (fun i _ => congrFun henc.2 i)
  have hlast : blockAt enc.2 0 = made.roundKey 14 :=
    (congrArg (blockAt · 0) henc.2).trans (hkeys 14 (by omega))
  have hfirst : dec.2.read 0 32 = key.read 0 32 := by
    rw [← hs]
    exact Mem.read_congr fun a _ ha => (hdec inp' oKey').2 a (by omega)
  have hback := (hdec enc.1 oKey').1
  rw [aesDecrypt_of_aesEncrypt henc.1.symm] at hback
  exact ⟨henc.1, hlast, (hdec inp' oKey').1, hfirst, Option.some.inj hback⟩

theorem otf256_of_bytes :
    (aesDecrypt256 (aesEncrypt256 (Vector.replicate 16 7) (fun _ => 3) (fun _ => 0)).1
      (aesEncrypt256 (Vector.replicate 16 7) (fun _ => 3) (fun _ => 0)).2 (fun _ => 0)).1
      = Vector.replicate 16 7 :=
  (@otf256 32 rfl (fun _ => 3) (fun _ => 0) (fun _ => 0)
    { ksch := fun _ => 0, rnd := 0 } (Vector.replicate 16 7) (Vector.replicate 16 7)).2.2.2.2

end CCode.Aes
