import CCode.Aes.Cipher

/-!
# The key schedule

`aes_set_key` writes the round keys one behind the other, each word from the one before it and the
one a key length back.

## Main definitions

* `aesSetKey` — the function.
* `AesContext.Keyed` — a context whose words are all made so, from its key on.

## Main results

* `aesSetKey_spec` — what it returns and leaves, for the lengths that it knows.
-/

namespace CCode.Aes

open CCode.Lib

/-! ## The functions of the source -/

/-- `rc = f2(rc)`. -/
def nextRc (rc : UInt8) : UInt8 := UInt8.ofNat (f2 rc.toNat)

/-- `t0` to `t3`, after the branches of the loop of `aes_set_key`, from the four bytes before `cc`;
`m` is `cc % keylen`. -/
def scheduleTemp (keylen m : ℕ) (rc : UInt8) (t : List UInt8) : List UInt8 :=
  if m = 0 then
    [sBox (t.getD 1 0) ^^^ rc, sBox (t.getD 2 0), sBox (t.getD 3 0), sBox (t.getD 0 0)]
  else if keylen > 24 ∧ m = 16 then
    [sBox (t.getD 0 0), sBox (t.getD 1 0), sBox (t.getD 2 0), sBox (t.getD 3 0)]
  else t

/-- One round of the loop of `aes_set_key`. -/
def scheduleStep (keylen : ℕ) (s : Mem × UInt8) (cc : ℕ) : Mem × UInt8 :=
  let (ksch, rc) := s
  let t := scheduleTemp keylen (cc % keylen) rc (ksch.read (cc - 4) 4)
  let rc := if cc % keylen = 0 then nextRc rc else rc
  (ksch.write cc (List.zipWith (fun a b => a ^^^ b) (ksch.read (cc - keylen) 4) t), rc)

/-- `keylen` after the `switch` of `aes_set_key`, in bytes. -/
def keyBytes (keylen : UInt8) : Option UInt8 :=
  if keylen = 16 ∨ keylen = 128 then some 16
  else if keylen = 24 ∨ keylen = 192 then some 24
  else if keylen = 32 then some 32
  else none

/-- `aes_set_key`: the context, and what is returned. -/
def aesSetKey (key : Mem) (keylen : UInt8) (ctx : AesContext) : AesContext × UInt8 :=
  match keyBytes keylen with
  | none => ({ ctx with rnd := 0 }, 255)
  | some keylen =>
      let ksch := ctx.ksch.write 0 (key.read 0 keylen.toNat)
      let hi := (keylen + 28) <<< 2
      let rnd := (hi >>> 4) - 1
      -- `cc < hi`, four bytes in each round
      let (ksch, _) := (List.range ((hi.toNat - keylen.toNat) / 4)).foldl
        (fun s j => scheduleStep keylen.toNat s (keylen.toNat + 4 * j)) (ksch, 1)
      ({ ksch := ksch, rnd := rnd }, 0)

/-! ## The schedule -/

/-- The constant after `q` words that used one. -/
def rcon (q : ℕ) : UInt8 := nextRc^[q] 1

theorem rcon_succ (q : ℕ) : rcon (q + 1) = nextRc (rcon q) :=
  Function.iterate_succ_apply' nextRc q 1

/-- The key lengths, in bytes. -/
def KeyLength (n : ℕ) : Prop := n = 16 ∨ n = 24 ∨ n = 32

theorem length_scheduleTemp (n m : ℕ) (rc : UInt8) {t : List UInt8} (ht : t.length = 4) :
    (scheduleTemp n m rc t).length = 4 := by
  rw [scheduleTemp]
  split
  · rfl
  · split
    · rfl
    · exact ht

/-- The word at `c` of a schedule, from the words before it. -/
def IsScheduleWord (n : ℕ) (ksch : Mem) (c : ℕ) : Prop :=
  ksch.read c 4 = List.zipWith (fun a b => a ^^^ b) (ksch.read (c - n) 4)
    (scheduleTemp n (c % n) (rcon ((c - 1) / n)) (ksch.read (c - 4) 4))

/-- The key, and the words behind it that are made so far. -/
structure Scheduled (n : ℕ) (key : Mem) (j : ℕ) (s : Mem × UInt8) : Prop where
  key : s.1.read 0 n = key.read 0 n
  word : ∀ i < j, IsScheduleWord n s.1 (n + 4 * i)
  rc : s.2 = rcon ((n + 4 * j - 1) / n)

theorem scheduleStep_rc {n : ℕ} (hn : KeyLength n) (j : ℕ) :
    (n + 4 * (j + 1) - 1) / n
      = if (n + 4 * j) % n = 0 then (n + 4 * j - 1) / n + 1 else (n + 4 * j - 1) / n := by
  rcases hn with rfl | rfl | rfl
  all_goals
    split <;> omega

/-- **One more word.** -/
theorem Scheduled.step {n : ℕ} {key : Mem} {j : ℕ} {s : Mem × UInt8} (hn : KeyLength n)
    (h : Scheduled n key j s) : Scheduled n key (j + 1) (scheduleStep n s (n + 4 * j)) := by
  have hpos : 16 ≤ n := by rcases hn with rfl | rfl | rfl <;> omega
  obtain ⟨c, hc⟩ : ∃ c, c = n + 4 * j := ⟨_, rfl⟩
  let t := scheduleTemp n (c % n) s.2 (s.1.read (c - 4) 4)
  let w := List.zipWith (fun a b => a ^^^ b) (s.1.read (c - n) 4) t
  have ht : t.length = 4 := length_scheduleTemp n _ _ (Mem.length_read _ _ _)
  have hw : w.length = 4 := by simp [w, ht]
  have hmem : (scheduleStep n s c).1 = s.1.write c w := rfl
  have hbefore : ∀ (q m : ℕ), q + m ≤ c → (s.1.write c w).read q m = s.1.read q m :=
    fun q m hq => Mem.read_write_before s.1 hq
  rw [← hc]
  refine ⟨?_, ?_, ?_⟩
  · rw [hmem, hbefore 0 n (by omega), h.key]
  · intro i hi
    rw [hmem, IsScheduleWord]
    by_cases hlast : i < j
    · rw [hbefore (n + 4 * i) 4 (by omega), hbefore (n + 4 * i - n) 4 (by omega),
        hbefore (n + 4 * i - 4) 4 (by omega)]
      exact h.word i hlast
    · have hij : i = j := by omega
      have hself : (s.1.write c w).read c 4 = w := by
        have h := Mem.read_write_self s.1 c w
        rwa [hw] at h
      rw [hij, ← hc, hbefore (c - n) 4 (by omega), hbefore (c - 4) 4 (by omega), hself, hc, ← h.rc,
        ← hc]
  · have hrc : (scheduleStep n s c).2 = if c % n = 0 then nextRc s.2 else s.2 := rfl
    rw [hrc, scheduleStep_rc hn, h.rc, ← hc]
    split
    · rw [rcon_succ]
    · rfl

theorem Scheduled.loop {n : ℕ} (hn : KeyLength n) (key old : Mem) (j : ℕ) :
    Scheduled n key j ((List.range j).foldl (fun s j => scheduleStep n s (n + 4 * j))
      (old.write 0 (key.read 0 n), 1)) := by
  induction j with
  | zero =>
      refine ⟨?_, fun i hi => absurd hi (Nat.not_lt_zero i), ?_⟩
      · have h := Mem.read_write_self old 0 (key.read 0 n)
        rwa [Mem.length_read] at h
      · have hzero : (n + 4 * 0 - 1) / n = 0 := by rcases hn with rfl | rfl | rfl <;> rfl
        rw [hzero]
        rfl
  | succ j ih =>
      rw [List.range_succ, List.foldl_append]
      exact ih.step hn

/-- **The context that `aes_set_key` makes**: its rounds, its key, and each word behind that. -/
structure AesContext.Keyed (ctx : AesContext) (key : Mem) (n : ℕ) : Prop where
  rnd : ctx.rnd.toNat = n / 4 + 6
  key : ctx.ksch.read 0 n = key.read 0 n
  word : ∀ i, n + 4 * i < 4 * (n + 28) → IsScheduleWord n ctx.ksch (n + 4 * i)

theorem keyBytes_eq_some {keylen n : UInt8} (h : keyBytes keylen = some n) :
    n = 16 ∨ n = 24 ∨ n = 32 := by
  rw [keyBytes] at h
  split at h
  · exact .inl (Option.some.inj h).symm
  · split at h
    · exact .inr (.inl (Option.some.inj h).symm)
    · split at h
      · exact .inr (.inr (Option.some.inj h).symm)
      · cases h

/-- **What `aes_set_key` does** with a length that it knows. -/
theorem aesSetKey_spec (key : Mem) {keylen n : UInt8} (h : keyBytes keylen = some n)
    (ctx : AesContext) :
    (aesSetKey key keylen ctx).2 = 0 ∧ (aesSetKey key keylen ctx).1.Keyed key n.toNat := by
  have hn : KeyLength n.toNat := by
    rcases keyBytes_eq_some h with rfl | rfl | rfl
    · exact .inl rfl
    · exact .inr (.inl rfl)
    · exact .inr (.inr rfl)
  have hrnd : (((n + 28) <<< 2) >>> 4 - 1).toNat = n.toNat / 4 + 6 := by
    rcases keyBytes_eq_some h with rfl | rfl | rfl <;> rfl
  have hhi : ((n + 28) <<< 2).toNat = 4 * (n.toNat + 28) := by
    rcases keyBytes_eq_some h with rfl | rfl | rfl <;> rfl
  have hloop := Scheduled.loop hn key ctx.ksch ((((n + 28) <<< 2).toNat - n.toNat) / 4)
  simp only [aesSetKey, h]
  refine ⟨trivial, hrnd, hloop.key, fun i hi => hloop.word i ?_⟩
  rw [hhi]
  rcases hn with hn | hn | hn <;> omega

end CCode.Aes
