import CCode.CodeAna.Step

/-!
# Where the scanner agrees with the lexer

`prepro_agrees_iff` says that the spots at which the scanner slips and those at which the
search is misled are all that can go wrong.

## Main definitions

* `records_eq_iff` — the records of `prepro`.
* `mem_findfunc`, `mem_findfunc_unbounded` — what `findfunc` reports.
-/

namespace CCode.CodeAna

open CCode.Lib

variable {text pre : List Char} {ch : Char}

/-! ## Runs -/

theorem Spot.lastVis_next (t : Spot) :
    (t.next ch).lastVis = if isVisChar ch then ch else t.lastVis := rfl

@[simp] theorem spot_snoc : spot (pre ++ [ch]) = (spot pre).next ch := by
  simp [spot]

/-- The spot has the state of the lexer. -/
theorem spot_ref (pre : List Char) : (spot pre).ref = after refStep Ref.start pre := by
  induction pre using List.reverseRecOn with
  | nil => rfl
  | append_singleton pre ch ih => rw [spot_snoc, after_snoc, Spot.next, ih]

/-- The scanner stays in step on a text as long as it slips nowhere where it is in step. -/
theorem sync_of_not_slips (h : ∀ pre ch, pre ++ [ch] <+: text →
      Sync (after preproStep Prepro.start pre) (spot pre) → ¬ (spot pre).Slips ch) :
    ∀ pre, pre <+: text → Sync (after preproStep Prepro.start pre) (spot pre) := by
  apply forall_prefix
  · exact Sync.start
  · intro pre ch hpre hsync
    rw [after_snoc, spot_snoc]
    exact (hsync.step (h pre ch hpre hsync)).1

/-- **The records.** They are those of the lexer if and only if the scanner slips nowhere. -/
theorem records_eq_iff :
    (prepro text).map (Option.map CharStatus.mark) = reference text ↔
      ∀ pre ch, pre ++ [ch] <+: text → ¬ (spot pre).Slips ch := by
  rw [prepro, map_outputs, reference, outputs_eq_iff]
  have hafter : ∀ pre, after (fun s ch => ((preproStep s ch).1,
      (preproStep s ch).2.map CharStatus.mark)) Prepro.start pre =
        after preproStep Prepro.start pre := fun _ => rfl
  simp only [hafter, ← spot_ref]
  constructor
  · intro heq pre ch hpre hslip
    have hsync := sync_of_not_slips fun pre ch hpre hsync hslip =>
      hsync.ne_of_slips hslip (heq pre ch hpre)
    have hpart : pre <+: text := (List.prefix_append pre [ch]).trans hpre
    exact (hsync pre hpart).ne_of_slips hslip (heq pre ch hpre)
  · intro hno pre ch hpre
    have hsync := sync_of_not_slips fun pre ch hpre _ => hno pre ch hpre
    have hpart : pre <+: text := (List.prefix_append pre [ch]).trans hpre
    exact ((hsync pre hpart).step (hno pre ch hpre)).2

/-! ## The search -/

/-- What the loop reports was reported before, or is where the test holds. -/
theorem mem_findfuncLoop {bufSize : ℤ} {i j : ℕ} {prev : CharStatus} {l : List CharStatus}
    {buf : List ℕ} (h : j ∈ findfuncLoop bufSize i prev l buf) :
    j ∈ buf ∨ ∃ k p c, j = i + k ∧ (prev :: l)[k]? = some p ∧ l[k]? = some c ∧
      opensFunc p c = true := by
  induction l generalizing i prev buf with
  | nil => exact .inl h
  | cons cur rest ih =>
      -- what the rest of the loop finds is one further on
      have hrest : (∃ k p c, j = i + 1 + k ∧ (cur :: rest)[k]? = some p ∧ rest[k]? = some c ∧
          opensFunc p c = true) → ∃ k p c, j = i + k ∧ (prev :: cur :: rest)[k]? = some p ∧
            (cur :: rest)[k]? = some c ∧ opensFunc p c = true := by
        rintro ⟨k, p, c, hj, hp, hc, htest⟩
        exact ⟨k + 1, p, c, by omega, hp, hc, htest⟩
      rw [findfuncLoop] at h
      split_ifs at h with htest hfull
      · rcases List.mem_append.mp h with h | h
        · exact .inl h
        · exact .inr ⟨0, prev, cur, List.mem_singleton.mp h, rfl, rfl, htest⟩
      · rcases ih h with h | h
        · rcases List.mem_append.mp h with h | h
          · exact .inl h
          · exact .inr ⟨0, prev, cur, List.mem_singleton.mp h, rfl, rfl, htest⟩
        · exact .inr (hrest h)
      · exact (ih h).imp_right hrest

/-- Without a bound the loop keeps what was reported, and reports every index where the test
holds. -/
theorem mem_findfuncLoop_unbounded {i j : ℕ} {prev : CharStatus} {l : List CharStatus}
    {buf : List ℕ} (h : j ∈ buf ∨ ∃ k p c, j = i + k ∧ (prev :: l)[k]? = some p ∧
      l[k]? = some c ∧ opensFunc p c = true) : j ∈ findfuncLoop 0 i prev l buf := by
  induction l generalizing i prev buf with
  | nil =>
      rcases h with h | ⟨k, p, c, -, -, hc, -⟩
      · exact h
      · simp at hc
  | cons cur rest ih =>
      have hfull : ¬ ((buf ++ [i]).length : ℤ) = 0 := by simp; omega
      rw [findfuncLoop, if_neg hfull]
      rcases h with h | ⟨k, p, c, hj, hp, hc, htest⟩
      · split_ifs
        · exact ih (.inl (List.mem_append_left _ h))
        · exact ih (.inl h)
      · cases k with
        | zero =>
            obtain rfl : prev = p := Option.some_inj.mp hp
            obtain rfl : cur = c := Option.some_inj.mp hc
            rw [if_pos htest]
            exact ih (.inl (by simp [hj]))
        | succ k =>
            have hlater : ∃ k p c, j = i + 1 + k ∧ (cur :: rest)[k]? = some p ∧
                rest[k]? = some c ∧ opensFunc p c = true := ⟨k, p, c, by omega, hp, hc, htest⟩
            split_ifs
            · exact ih (.inr hlater)
            · exact ih (.inr hlater)

/-- What `findfunc` reports passes its test. -/
theorem mem_findfunc {bufSize : ℤ} {j : ℕ} {l : List CharStatus} (h : j ∈ findfunc l bufSize) :
    ∃ k p c, j = k + 1 ∧ l[k]? = some p ∧ l[k + 1]? = some c ∧ opensFunc p c = true := by
  cases l with
  | nil => cases h
  | cons prev rest =>
      rcases mem_findfuncLoop h with h | ⟨k, p, c, hj, hp, hc, htest⟩
      · cases h
      · exact ⟨k, p, c, by omega, hp, hc, htest⟩

/-- With a size that it never reaches it reports every index that does. -/
theorem mem_findfunc_unbounded {k : ℕ} {l : List CharStatus} {p c : CharStatus}
    (hp : l[k]? = some p) (hc : l[k + 1]? = some c) (htest : opensFunc p c = true) :
    k + 1 ∈ findfunc l 0 := by
  cases l with
  | nil => simp at hp
  | cons prev rest =>
      exact mem_findfuncLoop_unbounded (.inr ⟨k, p, c, Nat.add_comm _ _, hp, hc, htest⟩)

/-! ## What it is misled by -/

/-- The record of the character behind a prefix. -/
theorem getElem?_statuses (h : pre ++ [ch] <+: text) :
    (statuses text)[pre.length]? =
      some ((preproStep (after preproStep Prepro.start pre) ch).2.getD CharStatus.zero) := by
  rw [statuses, prepro, List.getElem?_map, getElem?_outputs h, Option.map_some]

theorem exists_of_getElem?_statuses {i : ℕ} {st : CharStatus}
    (h : (statuses text)[i]? = some st) :
    ∃ pre ch, pre ++ [ch] <+: text ∧ pre.length = i ∧
      (preproStep (after preproStep Prepro.start pre) ch).2.getD CharStatus.zero = st := by
  have hlt : i < text.length := by
    have hlt := (List.getElem?_eq_some_iff.mp h).1
    simpa [statuses, prepro] using hlt
  obtain ⟨pre, hpre, rfl⟩ := exists_prefix_of_getElem? (List.getElem?_eq_getElem hlt)
  exact ⟨pre, _, hpre, rfl, Option.some_inj.mp ((getElem?_statuses hpre).symm.trans h)⟩

/-- A record that is written is the status behind its character. -/
theorem preproStep_some {s : Prepro} {st : CharStatus} (h : (preproStep s ch).2 = some st) :
    (preproStep s ch).1.state = st := by
  simp only [preproStep] at h ⊢
  split at h <;> simp_all

/-- A record with a visible character was written. -/
theorem preproStep_getD {s : Prepro} {st : CharStatus}
    (h : (preproStep s ch).2.getD CharStatus.zero = st)
    (hvis : st.lastPrtChar ≠ CharStatus.zero.lastPrtChar) :
    (preproStep s ch).2 = some st ∧ (preproStep s ch).1.state = st := by
  cases hrec : (preproStep s ch).2
  case none =>
    rw [hrec] at h
    exact absurd (congrArg CharStatus.lastPrtChar h.symm) hvis
  case some st' =>
    rw [hrec] at h
    obtain rfl : st' = st := h
    exact ⟨rfl, preproStep_some hrec⟩

namespace Lex

/-- A character literal goes on behind a brace, and none begins there. -/
theorem inChr_next_brace (l : Lex) : (l.next '{').inChr = l.inChr := by
  cases l <;> decide

theorem skips_of_inChr {l : Lex} (h : l.inChr = true) (ch : Char) : l.skips ch = false := by
  rw [← Bool.not_eq_true]
  intro hskip
  rw [(no_literal_of_skips hskip).1.2] at h
  cases h

end Lex

/-- In a character literal nothing is marked. -/
theorem Phase.marks_of_inChr {p : Phase} (h : p.lex.inChr = true) :
    p.markOne = false ∧ p.markMulti = false ∧ p.lex.inStr = false := by
  cases p
  case chr | chrSlash | chrEsc => exact ⟨rfl, rfl, rfl⟩
  all_goals cases h

/-- A brace in a character literal is seen, and changes nothing else that `findfunc` goes by. -/
theorem Spot.next_brace {t : Spot} (h : t.ref.lex.inChr = true) :
    (t.next '{').lastVis = '{' ∧ (t.next '{').hash = t.hash ∧
      (t.next '{').ref.parens = t.ref.parens ∧ (t.next '{').ref.braces = t.ref.braces := by
  have hskip := Lex.skips_of_inChr h '{'
  have hlit := (Lex.inChr_next_brace t.ref.lex).trans h
  refine ⟨rfl, ?_, ?_, ?_⟩
  · simp [Spot.next, hskip, enter]
  · rw [Spot.next, refStep_of_literal hskip (.inr hlit)]
  · rw [Spot.next, refStep_of_literal hskip (.inr hlit)]

section Misled

variable (hsync : ∀ pre, pre <+: text → Sync (after preproStep Prepro.start pre) (spot pre))
  (hno : ∀ pre ch, pre ++ [ch] <+: text → ¬ (spot pre).Slips ch)
include hsync hno

/-- The character before a place in a character literal has a record. -/
theorem record_before (hpre : pre <+: text) (hlit : (spot pre).ref.lex.inChr = true) :
    ∃ q b, pre = q ++ [b] ∧
      (preproStep (after preproStep Prepro.start q) b).2 =
        some (after preproStep Prepro.start pre).state := by
  induction pre using List.reverseRecOn with
  | nil => cases hlit
  | append_singleton q b _ =>
      refine ⟨q, b, rfl, ?_⟩
      have hat := hsync q ((List.prefix_append q [b]).trans hpre)
      have hskip : (spot q).phase.lex.skips b = false := by
        rw [← Bool.not_eq_true]
        intro hskip
        rw [spot_snoc, Spot.next, refStep_lex, ← hat.lex,
          (Lex.no_literal_of_skips hskip).2.2] at hlit
        cases hlit
      rw [after_snoc]
      exact (hat.text (hno q b hpre) hskip).2.1

/-- A brace that misleads the search is reported, though it is in a character literal. -/
theorem reported_of_misled (hpre : pre ++ [ch] <+: text) (hmisled : (spot pre).MisledBy ch) :
    pre.length ∈ findfunc (statuses text) 0 ∧
      ∃ m, (reference text)[pre.length]? = some (some m) ∧ m.issQuotes = true := by
  obtain ⟨rfl, hlit, hvis, hparens, hbraces, hhash⟩ := hmisled
  have hpart : pre <+: text := (List.prefix_append pre ['{']).trans hpre
  have hat := hsync pre hpart
  have hskip : (spot pre).phase.lex.skips '{' = false := by
    rw [hat.lex]
    exact Lex.skips_of_inChr hlit '{'
  obtain ⟨hafter, hrec, href⟩ := hat.text (hno _ _ hpre) hskip
  have hlit' : ((spot pre).next '{').phase.lex.inChr = true := by
    rw [hafter.lex, Spot.next, refStep_lex]
    exact (Lex.inChr_next_brace _).trans hlit
  constructor
  · have hnext := Spot.next_brace hlit
    have hmarks := Phase.marks_of_inChr hlit'
    -- the record of the brace and the one before it pass the test
    have htest : opensFunc (after preproStep Prepro.start pre).state
        (preproStep (after preproStep Prepro.start pre) '{').1.state = true := by
      have hp : (preproStep (after preproStep Prepro.start pre) '{').1.state.parentLev = 0 :=
        Int8.toInt_inj.mp (hafter.parens.trans (hnext.2.2.1.trans hparens))
      have hb : (preproStep (after preproStep Prepro.start pre) '{').1.state.brackLev = 1 :=
        Int8.toInt_inj.mp (hafter.braces.trans (hnext.2.2.2.trans hbraces))
      simp only [opensFunc, hafter.lastVis, hnext.1, hat.lastVis, hvis, hp, hb, hafter.markOne,
        hmarks.1, hafter.markMulti, hmarks.2.1, hafter.hash, hnext.2.1, hhash, hafter.inStr,
        hmarks.2.2]
      rfl
    have hcur := getElem?_statuses hpre
    rw [hrec, Option.getD_some] at hcur
    obtain ⟨q, b, rfl, hbefore⟩ := record_before hsync hno hpart hlit
    have hprev := getElem?_statuses hpart
    rw [hbefore, Option.getD_some] at hprev
    rw [List.length_append, List.length_singleton] at hcur ⊢
    exact mem_findfunc_unbounded hprev hcur htest
  · have hout := @getElem?_outputs _ _ _ refStep Ref.start _ _ _ hpre
    rw [← spot_ref, href] at hout
    exact ⟨_, hout, hafter.inChr.trans hlit'⟩

/-- What is reported is outside comments and strings, and if it is in a character literal it
has misled the search. -/
theorem of_reported {bufSize : ℤ} {i : ℕ} (hi : i ∈ findfunc (statuses text) bufSize) :
    ∃ pre ch, pre ++ [ch] <+: text ∧ ∃ m, (reference text)[i]? = some (some m) ∧
      m.isQuotes = false ∧ (m.issQuotes = true → (spot pre).MisledBy ch) := by
  obtain ⟨k, p, c, rfl, hp, hc, htest⟩ := mem_findfunc hi
  obtain ⟨pre, ch, hpre, hlen, hc⟩ := exists_of_getElem?_statuses hc
  obtain ⟨q, b, hq, hqlen, hp⟩ := exists_of_getElem?_statuses hp
  have hpart : pre <+: text := (List.prefix_append pre [ch]).trans hpre
  obtain rfl : pre = q ++ [b] := by
    have hlen' : (q ++ [b]).length = pre.length := by simp [hqlen, hlen]
    exact ((List.prefix_of_prefix_length_le hq hpart hlen'.le).eq_of_length hlen').symm
  simp only [opensFunc, Bool.and_eq_true, beq_iff_eq] at htest
  obtain ⟨⟨⟨⟨⟨⟨⟨hcvis, hpvis⟩, hparens⟩, hbraces⟩, -⟩, -⟩, hmacro⟩, hstr⟩ := htest
  have hcur := preproStep_getD hc (by rw [hcvis]; decide)
  have hprev := preproStep_getD hp (by rw [hpvis]; decide)
  obtain ⟨hafter, hmark⟩ := (hsync _ hpart).step (hno _ _ hpre)
  have hat := @getElem?_outputs _ _ _ refStep Ref.start _ _ _ hpre
  rw [← spot_ref, ← hmark, hcur.1, Option.map_some, hlen] at hat
  refine ⟨q ++ [b], ch, hpre, c.mark, hat, hstr, ?_⟩
  intro hchr
  have hvis : (spot (q ++ [b])).lastVis = ')' := by
    rw [← (hsync _ hpart).lastVis, after_snoc, hprev.2, hpvis]
  have hbrace : ch = '{' := by
    have hlast := hafter.lastVis
    rw [hcur.2, hcvis, Spot.lastVis_next, hvis] at hlast
    split_ifs at hlast
    · exact hlast.symm
    · exact absurd hlast (by decide)
  subst hbrace
  have hlit : (spot (q ++ [b])).ref.lex.inChr = true := by
    have hchr' : c.issQuotes = true := hchr
    have hlit := hafter.inChr
    rw [hcur.2, hchr', hafter.lex, Spot.next, refStep_lex, Lex.inChr_next_brace] at hlit
    exact hlit.symm
  have hnext := Spot.next_brace hlit
  refine ⟨rfl, hlit, hvis, ?_, ?_, ?_⟩
  · rw [← hnext.2.2.1, ← hafter.parens, hcur.2, hparens]
    rfl
  · rw [← hnext.2.2.2, ← hafter.braces, hcur.2, hbraces]
    rfl
  · rw [← hnext.2.1, ← hafter.hash, hcur.2, hmacro]

end Misled

/-- **The search.** Where the scanner slips nowhere, `findfunc` reports no place in a comment or
a literal if and only if it is misled nowhere. -/
theorem reports_iff (hno : ∀ pre ch, pre ++ [ch] <+: text → ¬ (spot pre).Slips ch) :
    (∀ bufSize, ∀ i ∈ findfunc (statuses text) bufSize,
      ∃ m, (reference text)[i]? = some (some m) ∧ m.isQuotes = false ∧ m.issQuotes = false) ↔
      ∀ pre ch, pre ++ [ch] <+: text → ¬ (spot pre).MisledBy ch := by
  have hsync := sync_of_not_slips fun pre ch hpre _ => hno pre ch hpre
  constructor
  · intro hreports pre ch hpre hmisled
    obtain ⟨hmem, m, hm, hlit⟩ := reported_of_misled hsync hno hpre hmisled
    obtain ⟨m', hm', -, hout⟩ := hreports 0 _ hmem
    rw [hm, Option.some_inj, Option.some_inj] at hm'
    rw [hm', hout] at hlit
    cases hlit
  · intro hmisled bufSize i hi
    obtain ⟨pre, ch, hpre, m, hm, hstr, hchr⟩ := of_reported hsync hno hi
    refine ⟨m, hm, hstr, ?_⟩
    rw [← Bool.not_eq_true]
    exact fun hlit => hmisled pre ch hpre (hchr hlit)

end CCode.CodeAna
