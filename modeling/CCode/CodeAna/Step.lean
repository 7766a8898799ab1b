import CCode.CodeAna.Phases

/-!
# One round of the scanner

Where the scanner does not slip, it stays in step with the lexer through one more character,
and records what the lexer does. Where it slips, the two records differ.

## Main definitions

* `Sync` — the variables of the scanner at a spot.
* `Sync.step`, `Sync.ne_of_slips` — one round.
-/

namespace CCode.CodeAna

open CCode.Lib

/-! ## The rest of a round -/

section Rest

variable {st : CharStatus} {pre ch : Char} {tNum : ℕ}

/-- A line never gets past its start. -/
theorem startOfLine_eq (h : st.isStartOfLine = true) : startOfLine st ch = st := by
  have hvis : isVisChar (isOne ch) = false := by
    rw [isOne]
    split_ifs <;> rfl
  rw [startOfLine, hvis]
  split_ifs with henter hstart
  · rw [← h]
  · exact absurd hstart.2 (by decide)
  · rfl

theorem directive_eq (h : st.isStartOfLine = true) :
    directive st pre ch tNum = { st with
      isMacro := if st.isMacro && ch == enter then pre == backslash
        else st.isMacro || ch == '#' } := by
  obtain ⟨one, multi, mac, q, sq, sol, vis, pl, bl⟩ := st
  simp only at h
  subst h
  cases mac
  case false => by_cases hhash : ch = '#' <;> simp [directive, hhash]
  case true =>
    by_cases henter : ch = enter
    · by_cases hback : pre = backslash <;> simp [directive, henter, hback]
    · by_cases hhash : ch = '#'
      · simp [directive, hhash, enter]
      · simp [directive, henter, hhash]

/-- Only the levels change. -/
theorem levels_eq (st : CharStatus) (ch : Char) (tNum : ℕ) :
    levels st ch tNum = { st with
      parentLev := (levels st ch tNum).parentLev, brackLev := (levels st ch tNum).brackLev } := by
  unfold levels
  split_ifs <;> rfl

theorem levels_of_literal (h : st.isQuotes = true ∨ st.issQuotes = true) :
    levels st ch tNum = st := by
  rw [levels, if_neg]
  rintro ⟨-, hq, hs⟩
  rcases h with h | h
  · exact absurd (hq.symm.trans h) (by decide)
  · exact absurd (hs.symm.trans h) (by decide)

theorem toInt_add_one {x : Int8} {v : ℤ} (hx : x.toInt = v) (h : v + 1 ≤ 127) :
    (x + 1).toInt = v + 1 := by
  have hlo := x.le_toInt
  rw [Int8.toInt_add, hx]
  exact Int.bmod_eq_of_le_mul_two (by simp; omega) (by simp; omega)

theorem toInt_sub_one {x : Int8} {v : ℤ} (hx : x.toInt = v) (h : -128 ≤ v + -1) :
    (x - 1).toInt = v + -1 := by
  have hhi := x.toInt_lt
  rw [Int8.toInt_sub, hx]
  exact Int.bmod_eq_of_le_mul_two (by simp; omega) (by simp; omega)

/-- The levels of a character of the program follow the depths, as long as these fit. -/
theorem levels_toInt (hq : st.isQuotes = false) (hs : st.issQuotes = false)
    (hfirst : tNum = 0 → ¬ (ch = '{' ∨ ch = '}' ∨ ch = '(' ∨ ch = ')')) {r : Ref}
    (hp : st.parentLev.toInt = r.parens) (hb : st.brackLev.toInt = r.braces)
    (hfits : Spot.Shallow
      ⟨r.lex, r.parens + nesting '(' ')' ch, r.braces + nesting '{' '}' ch⟩) :
    (levels st ch tNum).parentLev.toInt = r.parens + nesting '(' ')' ch ∧
      (levels st ch tNum).brackLev.toInt = r.braces + nesting '{' '}' ch := by
  obtain ⟨hplo, hphi, hblo, hbhi⟩ := hfits
  by_cases hpos : tNum = 0
  · have hch := hfirst hpos
    simp only [not_or] at hch
    simp [levels, hpos, nesting, hch, hp, hb]
  · have hpos' : 0 < tNum := Nat.pos_of_ne_zero hpos
    by_cases hopen : ch = '{'
    · have hlev : levels st ch tNum = { st with brackLev := st.brackLev + 1 } := by
        simp [levels, hpos', hq, hs, hopen]
      have hn : nesting '(' ')' ch = 0 ∧ nesting '{' '}' ch = 1 := by simp [nesting, hopen]
      rw [hn.2] at hbhi
      rw [hlev, hn.1, hn.2, add_zero]
      exact ⟨hp, toInt_add_one hb hbhi⟩
    · by_cases hclose : ch = '}'
      · have hlev : levels st ch tNum = { st with brackLev := st.brackLev - 1 } := by
          simp [levels, hpos', hq, hs, hclose]
        have hn : nesting '(' ')' ch = 0 ∧ nesting '{' '}' ch = -1 := by simp [nesting, hclose]
        rw [hn.2] at hblo
        rw [hlev, hn.1, hn.2, add_zero]
        exact ⟨hp, toInt_sub_one hb hblo⟩
      · by_cases hpopen : ch = '('
        · have hlev : levels st ch tNum = { st with parentLev := st.parentLev + 1 } := by
            simp [levels, hpos', hq, hs, hpopen]
          have hn : nesting '(' ')' ch = 1 ∧ nesting '{' '}' ch = 0 := by simp [nesting, hpopen]
          rw [hn.1] at hphi
          rw [hlev, hn.1, hn.2, add_zero]
          exact ⟨toInt_add_one hp hphi, hb⟩
        · by_cases hpclose : ch = ')'
          · have hlev : levels st ch tNum = { st with parentLev := st.parentLev - 1 } := by
              simp [levels, hpos', hq, hs, hpclose]
            have hn : nesting '(' ')' ch = -1 ∧ nesting '{' '}' ch = 0 := by
              simp [nesting, hpclose]
            rw [hn.1] at hplo
            rw [hlev, hn.1, hn.2, add_zero]
            exact ⟨toInt_sub_one hp hplo, hb⟩
          · simp [levels, hopen, hclose, hpopen, hpclose, nesting, hp, hb]

end Rest

/-! ## One round -/

/-- The variables of the scanner at a spot that it has come to without a slip. -/
structure Sync (s : Prepro) (t : Spot) : Prop where
  lex : t.phase.lex = t.ref.lex
  markOne : s.state.isMarkOne = t.phase.markOne
  markMulti : s.state.isMarkMulti = t.phase.markMulti
  inStr : s.state.isQuotes = t.phase.lex.inStr
  inChr : s.state.issQuotes = t.phase.lex.inChr
  last : s.preChar = t.last
  behind : t.phase.Behind s.preChar s.isPreCharStr
  lineStart : s.state.isStartOfLine = true
  hash : s.state.isMacro = t.hash
  lastVis : s.state.lastPrtChar = t.lastVis
  parens : s.state.parentLev.toInt = t.ref.parens
  braces : s.state.brackLev.toInt = t.ref.braces
  pos : s.tNum = t.pos
  first : t.pos = 0 → t.phase = .code

theorem Sync.start : Sync Prepro.start Spot.start := by
  constructor <;> first | rfl | simp [Spot.start, Prepro.start, Phase.Behind]

@[simp] theorem refStep_lex (r : Ref) (ch : Char) : (refStep r ch).1.lex = r.lex.next ch := by
  simp only [refStep]
  split_ifs <;> rfl

theorem refStep_of_skips {r : Ref} {ch : Char} (h : r.lex.skips ch = true) :
    refStep r ch = ({ r with lex := r.lex.next ch }, none) := by
  rw [refStep, if_pos h]

theorem refStep_of_literal {r : Ref} {ch : Char} (h : r.lex.skips ch = false)
    (hlit : (r.lex.next ch).inStr = true ∨ (r.lex.next ch).inChr = true) :
    refStep r ch = ({ r with lex := r.lex.next ch },
      some ⟨(r.lex.next ch).inStr, (r.lex.next ch).inChr, r.parens, r.braces⟩) := by
  rw [refStep, h, if_neg Bool.false_ne_true, if_pos (Bool.or_eq_true_iff.mpr hlit)]

theorem refStep_of_code {r : Ref} {ch : Char} (h : r.lex.skips ch = false)
    (hstr : (r.lex.next ch).inStr = false) (hchr : (r.lex.next ch).inChr = false) :
    refStep r ch =
      (⟨r.lex.next ch, r.parens + nesting '(' ')' ch, r.braces + nesting '{' '}' ch⟩,
        some ⟨false, false, r.parens + nesting '(' ')' ch, r.braces + nesting '{' '}' ch⟩) := by
  rw [refStep, h, hstr, hchr, if_neg Bool.false_ne_true, Bool.or_false,
    if_neg Bool.false_ne_true]

/-- The status that a round starts with. -/
def Prepro.seen (s : Prepro) (ch : Char) : CharStatus :=
  if isVisChar ch then { s.state with lastPrtChar := ch } else s.state

theorem Prepro.seen_eq (s : Prepro) (ch : Char) :
    s.seen ch = { s.state with
      lastPrtChar := if isVisChar ch then ch else s.state.lastPrtChar } := by
  rw [seen]
  split_ifs <;> rfl

theorem preproStep_of_some {s : Prepro} {ch : Char} {st : CharStatus}
    (h : marks (s.seen ch) s.preChar ch = some st) :
    preproStep s ch = (⟨st, ch, s.isPreCharStr, s.tNum + 1⟩, none) := by
  rw [Prepro.seen] at h
  simp only [preproStep, h]

theorem preproStep_of_none {s : Prepro} {ch : Char}
    (h : marks (s.seen ch) s.preChar ch = none) :
    preproStep s ch =
      let q := quotes (directive (startOfLine (s.seen ch) ch) s.preChar ch s.tNum) s.preChar ch
        s.isPreCharStr
      (⟨levels q.1 ch s.tNum, ch, q.2, s.tNum + 1⟩, some (levels q.1 ch s.tNum)) := by
  rw [Prepro.seen] at h ⊢
  simp only [preproStep, h]

/-- The status that a round starts with has the marks and the literal of the one before. -/
theorem Sync.seen {s : Prepro} {t : Spot} (h : Sync s t) (ch : Char) :
    (s.seen ch).isMarkOne = t.phase.markOne ∧ (s.seen ch).isMarkMulti = t.phase.markMulti ∧
      (s.seen ch).isQuotes = t.phase.lex.inStr ∧ (s.seen ch).issQuotes = t.phase.lex.inChr := by
  rw [s.seen_eq]
  exact ⟨h.markOne, h.markMulti, h.inStr, h.inChr⟩

theorem Sync.marks_seen {s : Prepro} {t : Spot} {ch : Char} (h : Sync s t)
    (hslip : t.phase.slips ch = false) :
    marks (s.seen ch) s.preChar ch =
      if t.phase.lex.skips ch then
        some { s.seen ch with
          isMarkOne := (t.phase.next ch).markOne, isMarkMulti := (t.phase.next ch).markMulti }
      else none :=
  have hseen := h.seen ch
  marks_eq hseen.1 hseen.2.1 hseen.2.2.1 hseen.2.2.2 h.behind hslip

theorem Spot.phase_of_not_slips {t : Spot} {ch : Char} (h : ¬ t.Slips ch) :
    t.phase.slips ch = false := by
  rw [← Bool.not_eq_true]
  exact fun hphase => h (.inl hphase)

/-- A character of a comment. -/
theorem Sync.skip {s : Prepro} {t : Spot} {ch : Char} (h : Sync s t)
    (hslip : t.phase.slips ch = false) (hskip : t.phase.lex.skips ch = true) :
    Sync (preproStep s ch).1 (t.next ch) ∧ (preproStep s ch).2 = none := by
  have hmarks := h.marks_seen hslip
  rw [if_pos hskip] at hmarks
  have hlit := Lex.no_literal_of_skips hskip
  have hskip' : t.ref.lex.skips ch = true := h.lex ▸ hskip
  have href := refStep_of_skips hskip'
  have hhash : (t.next ch).hash = t.hash := if_pos hskip'
  rw [preproStep_of_some hmarks, s.seen_eq]
  refine ⟨?_, rfl⟩
  constructor
  case lex => rw [Spot.next, refStep_lex, ← h.lex, Phase.lex_next]
  case markOne => rfl
  case markMulti => rfl
  case inStr =>
    rw [Spot.next, Phase.lex_next, hlit.2.1]
    exact h.inStr.trans hlit.1.1
  case inChr =>
    rw [Spot.next, Phase.lex_next, hlit.2.2]
    exact h.inChr.trans hlit.1.2
  case last => rfl
  case behind => exact behind_of_skips hskip hslip
  case lineStart => exact h.lineStart
  case hash => exact h.hash.trans hhash.symm
  case lastVis => rw [Spot.next, ← h.lastVis]
  case parens =>
    rw [Spot.next, href]
    exact h.parens
  case braces =>
    rw [Spot.next, href]
    exact h.braces
  case pos => exact congrArg (· + 1) h.pos
  case first => exact fun hzero => absurd hzero (Nat.succ_ne_zero _)

/-- What a round makes of a character outside comments, up to the levels. -/
theorem Sync.preproStep_text {s : Prepro} {t : Spot} {ch : Char} (h : Sync s t)
    (hslip : t.phase.slips ch = false) (hskip : t.phase.lex.skips ch = false) :
    ∃ esc st, (t.phase.next ch).Behind ch esc ∧
      st = { s.seen ch with
        isMacro := (t.next ch).hash
        isQuotes := (t.phase.next ch).lex.inStr
        issQuotes := (t.phase.next ch).lex.inChr } ∧
      preproStep s ch =
        (⟨levels st ch s.tNum, ch, esc, s.tNum + 1⟩, some (levels st ch s.tNum)) := by
  have hmarks := h.marks_seen hslip
  rw [hskip, if_neg Bool.false_ne_true] at hmarks
  have hskip' : t.ref.lex.skips ch = false := h.lex ▸ hskip
  have hstart : (s.seen ch).isStartOfLine = true := by rw [s.seen_eq]; exact h.lineStart
  have hmacro : (s.seen ch).isMacro = t.hash := by rw [s.seen_eq]; exact h.hash
  have hhash : (t.next ch).hash =
      if t.hash && ch == enter then s.preChar == backslash else t.hash || ch == '#' := by
    rw [h.last]
    exact if_neg (by rw [hskip']; exact Bool.false_ne_true)
  have hdir : directive (startOfLine (s.seen ch) ch) s.preChar ch s.tNum =
      { s.seen ch with isMacro := (t.next ch).hash } := by
    rw [startOfLine_eq hstart, directive_eq hstart, hmacro, hhash]
  have hstr : ({ s.seen ch with isMacro := (t.next ch).hash } : CharStatus).isQuotes =
      t.phase.lex.inStr := by rw [s.seen_eq]; exact h.inStr
  have hchr : ({ s.seen ch with isMacro := (t.next ch).hash } : CharStatus).issQuotes =
      t.phase.lex.inChr := by rw [s.seen_eq]; exact h.inChr
  have hquotes := quotes_eq hstr hchr h.behind hskip hslip
  refine ⟨_, _, hquotes.2, hquotes.1, ?_⟩
  rw [preproStep_of_none hmarks, hdir]

/-- The levels of a character outside comments, and its record in the reference. -/
theorem Sync.levels_text {s : Prepro} {t : Spot} {ch : Char} (h : Sync s t)
    (hslip : ¬ t.Slips ch) (hskip : t.ref.lex.skips ch = false) {st : CharStatus}
    (hq : st.isQuotes = (t.ref.lex.next ch).inStr) (hs : st.issQuotes = (t.ref.lex.next ch).inChr)
    (hp : st.parentLev = s.state.parentLev) (hb : st.brackLev = s.state.brackLev) :
    (levels st ch s.tNum).parentLev.toInt = (t.next ch).ref.parens ∧
      (levels st ch s.tNum).brackLev.toInt = (t.next ch).ref.braces ∧
      (refStep t.ref ch).2 = some (levels st ch s.tNum).mark := by
  simp only [Spot.Slips, not_or, not_not] at hslip
  obtain ⟨-, hfirst, hfits⟩ := hslip
  have hp' : st.parentLev.toInt = t.ref.parens := by rw [hp, h.parens]
  have hb' : st.brackLev.toInt = t.ref.braces := by rw [hb, h.braces]
  rw [Spot.next] at hfits ⊢
  by_cases hlit : (t.ref.lex.next ch).inStr = true ∨ (t.ref.lex.next ch).inChr = true
  · have hsame : levels st ch s.tNum = st := levels_of_literal (by rw [hq, hs]; exact hlit)
    rw [refStep_of_literal hskip hlit, hsame, CharStatus.mark, hq, hs, hp', hb']
    exact ⟨rfl, rfl, rfl⟩
  · simp only [not_or, Bool.not_eq_true] at hlit
    rw [refStep_of_code hskip hlit.1 hlit.2] at hfits ⊢
    have hpos : s.tNum = 0 → ¬ (ch = '{' ∨ ch = '}' ∨ ch = '(' ∨ ch = ')') := by
      intro hzero hch
      exact hfirst ⟨h.pos ▸ hzero, hch⟩
    have hlev := levels_toInt (hq.trans hlit.1) (hs.trans hlit.2) hpos hp' hb' hfits
    refine ⟨hlev.1, hlev.2, ?_⟩
    rw [CharStatus.mark, hlev.1, hlev.2, levels_eq]
    simp only [hq, hs, hlit.1, hlit.2]

/-- A character outside comments. -/
theorem Sync.text {s : Prepro} {t : Spot} {ch : Char} (h : Sync s t) (hslip : ¬ t.Slips ch)
    (hskip : t.phase.lex.skips ch = false) :
    Sync (preproStep s ch).1 (t.next ch) ∧
      (preproStep s ch).2 = some (preproStep s ch).1.state ∧
      (refStep t.ref ch).2 = some (preproStep s ch).1.state.mark := by
  have hphase := Spot.phase_of_not_slips hslip
  obtain ⟨esc, st, hbehind, hst, hstep⟩ := h.preproStep_text hphase hskip
  have hskip' : t.ref.lex.skips ch = false := h.lex ▸ hskip
  have hlex : (t.phase.next ch).lex = t.ref.lex.next ch := by rw [Phase.lex_next, h.lex]
  have hmarks := marks_next hskip hphase
  rw [s.seen_eq] at hst
  have hq : st.isQuotes = (t.ref.lex.next ch).inStr := by rw [hst, hlex]
  have hs : st.issQuotes = (t.ref.lex.next ch).inChr := by rw [hst, hlex]
  have hlev := h.levels_text hslip hskip' hq hs (by rw [hst]) (by rw [hst])
  rw [hstep]
  refine ⟨?_, rfl, hlev.2.2⟩
  constructor
  case lex => rw [Spot.next, refStep_lex, hlex]
  case markOne =>
    rw [levels_eq, hst]
    exact h.markOne.trans hmarks.1.symm
  case markMulti =>
    rw [levels_eq, hst]
    exact h.markMulti.trans hmarks.2.symm
  case inStr => rw [levels_eq, hst]; rfl
  case inChr => rw [levels_eq, hst]; rfl
  case last => rfl
  case behind => exact hbehind
  case lineStart =>
    rw [levels_eq, hst]
    exact h.lineStart
  case hash => rw [levels_eq, hst]
  case lastVis =>
    rw [levels_eq, hst, Spot.next, ← h.lastVis]
  case parens => exact hlev.1
  case braces => exact hlev.2.1
  case pos => exact congrArg (· + 1) h.pos
  case first => exact fun hzero => absurd hzero (Nat.succ_ne_zero _)

/-- The depths in a record of the reference are those behind its character. -/
theorem refStep_record {r : Ref} {ch : Char} {m : Mark} (h : (refStep r ch).2 = some m) :
    m.parentLev = (refStep r ch).1.parens ∧ m.brackLev = (refStep r ch).1.braces := by
  rw [refStep] at h ⊢
  split_ifs at h ⊢
  · cases h
    exact ⟨rfl, rfl⟩
  · cases h
    exact ⟨rfl, rfl⟩

/-- The depths of a record of the scanner always fit. -/
theorem CharStatus.shallow (st : CharStatus) (l : Lex) :
    Spot.Shallow ⟨l, st.parentLev.toInt, st.brackLev.toInt⟩ :=
  ⟨st.parentLev.le_toInt, Int.le_of_lt_add_one st.parentLev.toInt_lt, st.brackLev.le_toInt,
    Int.le_of_lt_add_one st.brackLev.toInt_lt⟩

/-- Without a slip the scanner records what the lexer does, and stays in step with it. -/
theorem Sync.step {s : Prepro} {t : Spot} {ch : Char} (h : Sync s t) (hslip : ¬ t.Slips ch) :
    Sync (preproStep s ch).1 (t.next ch) ∧
      (preproStep s ch).2.map CharStatus.mark = (refStep t.ref ch).2 := by
  cases hskip : t.phase.lex.skips ch
  case false =>
    obtain ⟨hsync, hrec, href⟩ := h.text hslip hskip
    exact ⟨hsync, by rw [hrec, href, Option.map_some]⟩
  case true =>
    obtain ⟨hsync, hrec⟩ := h.skip (Spot.phase_of_not_slips hslip) hskip
    exact ⟨hsync, by rw [hrec, refStep_of_skips (h.lex ▸ hskip)]; rfl⟩

/-- Where the phase slips, one of the two has a record and the other has none. -/
theorem Sync.ne_of_phase_slips {s : Prepro} {t : Spot} {ch : Char} (h : Sync s t)
    (hslip : t.phase.slips ch = true) :
    (preproStep s ch).2.map CharStatus.mark ≠ (refStep t.ref ch).2 := by
  have hseen := h.seen ch
  have hmarks := isSome_marks_of_slips hseen.1 hseen.2.1 hseen.2.2.1 hseen.2.2.2 h.behind hslip
  rw [h.lex] at hmarks
  cases hsome : marks (s.seen ch) s.preChar ch
  case none =>
    rw [hsome] at hmarks
    have hskip : t.ref.lex.skips ch = true := by
      simpa using hmarks
    rw [preproStep_of_none hsome, refStep_of_skips hskip]
    exact Option.some_ne_none _
  case some st =>
    rw [hsome] at hmarks
    have hskip : t.ref.lex.skips ch = false := by
      simpa using hmarks
    rw [preproStep_of_some hsome, refStep, hskip, if_neg Bool.false_ne_true]
    split_ifs <;> exact (Option.some_ne_none _).symm

/-- A first character that changes a depth of the lexer changes no level. -/
theorem Sync.ne_of_first {s : Prepro} {t : Spot} {ch : Char} (h : Sync s t) (hpos : t.pos = 0)
    (hch : ch = '{' ∨ ch = '}' ∨ ch = '(' ∨ ch = ')') :
    (preproStep s ch).2.map CharStatus.mark ≠ (refStep t.ref ch).2 := by
  have hphase := h.first hpos
  have hlex : t.ref.lex = .code := by rw [← h.lex, hphase]; rfl
  have hskip : t.ref.lex.skips ch = false := by rw [hlex]; exact Lex.skips_code
  have hslip : t.phase.slips ch = false := by rw [hphase]; rfl
  obtain ⟨esc, st, -, hst, hstep⟩ := h.preproStep_text hslip (h.lex ▸ hskip)
  have hlev : levels st ch s.tNum = st := by
    rw [h.pos, hpos, levels, if_neg fun hpos => absurd hpos.1 (Nat.lt_irrefl 0)]
  have hnext : (Lex.next .code ch).inStr = false ∧ (Lex.next .code ch).inChr = false := by
    rcases hch with rfl | rfl | rfl | rfl <;> exact ⟨by decide, by decide⟩
  rw [hstep, hlev, refStep_of_code hskip (hlex ▸ hnext.1) (hlex ▸ hnext.2), Option.map_some]
  intro heq
  have hmark := Option.some_inj.mp heq
  have hp := congrArg Mark.parentLev hmark
  have hb := congrArg Mark.brackLev hmark
  rw [s.seen_eq] at hst
  simp only [CharStatus.mark, hst, h.parens, h.braces] at hp hb
  rcases hch with rfl | rfl | rfl | rfl <;> simp [nesting] at hp hb

/-- A record that the two agree on has depths that fit. -/
theorem Sync.shallow_of_eq {s : Prepro} {t : Spot} {ch : Char} (h : Sync s t)
    (heq : (preproStep s ch).2.map CharStatus.mark = (refStep t.ref ch).2) :
    Spot.Shallow (t.next ch).ref := by
  rw [Spot.next]
  cases hrec : (refStep t.ref ch).2
  case none =>
    have hskip : t.ref.lex.skips ch = true := by
      by_contra hskip
      rw [refStep, if_neg hskip] at hrec
      split_ifs at hrec
    rw [refStep_of_skips hskip, ← h.parens, ← h.braces]
    exact s.state.shallow _
  case some m =>
    rw [hrec, Option.map_eq_some_iff] at heq
    obtain ⟨st, -, hmark⟩ := heq
    have hfits := st.shallow (refStep t.ref ch).1.lex
    have hp : st.parentLev.toInt = _ := (congrArg Mark.parentLev hmark).trans
      (refStep_record hrec).1
    have hb : st.brackLev.toInt = _ := (congrArg Mark.brackLev hmark).trans
      (refStep_record hrec).2
    rwa [hp, hb] at hfits

/-- With a slip the records differ. -/
theorem Sync.ne_of_slips {s : Prepro} {t : Spot} {ch : Char} (h : Sync s t)
    (hslip : t.Slips ch) : (preproStep s ch).2.map CharStatus.mark ≠ (refStep t.ref ch).2 := by
  rcases hslip with hphase | ⟨hpos, hch⟩ | hdeep
  · exact h.ne_of_phase_slips hphase
  · exact h.ne_of_first hpos hch
  · exact fun heq => hdeep (h.shallow_of_eq heq)

end CCode.CodeAna
