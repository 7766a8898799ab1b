import CCode.CodeAna.Lexer

/-!
# Where the scanner goes wrong

`prepro` keeps one character of memory. It takes the two characters that begin a block
comment for that in a literal too, it lets the slash that ends a block comment begin the next
comment, and it takes the first slash behind the two that begin a block comment for the one
that ends it. The first character of a text is not counted, the depths are bytes, and
`findfunc` does not look whether a brace stands in a character literal.

`prepro_agrees_iff` says that these are all: on a text without them the scanner agrees with
the lexer.

## Main definitions

* `Phase` — what a reader who knows the scanner's mistakes remembers.
* `Spot` — the phase, and what `findfunc` goes by.
* `Spot.Slips`, `Spot.MisledBy` — the characters on which the scanner and the search fail.
-/

namespace CCode.CodeAna

open CCode.Lib

/-! ## The text as the scanner misreads it -/

/-- The states of the lexer, divided by what the scanner makes of them.

* `closed`: just behind a block comment.
* `opened`: just behind the two characters that begin a block comment.
* `fakeEnd`: behind a slash that comes next, where the scanner takes the comment for ended.
* `fakeLine`, `fakeLineStar`: after one more slash, where the scanner takes it for a line
  comment.
* `fakeOver`, `fakeClosed`: where that line ends in the comment, and where the comment ends in
  that line.
* `strSlash`, `chrSlash`: in a literal, behind a slash. -/
inductive Phase
  | code | slash | closed | line
  | opened | block | star | fakeEnd | fakeLine | fakeLineStar | fakeOver | fakeClosed
  | str | strSlash | strEsc | chr | chrSlash | chrEsc
deriving DecidableEq

namespace Phase

/-- The state of the lexer. -/
def lex : Phase → Lex
  | .code | .closed | .fakeClosed => .code
  | .slash => .slash
  | .line => .line
  | .opened | .block | .fakeEnd | .fakeLine | .fakeOver => .block
  | .star | .fakeLineStar => .star
  | .str | .strSlash => .str
  | .strEsc => .strEsc
  | .chr | .chrSlash => .chr
  | .chrEsc => .chrEsc

/-- A character of the program that ends no comment and begins none. -/
def ofCode (ch : Char) : Phase :=
  if ch = '/' then .slash else if ch = dquote then .str else if ch = squote then .chr else .code

/-- A character of a block comment that does not end it. -/
def ofBlock (ch : Char) : Phase := if ch = '*' then .star else .block

/-- A character of a string literal. -/
def ofStr (ch : Char) : Phase :=
  if ch = dquote then .code else if ch = backslash then .strEsc
  else if ch = '/' then .strSlash else .str

/-- A character of a character literal. -/
def ofChr (ch : Char) : Phase :=
  if ch = squote then .code else if ch = backslash then .chrEsc
  else if ch = '/' then .chrSlash else .chr

/-- One more character. -/
def next : Phase → Char → Phase
  | .code, ch | .closed, ch | .fakeClosed, ch => ofCode ch
  | .slash, ch => if ch = '*' then .opened else if ch = '/' then .line else ofCode ch
  | .line, ch => if ch = enter then .code else .line
  | .opened, ch => if ch = '/' then .fakeEnd else ofBlock ch
  | .block, ch | .fakeOver, ch => ofBlock ch
  | .star, ch => if ch = '/' then .closed else ofBlock ch
  | .fakeEnd, ch => if ch = '/' then .fakeLine else ofBlock ch
  | .fakeLine, ch =>
      if ch = enter then .fakeOver else if ch = '*' then .fakeLineStar else .fakeLine
  | .fakeLineStar, ch =>
      if ch = enter then .fakeOver else if ch = '/' then .fakeClosed
      else if ch = '*' then .fakeLineStar else .fakeLine
  | .str, ch | .strSlash, ch => ofStr ch
  | .strEsc, ch => if ch = '/' then .strSlash else .str
  | .chr, ch | .chrSlash, ch => ofChr ch
  | .chrEsc, ch => if ch = '/' then .chrSlash else .chr

/-- The scanner takes the next character for part of a comment and it is not, or the other
way round. -/
def slips : Phase → Char → Bool
  | .strSlash, ch | .chrSlash, ch => ch == '*'
  | .closed, ch => ch == '*' || ch == '/'
  | .fakeEnd, ch => ch != '*' && ch != '/'
  | .fakeOver, _ | .fakeClosed, _ => true
  | _, _ => false

end Phase

/-- What there is to know after the first characters of a text: the lexer, the phase, the last
character, the last visible one, whether the line has had a `#` outside comments (as long as
it is continued by backslashes), and the number of characters. -/
structure Spot where
  ref : Ref
  phase : Phase
  last : Char
  lastVis : Char
  hash : Bool
  pos : ℕ

namespace Spot

/-- Before the first character. -/
def start : Spot := ⟨Ref.start, .code, Char.ofNat 0, Char.ofNat 0, false, 0⟩

/-- One more character. -/
def next (t : Spot) (ch : Char) : Spot where
  ref := (refStep t.ref ch).1
  phase := t.phase.next ch
  last := ch
  lastVis := if isVisChar ch then ch else t.lastVis
  hash :=
    if t.ref.lex.skips ch then t.hash
    else if t.hash && ch == enter then t.last == backslash
    else t.hash || ch == '#'
  pos := t.pos + 1

/-- The depths are `char`s. -/
def Shallow (r : Ref) : Prop :=
  -128 ≤ r.parens ∧ r.parens ≤ 127 ∧ -128 ≤ r.braces ∧ r.braces ≤ 127

instance (r : Ref) : Decidable (Shallow r) := inferInstanceAs (Decidable (_ ∧ _ ∧ _ ∧ _))

/-- The record of the next character is wrong: the scanner slips, the character is the first
one and a brace or a parenthesis, or a depth does not fit. -/
def Slips (t : Spot) (ch : Char) : Prop :=
  t.phase.slips ch = true ∨
    t.pos = 0 ∧ (ch = '{' ∨ ch = '}' ∨ ch = '(' ∨ ch = ')') ∨
    ¬ Shallow (t.next ch).ref

instance (t : Spot) (ch : Char) : Decidable (t.Slips ch) :=
  inferInstanceAs (Decidable (_ ∨ _ ∨ _))

/-- `findfunc` takes the next character, which is in a character literal, for the brace that
opens a function. -/
def MisledBy (t : Spot) (ch : Char) : Prop :=
  ch = '{' ∧ t.ref.lex.inChr = true ∧ t.lastVis = ')' ∧ t.ref.parens = 0 ∧ t.ref.braces = 1 ∧
    t.hash = false

instance (t : Spot) (ch : Char) : Decidable (t.MisledBy ch) :=
  inferInstanceAs (Decidable (_ ∧ _ ∧ _ ∧ _ ∧ _ ∧ _))

end Spot

/-- After the first characters of a text. -/
def spot (text : List Char) : Spot := text.foldl Spot.next Spot.start

/-! ## Phases -/

namespace Phase

/-- The phases follow the lexer. -/
theorem lex_next (p : Phase) (ch : Char) : (p.next ch).lex = p.lex.next ch := by
  cases p <;> simp only [next, lex, Lex.next, ofCode, ofBlock, ofStr, ofChr, Lex.ofCode] <;>
    split_ifs <;> simp_all [enter]

/-- `isMark_one` in a phase. -/
def markOne : Phase → Bool
  | .line | .fakeLine | .fakeLineStar | .fakeClosed => true
  | _ => false

/-- `isMark_multi` in a phase. -/
def markMulti : Phase → Bool
  | .opened | .block | .star => true
  | _ => false

/-- `preChar` and `isPreCharStr` in a phase. -/
def Behind : Phase → Char → Bool → Prop
  | .code, ch, _ | .fakeOver, ch, _ => ch ≠ '/'
  | .slash, ch, _ | .closed, ch, _ | .fakeEnd, ch, _ => ch = '/'
  | .strSlash, ch, _ | .chrSlash, ch, _ => ch = '/'
  | .opened, ch, _ | .star, ch, _ => ch = '*'
  | .block, ch, _ => ch ≠ '*'
  | .line, _, _ | .fakeLine, _, _ | .fakeLineStar, _, _ | .fakeClosed, _, _ => True
  | .str, ch, esc | .chr, ch, esc => ch ≠ '/' ∧ ¬ (esc = false ∧ ch = backslash)
  | .strEsc, ch, esc | .chrEsc, ch, esc => esc = false ∧ ch = backslash

end Phase

namespace Lex

variable {ch : Char}

theorem inComment_ofCode : (ofCode ch).inComment = false := by
  unfold ofCode; split_ifs <;> rfl

@[simp] theorem skips_code : skips .code ch = false := inComment_ofCode

@[simp] theorem skips_slash : skips .slash ch = (ch == '*' || ch == '/') := by
  by_cases hstar : ch = '*'
  · simp [skips, next, hstar, inComment]
  · by_cases hslash : ch = '/'
    · simp [skips, next, hslash, inComment]
    · rw [skips, next, if_neg hstar, if_neg hslash, inComment_ofCode]
      simp [hstar, hslash, inComment]

@[simp] theorem skips_line : skips .line ch = true := rfl
@[simp] theorem skips_block : skips .block ch = true := rfl
@[simp] theorem skips_star : skips .star ch = true := rfl
@[simp] theorem skips_strEsc : skips .strEsc ch = false := rfl
@[simp] theorem skips_chrEsc : skips .chrEsc ch = false := rfl

@[simp] theorem skips_str : skips .str ch = false := by
  simp only [skips, next]; split_ifs <;> rfl

@[simp] theorem skips_chr : skips .chr ch = false := by
  simp only [skips, next]; split_ifs <;> rfl

/-- Neither before nor behind a character of a comment is a literal. -/
theorem no_literal_of_skips {l : Lex} (h : l.skips ch = true) :
    (l.inStr = false ∧ l.inChr = false) ∧
      (l.next ch).inStr = false ∧ (l.next ch).inChr = false := by
  cases l
  case slash =>
    simp only [skips_slash, Bool.or_eq_true, beq_iff_eq] at h
    rcases h with rfl | rfl <;> exact ⟨⟨rfl, rfl⟩, rfl, rfl⟩
  case line | block | star =>
    simp only [next]
    split_ifs <;> exact ⟨⟨rfl, rfl⟩, rfl, rfl⟩
  all_goals simp at h

end Lex

section Marks

variable {p : Phase} {st : CharStatus} {pre ch : Char} {esc : Bool}

/-- Where the scanner does not slip, it skips what the lexer does. -/
theorem marks_eq (hone : st.isMarkOne = p.markOne) (hmulti : st.isMarkMulti = p.markMulti)
    (hq : st.isQuotes = p.lex.inStr) (hs : st.issQuotes = p.lex.inChr) (hb : p.Behind pre esc)
    (hslip : p.slips ch = false) :
    marks st pre ch =
      if p.lex.skips ch then
        some { st with isMarkOne := (p.next ch).markOne, isMarkMulti := (p.next ch).markMulti }
      else none := by
  obtain ⟨one, multi, mac, q, sq, sol, vis, pl, bl⟩ := st
  simp only at hone hmulti hq hs
  subst hone hmulti hq hs
  cases p
  case code | closed | str | strSlash | strEsc | chr | chrSlash | chrEsc =>
    simp_all [marks, Phase.slips, Phase.Behind, Phase.lex, Phase.markOne, Phase.markMulti,
      Lex.inStr, Lex.inChr, backslash]
  case slash | fakeEnd =>
    have hpre : pre = '/' := hb
    by_cases hstar : ch = '*'
    · simp [hpre, hstar, marks, Phase.markOne, Phase.markMulti, Phase.lex, Phase.next,
        Phase.ofBlock]
    · by_cases hslash : ch = '/'
      · simp [hpre, hslash, marks, Phase.markOne, Phase.markMulti, Phase.lex, Phase.next,
          Lex.inStr, Lex.inChr]
      · simp_all [marks, Phase.markOne, Phase.markMulti, Phase.lex, Phase.slips]
  case opened | block | star =>
    by_cases hslash : ch = '/'
    · simp_all [marks, Phase.markOne, Phase.markMulti, Phase.lex, Phase.next, Phase.ofBlock,
        Phase.Behind]
    · by_cases hstar : ch = '*' <;>
        simp [hslash, hstar, marks, Phase.markOne, Phase.markMulti, Phase.lex, Phase.next,
          Phase.ofBlock]
  case line | fakeLine | fakeLineStar =>
    by_cases henter : ch = enter
    · simp [henter, marks, Phase.markOne, Phase.markMulti, Phase.lex, Phase.next]
    · by_cases hstar : ch = '*'
      · simp [hstar, enter, marks, Phase.markOne, Phase.markMulti, Phase.lex, Phase.next]
      · by_cases hslash : ch = '/'
        · simp [hslash, enter, marks, Phase.markOne, Phase.markMulti, Phase.lex, Phase.next]
        · simp [henter, hstar, hslash, marks, Phase.markOne, Phase.markMulti, Phase.lex,
            Phase.next]
  case fakeOver | fakeClosed => cases hslip

/-- Where it slips, it skips what the lexer does not, or the other way round. -/
theorem isSome_marks_of_slips (hone : st.isMarkOne = p.markOne)
    (hmulti : st.isMarkMulti = p.markMulti) (hq : st.isQuotes = p.lex.inStr)
    (hs : st.issQuotes = p.lex.inChr) (hb : p.Behind pre esc) (hslip : p.slips ch = true) :
    (marks st pre ch).isSome = !p.lex.skips ch := by
  cases p
  case closed =>
    simp only [Phase.slips, Bool.or_eq_true, beq_iff_eq] at hslip
    rcases hslip with rfl | rfl <;>
      simp_all [marks, Phase.Behind, Phase.lex, Phase.markOne, Phase.markMulti, Lex.inStr,
        Lex.inChr]
  case strSlash | chrSlash | fakeEnd | fakeOver | fakeClosed =>
    simp_all [marks, Phase.slips, Phase.Behind, Phase.lex, Phase.markOne, Phase.markMulti,
      Lex.inStr, Lex.inChr]
  all_goals cases hslip

/-- Outside comments the marks stay. -/
theorem marks_next (hskip : p.lex.skips ch = false) (hslip : p.slips ch = false) :
    (p.next ch).markOne = p.markOne ∧ (p.next ch).markMulti = p.markMulti := by
  cases p
  case slash =>
    simp only [Phase.lex, Lex.skips_slash, Bool.or_eq_false_iff, beq_eq_false_iff_ne] at hskip
    simp only [Phase.next, if_neg hskip.1, if_neg hskip.2, Phase.ofCode]
    split_ifs <;> exact ⟨rfl, rfl⟩
  case code | closed | str | strSlash | strEsc | chr | chrSlash | chrEsc =>
    simp only [Phase.next, Phase.ofCode, Phase.ofStr, Phase.ofChr]
    split_ifs <;> exact ⟨rfl, rfl⟩
  case fakeClosed => cases hslip
  all_goals simp [Phase.lex] at hskip

/-- What the scanner remembers behind a character of a comment. -/
theorem behind_of_skips (hskip : p.lex.skips ch = true) (hslip : p.slips ch = false) :
    (p.next ch).Behind ch esc := by
  cases p
  case slash =>
    simp only [Phase.lex, Lex.skips_slash, Bool.or_eq_true, beq_iff_eq] at hskip
    rcases hskip with rfl | rfl <;> simp [Phase.next, Phase.Behind]
  case fakeEnd =>
    by_cases hstar : ch = '*'
    · simp [hstar, Phase.next, Phase.ofBlock, Phase.Behind]
    · simp_all [Phase.slips, Phase.next, Phase.Behind]
  case line | fakeLine | fakeLineStar =>
    simp only [Phase.next]
    split_ifs <;> simp_all [Phase.Behind, enter]
  case opened | block | star | fakeOver =>
    simp only [Phase.next, Phase.ofBlock]
    split_ifs <;> simp_all [Phase.Behind]
  all_goals simp [Phase.lex] at hskip

/-- A character of the program. -/
theorem quotes_ofCode (hq : st.isQuotes = false) (hs : st.issQuotes = false) :
    (quotes st pre ch esc).1 = { st with
      isQuotes := (Phase.ofCode ch).lex.inStr, issQuotes := (Phase.ofCode ch).lex.inChr } ∧
    (Phase.ofCode ch).Behind ch (quotes st pre ch esc).2 := by
  obtain ⟨one, multi, mac, q, sq, sol, vis, pl, bl⟩ := st
  simp only at hq hs
  subst hq hs
  by_cases hslash : ch = '/'
  · simp [quotes, hslash, Phase.ofCode, Phase.lex, Lex.inStr, Lex.inChr, Phase.Behind, squote,
      dquote]
  · by_cases hdquote : ch = dquote
    · simp [quotes, hdquote, Phase.ofCode, Phase.lex, Lex.inStr, Lex.inChr, Phase.Behind,
        squote, dquote, backslash]
    · by_cases hsquote : ch = squote
      · simp [quotes, hsquote, Phase.ofCode, Phase.lex, Lex.inStr, Lex.inChr, Phase.Behind,
          squote, dquote, backslash]
      · simp [quotes, hslash, hdquote, hsquote, Phase.ofCode, Phase.lex, Lex.inStr, Lex.inChr,
          Phase.Behind]

/-- A character of a string literal that no escape sequence takes. -/
theorem quotes_ofStr (hq : st.isQuotes = true) (hs : st.issQuotes = false)
    (hesc : ¬ (esc = false ∧ pre = backslash)) :
    (quotes st pre ch esc).1 = { st with
      isQuotes := (Phase.ofStr ch).lex.inStr, issQuotes := (Phase.ofStr ch).lex.inChr } ∧
    (Phase.ofStr ch).Behind ch (quotes st pre ch esc).2 := by
  obtain ⟨one, multi, mac, q, sq, sol, vis, pl, bl⟩ := st
  simp only at hq hs
  subst hq hs
  by_cases hdquote : ch = dquote
  · simp [quotes, hesc, hdquote, Phase.ofStr, Phase.lex, Lex.inStr, Lex.inChr, Phase.Behind,
      squote, dquote]
  · by_cases hback : ch = backslash
    · simp [quotes, hesc, hback, Phase.ofStr, Phase.lex, Lex.inStr, Lex.inChr, Phase.Behind,
        dquote, backslash]
    · by_cases hslash : ch = '/'
      · simp [quotes, hesc, hslash, Phase.ofStr, Phase.lex, Lex.inStr, Lex.inChr, Phase.Behind,
          dquote, backslash]
      · simp [quotes, hesc, hslash, hdquote, hback, Phase.ofStr, Phase.lex, Lex.inStr, Lex.inChr,
          Phase.Behind]

/-- A character of a character literal that no escape sequence takes. -/
theorem quotes_ofChr (hq : st.isQuotes = false) (hs : st.issQuotes = true)
    (hesc : ¬ (esc = false ∧ pre = backslash)) :
    (quotes st pre ch esc).1 = { st with
      isQuotes := (Phase.ofChr ch).lex.inStr, issQuotes := (Phase.ofChr ch).lex.inChr } ∧
    (Phase.ofChr ch).Behind ch (quotes st pre ch esc).2 := by
  obtain ⟨one, multi, mac, q, sq, sol, vis, pl, bl⟩ := st
  simp only at hq hs
  subst hq hs
  by_cases hsquote : ch = squote
  · simp [quotes, hesc, hsquote, Phase.ofChr, Phase.lex, Lex.inStr, Lex.inChr, Phase.Behind,
      squote]
  · by_cases hback : ch = backslash
    · simp [quotes, hesc, hback, Phase.ofChr, Phase.lex, Lex.inStr, Lex.inChr, Phase.Behind,
        squote, backslash]
    · by_cases hslash : ch = '/'
      · simp [quotes, hesc, hslash, Phase.ofChr, Phase.lex, Lex.inStr, Lex.inChr, Phase.Behind,
          squote, backslash]
      · simp [quotes, hesc, hslash, hsquote, hback, Phase.ofChr, Phase.lex, Lex.inStr, Lex.inChr,
          Phase.Behind]

theorem CharStatus.eq_of_literal (st : CharStatus) {q s : Bool} (hq : st.isQuotes = q)
    (hs : st.issQuotes = s) : st = { st with isQuotes := q, issQuotes := s } := by
  subst hq hs
  rfl

/-- A character that an escape sequence takes. -/
theorem quotes_escaped (hq : st.isQuotes = true ∧ st.issQuotes = false ∨
      st.isQuotes = false ∧ st.issQuotes = true) :
    quotes st backslash ch false = (st, true) := by
  rcases hq with ⟨hq, hs⟩ | ⟨hq, hs⟩
  · simp [quotes, hq, hs]
  · simp [quotes, hq, hs]

/-- Where the scanner neither skips nor slips, it goes from one literal to the next with the
lexer. -/
theorem quotes_eq (hq : st.isQuotes = p.lex.inStr) (hs : st.issQuotes = p.lex.inChr)
    (hb : p.Behind pre esc) (hskip : p.lex.skips ch = false) (hslip : p.slips ch = false) :
    (quotes st pre ch esc).1 = { st with
      isQuotes := (p.next ch).lex.inStr, issQuotes := (p.next ch).lex.inChr } ∧
    (p.next ch).Behind ch (quotes st pre ch esc).2 := by
  cases p
  case code | closed => exact quotes_ofCode hq hs
  case slash =>
    simp only [Phase.lex, Lex.skips_slash, Bool.or_eq_false_iff, beq_eq_false_iff_ne] at hskip
    simp only [Phase.next, if_neg hskip.1, if_neg hskip.2]
    exact quotes_ofCode hq hs
  case str => exact quotes_ofStr hq hs hb.2
  case chr => exact quotes_ofChr hq hs hb.2
  case strSlash =>
    have hpre : pre = '/' := hb
    exact quotes_ofStr hq hs (by simp [hpre, backslash])
  case chrSlash =>
    have hpre : pre = '/' := hb
    exact quotes_ofChr hq hs (by simp [hpre, backslash])
  case strEsc =>
    obtain ⟨rfl, rfl⟩ := hb
    rw [quotes_escaped (.inl ⟨hq, hs⟩)]
    simp only [Phase.next]
    split_ifs with hslash
    · exact ⟨st.eq_of_literal hq hs, hslash⟩
    · exact ⟨st.eq_of_literal hq hs, hslash, by simp⟩
  case chrEsc =>
    obtain ⟨rfl, rfl⟩ := hb
    rw [quotes_escaped (.inr ⟨hq, hs⟩)]
    simp only [Phase.next]
    split_ifs with hslash
    · exact ⟨st.eq_of_literal hq hs, hslash⟩
    · exact ⟨st.eq_of_literal hq hs, hslash, by simp⟩
  case fakeClosed | fakeOver | line | opened | block | star | fakeEnd | fakeLine | fakeLineStar =>
    simp_all [Phase.lex, Phase.slips]

end Marks

end CCode.CodeAna
