import CCode.CodeAna.Prepro

/-!
# A lexer for comments and literals

What the records of `prepro` are to say. A comment begins outside literals only, a block
comment ends at the first `*` and `/` behind the two characters that begin it, a line comment
with its line, and a literal at the first delimiter that no escape sequence takes. Braces and
parentheses count where they are neither in a comment nor in a literal.

Two conventions follow the scanner, so that they make no difference to it. The slash that
begins a comment counts as a character of the program, since what it begins is not known
yet; and the end of line that ends a line comment belongs to it.

## Main definitions

* `Lex`, `Lex.next` — the lexer.
* `refStep`, `reference` — the records that it makes.
* `Agrees` — what is asked of `prepro` and `findfunc`.
-/

namespace CCode.CodeAna

open CCode.Lib

/-- Where a character ends: in the program (just behind a slash or not), in a line comment, in
a block comment (just behind a star or not), or in a literal (just behind the backslash of
an escape sequence or not). -/
inductive Lex
  | code | slash | line | block | star | str | strEsc | chr | chrEsc
deriving DecidableEq

namespace Lex

/-- A character of the program that ends no comment and begins none. -/
def ofCode (ch : Char) : Lex :=
  if ch = '/' then .slash else if ch = dquote then .str else if ch = squote then .chr else .code

/-- One more character. -/
def next : Lex → Char → Lex
  | .code, ch => ofCode ch
  | .slash, ch => if ch = '*' then .block else if ch = '/' then .line else ofCode ch
  | .line, ch => if ch = enter then .code else .line
  | .block, ch => if ch = '*' then .star else .block
  | .star, ch => if ch = '/' then .code else if ch = '*' then .star else .block
  | .str, ch => if ch = dquote then .code else if ch = backslash then .strEsc else .str
  | .strEsc, _ => .str
  | .chr, ch => if ch = squote then .code else if ch = backslash then .chrEsc else .chr
  | .chrEsc, _ => .chr

/-- In a comment. -/
def inComment : Lex → Bool
  | .line | .block | .star => true
  | _ => false

/-- In a string literal. -/
def inStr : Lex → Bool
  | .str | .strEsc => true
  | _ => false

/-- In a character literal. -/
def inChr : Lex → Bool
  | .chr | .chrEsc => true
  | _ => false

/-- The next character is part of a comment: there is one before it or behind it. -/
def skips (l : Lex) (ch : Char) : Bool := l.inComment || (l.next ch).inComment

end Lex

/-- What an opening and a closing character change. -/
def nesting (opening closing ch : Char) : ℤ :=
  if ch = opening then 1 else if ch = closing then -1 else 0

/-- The state of the lexer, with the depths. -/
structure Ref where
  lex : Lex
  parens : ℤ
  braces : ℤ

/-- Before the first character. -/
def Ref.start : Ref := ⟨.code, 0, 0⟩

/-- What is to be known of a character outside comments. Of the delimiters of a literal the
first is inside and the last is outside. -/
structure Mark where
  isQuotes : Bool
  issQuotes : Bool
  parentLev : ℤ
  brackLev : ℤ
deriving DecidableEq

/-- One character, with its record unless it is part of a comment. -/
def refStep (r : Ref) (ch : Char) : Ref × Option Mark :=
  let lex := r.lex.next ch
  if r.lex.skips ch then ({ r with lex }, none)
  else if lex.inStr || lex.inChr then
    ({ r with lex }, some ⟨lex.inStr, lex.inChr, r.parens, r.braces⟩)
  else
    let parens := r.parens + nesting '(' ')' ch
    let braces := r.braces + nesting '{' '}' ch
    (⟨lex, parens, braces⟩, some ⟨false, false, parens, braces⟩)

/-- The records of a text. -/
def reference (text : List Char) : List (Option Mark) := outputs refStep Ref.start text

/-- What a record of `prepro` says. -/
def CharStatus.mark (st : CharStatus) : Mark :=
  ⟨st.isQuotes, st.issQuotes, st.parentLev.toInt, st.brackLev.toInt⟩

/-- `prepro` writes a record for the characters outside comments, each with the literal that it
is in and the depths, and what `findfunc` reports then is in no comment and in no literal. -/
def Agrees (text : List Char) : Prop :=
  (prepro text).map (Option.map CharStatus.mark) = reference text ∧
    ∀ bufSize, ∀ i ∈ findfunc (statuses text) bufSize,
      ∃ m, (reference text)[i]? = some (some m) ∧ m.isQuotes = false ∧ m.issQuotes = false

end CCode.CodeAna
