import Mathlib.Tactic
import CCode.Lib.Transducer

/-!
# The source scanner of `code_ana`

`prepro` goes through a C source once and writes down, for every character that it does not
take for a part of a comment, whether it stands in a literal and how deep in braces and
parentheses. `findfunc` looks for the opening braces of function bodies in what it wrote.

A text is a list of characters, those of a file being the first 256.

## Main definitions

* `CharStatus`, `preproStep`, `prepro` — the scanner.
* `findfunc` — the search.
-/

namespace CCode.CodeAna

open CCode.Lib

/-- `ENTER`. -/
abbrev enter : Char := Char.ofNat 0x0a

/-- The character that delimits a character literal. -/
abbrev squote : Char := Char.ofNat 0x27

/-- The character that delimits a string literal. -/
abbrev dquote : Char := Char.ofNat 0x22

/-- The character that begins an escape sequence. -/
abbrev backslash : Char := Char.ofNat 0x5c

/-- `isVisChar`. -/
def isVisChar (ch : Char) : Bool := ' ' < ch && ch ≤ '~'

/-- `struct char_status`, less the field that is never used. The levels are `char`s, which
are signed. -/
structure CharStatus where
  isMarkOne : Bool
  isMarkMulti : Bool
  isMacro : Bool
  isQuotes : Bool
  issQuotes : Bool
  isStartOfLine : Bool
  lastPrtChar : Char
  parentLev : Int8
  brackLev : Int8
deriving DecidableEq

/-- A record that was cleared. -/
def CharStatus.zero : CharStatus :=
  ⟨false, false, false, false, false, false, Char.ofNat 0, 0, 0⟩

/-- The variables of `prepro`. -/
structure Prepro where
  state : CharStatus
  preChar : Char
  isPreCharStr : Bool
  tNum : ℕ

/-- The variables before the loop. -/
def Prepro.start : Prepro :=
  ⟨{ CharStatus.zero with isStartOfLine := true }, Char.ofNat 0, false, 0⟩

/-- The branches that end in `continue`: the character is in a comment, or begins one. -/
def marks (st : CharStatus) (preChar ch : Char) : Option CharStatus :=
  if st.isMarkOne then
    some (if ch = enter then { st with isMarkOne := false } else st)
  else if st.isMarkMulti then
    some (if ch = '/' ∧ preChar = '*' then { st with isMarkMulti := false } else st)
  else if ch = '*' ∧ preChar = '/' then some { st with isMarkMulti := true }
  else if st.isQuotes = false ∧ st.issQuotes = false ∧ ch = '/' ∧ preChar = '/' then
    some { st with isMarkOne := true }
  else none

/-- The value of `ch == 1`. -/
def isOne (ch : Char) : Char := if ch = Char.ofNat 1 then Char.ofNat 1 else Char.ofNat 0

/-- The start of a line. What is asked to be visible is the result of a comparison. -/
def startOfLine (st : CharStatus) (ch : Char) : CharStatus :=
  if ch = enter then { st with isStartOfLine := true }
  else if st.isStartOfLine = true ∧ isVisChar (isOne ch) then
    { st with isStartOfLine := false }
  else st

/-- The directives of the preprocessor. -/
def directive (st : CharStatus) (preChar ch : Char) (tNum : ℕ) : CharStatus :=
  if st.isMacro = true ∧ ch = enter then
    if preChar ≠ backslash then { st with isMacro := false } else st
  else if ch = '#' ∧ (tNum = 0 ∨ st.isStartOfLine = true) then { st with isMacro := true }
  else st

/-- The literals, with the new `isPreCharStr`. -/
def quotes (st : CharStatus) (preChar ch : Char) (isPreCharStr : Bool) : CharStatus × Bool :=
  if st.isQuotes = false ∧ ch = squote then
    if st.issQuotes then
      if isPreCharStr = false ∧ preChar = backslash then (st, true)
      else ({ st with issQuotes := !st.issQuotes }, false)
    else ({ st with issQuotes := !st.issQuotes }, false)
  else if st.issQuotes = false ∧ ch = dquote then
    if st.isQuotes then
      if isPreCharStr = false ∧ preChar = backslash then (st, true)
      else ({ st with isQuotes := !st.isQuotes }, false)
    else ({ st with isQuotes := !st.isQuotes }, false)
  else if (st.issQuotes = true ∨ st.isQuotes = true) ∧ isPreCharStr = false ∧
      preChar = backslash then (st, true)
  else (st, false)

/-- The levels. -/
def levels (st : CharStatus) (ch : Char) (tNum : ℕ) : CharStatus :=
  if tNum > 0 ∧ st.isQuotes = false ∧ st.issQuotes = false then
    if ch = '{' then { st with brackLev := st.brackLev + 1 }
    else if ch = '}' then { st with brackLev := st.brackLev - 1 }
    else if ch = '(' then { st with parentLev := st.parentLev + 1 }
    else if ch = ')' then { st with parentLev := st.parentLev - 1 }
    else st
  else st

/-- One round of the loop of `prepro`, with what is written to `cState[tNum]`, if anything. -/
def preproStep (s : Prepro) (ch : Char) : Prepro × Option CharStatus :=
  let st := if isVisChar ch then { s.state with lastPrtChar := ch } else s.state
  match marks st s.preChar ch with
  | some st => (⟨st, ch, s.isPreCharStr, s.tNum + 1⟩, none)
  | none =>
      let st := directive (startOfLine st ch) s.preChar ch s.tNum
      let q := quotes st s.preChar ch s.isPreCharStr
      let st := levels q.1 ch s.tNum
      (⟨st, ch, q.2, s.tNum + 1⟩, some st)

/-- `prepro`: for each character the record that is written, if one is. -/
def prepro (file : List Char) : List (Option CharStatus) := outputs preproStep Prepro.start file

/-- The records of a file, which are cleared before `prepro` writes them. -/
def statuses (file : List Char) : List CharStatus :=
  (prepro file).map (·.getD CharStatus.zero)

/-- The test of `findfunc` on a record and the one before it. -/
def opensFunc (prev cur : CharStatus) : Bool :=
  cur.lastPrtChar == '{' && prev.lastPrtChar == ')' && cur.parentLev == 0 && cur.brackLev == 1 &&
    cur.isMarkOne == false && cur.isMarkMulti == false && cur.isMacro == false &&
    cur.isQuotes == false

/-- The loop of `findfunc` from index `i`, with the record before it. -/
def findfuncLoop (bufSize : ℤ) : ℕ → CharStatus → List CharStatus → List ℕ → List ℕ
  | _, _, [], buf => buf
  | i, prev, cur :: rest, buf =>
      if opensFunc prev cur then
        if (buf ++ [i]).length = bufSize then buf ++ [i]
        else findfuncLoop bufSize (i + 1) cur rest (buf ++ [i])
      else findfuncLoop bufSize (i + 1) cur rest buf

/-- `findfunc`: what is in `buf` when it returns. -/
def findfunc (chStatus : List CharStatus) (bufSize : ℤ) : List ℕ :=
  match chStatus with
  | [] => []
  | prev :: rest => findfuncLoop bufSize 1 prev rest []

end CCode.CodeAna
