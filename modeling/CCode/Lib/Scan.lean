import Mathlib.Data.List.Basic
import Mathlib.Tactic

/-!
# Conversions of `sscanf` and `printf`

Text is a list of bytes; a C string is what is before the first NUL. The conversions `%s`
and `%d` skip white space, take the longest match, and give back the rest of the text, or
nothing if there is no match, in which case `sscanf` stops and the variables keep their
values. `%d` goes through `strtol`, whose 64-bit result is cut down to an `int`.

## Main definitions

* `ascii`, `printD` — texts.
* `cString` — the string in a buffer.
* `scanS`, `scanD` — the conversions.
-/

namespace CCode.Lib

/-- The bytes of a text. -/
def ascii (s : String) : List UInt8 := s.toList.map fun c => UInt8.ofNat c.toNat

/-- `%d` of `printf`. -/
def printD (v : Int) : List UInt8 := ascii (toString v)

/-- The string at the start of a buffer, `none` if nothing in the buffer ends it. -/
def cString (buf : List UInt8) : Option (List UInt8) :=
  if 0 ∈ buf then some (buf.takeWhile (· ≠ 0)) else none

/-- `isspace`. -/
def isSpace (c : UInt8) : Bool := c == 32 || (9 ≤ c && c ≤ 13)

/-- `isdigit`. -/
def isDigit (c : UInt8) : Bool := 48 ≤ c && c ≤ 57

/-- The number that the digits stand for. -/
def decimal (ds : List UInt8) : ℕ := ds.foldl (fun n d => 10 * n + (d.toNat - 48)) 0

/-- The `int` that `%d` stores: the number as `strtol` bounds it, of which the low 32 bits
are kept. -/
def toInt (neg : Bool) (n : ℕ) : UInt32 :=
  let v : Int := if neg then max (-(n : Int)) (-2 ^ 63) else min n (2 ^ 63 - 1)
  UInt32.ofNat (v % 2 ^ 32).toNat

/-- `%s`: the word, and the rest of the text. -/
def scanS (s : List UInt8) : Option (List UInt8 × List UInt8) :=
  let s := s.dropWhile isSpace
  let word := s.takeWhile fun c => !isSpace c
  if word = [] then none else some (word, s.dropWhile fun c => !isSpace c)

/-- `%d`: the number, and the rest of the text. -/
def scanD (s : List UInt8) : Option (UInt32 × List UInt8) :=
  let s := s.dropWhile isSpace
  let neg := s.head? == some 45
  let s := if s.head? = some 45 ∨ s.head? = some 43 then s.tail else s
  let ds := s.takeWhile isDigit
  if ds = [] then none else some (toInt neg (decimal ds), s.dropWhile isDigit)

/-- The character of a digit. -/
def digit (d : ℕ) : UInt8 := UInt8.ofNat (48 + d)

theorem digit_spec : ∀ d < 10, isSpace (digit d) = false ∧ isDigit (digit d) = true ∧
    digit d ≠ 45 ∧ digit d ≠ 43 ∧ toInt false (decimal [digit d]) = UInt32.ofNat d := by
  decide

/-- A digit between white space is read as itself, whatever follows. -/
theorem scanD_digit {d : ℕ} (hd : d < 10) {b e : UInt8} (hb : isSpace b = true)
    (he : isDigit e = false) (rest : List UInt8) :
    scanD (b :: digit d :: e :: rest) = some (UInt32.ofNat d, e :: rest) := by
  obtain ⟨hspace, hdigit, hminus, hplus, hval⟩ := digit_spec d hd
  have hneg : (digit d == 45) = false := beq_false_of_ne hminus
  simp [scanD, hb, he, hspace, hdigit, hminus, hplus, hneg, hval]

/-- The first word of a text, whatever follows. -/
theorem scanS_word {w : List UInt8} {b : UInt8} (hne : w ≠ [])
    (hw : (w.all fun c => !isSpace c) = true) (hb : isSpace b = true) (rest : List UInt8) :
    scanS (w ++ b :: rest) = some (w, b :: rest) := by
  have hall := List.all_eq_true.mp hw
  have hend : (!isSpace b) = false := by
    rw [hb]
    rfl
  have hskip : (w ++ b :: rest).dropWhile isSpace = w ++ b :: rest := by
    cases w with
    | nil => exact absurd rfl hne
    | cons c w =>
        have hc : isSpace c = false := by simpa using hall c List.mem_cons_self
        simp [hc]
  rw [scanS, hskip, List.takeWhile_append_of_pos hall, List.dropWhile_append_of_pos hall]
  simp [hend, hne]

end CCode.Lib
