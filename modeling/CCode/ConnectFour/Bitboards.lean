import CCode.Lib.Bitboard
import CCode.Lib.Game

/-!
# The Connect Four bitboards

`four.c`: the board is kept four times, by rows, by columns and by the diagonals of both
directions, each time as one word of bits for a line. A disc is placed by setting one bit
in each, through maps that give the diagonal of a cell and its place on it, and taken back
by clearing the same bits. The row that a disc falls to is not stored: it is looked up in a
table under the discs of both players in the column.

The arrays of `struct four` have a slot for each player, and a slot 0 that nothing uses and
that is left out here. A column is a natural number, so the test for a negative one has no
counterpart.

## Main definitions

* `nextPosMap`, `finishMap` — the two tables over words of bits.
* `fieldSxMap`, `fieldSyMap`, `fieldBsxMap`, `fieldBsyMap` — the diagonals of a cell.
* `Four`, `fourAdd`, `fourRemove`, `fourIsFinish` — the board and its operations.
* `fourSetField`, `fourGetField` — the board as an array of ids.
-/

namespace CCode.ConnectFour

open CCode.Lib

/-- `FOUR_ROW`. -/
abbrev fourRow : ℕ := 6

/-- `FOUR_COL`. -/
abbrev fourCol : ℕ := 7

/-! ## The tables -/

/-- The loop behind an entry of `nextPosMap`, with `8 - j` rounds to go. -/
def nextPosLoop : ℕ → BitVec 8 → ℕ
  | 0, _ => 0
  | k + 1, num => if 0x80#8 &&& num ≠ 0 then k + 1 else nextPosLoop k (num <<< 1)

/-- `nextPosMap`: one more than the highest bit, zero without one. -/
def nextPosMap (i : BitVec 8) : ℕ := nextPosLoop 8 i

/-- The loop behind an entry of `finishMap`, which ends after 13 rounds at the latest. -/
def finishLoop : ℕ → BitVec 16 → ℕ
  | 0, _ => 0
  | k + 1, num =>
      if num ≥ 0xF#16 then
        if num &&& 0xF#16 = 0xF#16 then 1 else finishLoop k (num >>> 1)
      else 0

/-- `finishMap`: whether a line has four bits in a row. -/
def finishMap (i : BitVec 16) : ℕ := finishLoop 16 i

/-- `fieldSxMap`: the place of a cell on its rising diagonal. -/
def fieldSxMap (row col : ℕ) : ℕ := if col < row then col else row

/-- `fieldSyMap`: the rising diagonal of a cell. -/
def fieldSyMap (row col : ℕ) : ℕ :=
  if col > row then (fourCol - col - 1) + row else fourRow + (row - col)

/-- `fieldBsxMap`: the place of a cell on its falling diagonal. -/
def fieldBsxMap (row col : ℕ) : ℕ :=
  if fourRow - row - 1 < col then fourRow - row - 1 else col

/-- `fieldBsyMap`: the falling diagonal of a cell. -/
def fieldBsyMap (row col : ℕ) : ℕ := col + row

theorem fieldSxMap_eq (row col : ℕ) : fieldSxMap row col = min row col := by
  rw [fieldSxMap]
  split <;> omega

/-- Both cases of the map count the rising diagonals from the lower right corner. -/
theorem fieldSyMap_add (row : ℕ) {col : ℕ} (hcol : col < fourCol) :
    fieldSyMap row col + col = row + 6 := by
  simp only [fieldSyMap, fourCol, fourRow] at hcol ⊢
  split <;> omega

theorem fieldBsxMap_eq (row col : ℕ) : fieldBsxMap row col = min (5 - row) col := by
  simp only [fieldBsxMap, fourRow]
  split <;> omega

/-! ## The board -/

/-- A bitboard for each player. -/
abbrev Boards := Player → Rows ℕ 16

/-- `a[id][i] |= 1 << x`. -/
def Boards.set (a : Boards) (id : Player) (i x : ℕ) : Boards :=
  Function.update a id ((a id).set i x)

/-- `a[id][i] &= ~(1 << x)`. -/
def Boards.clear (a : Boards) (id : Player) (i x : ℕ) : Boards :=
  Function.update a id ((a id).clear i x)

/-- The bitboards of `struct four`. -/
structure Four where
  fieldH : Boards
  fieldV : Boards
  fieldS : Boards
  fieldBs : Boards

/-- `four_reset`. -/
def fourReset : Four := ⟨fun _ _ => 0, fun _ _ => 0, fun _ _ => 0, fun _ _ => 0⟩

/-- The index that a column is looked up under: the discs of both players in it, cut to an
`unsigned char`. -/
def Four.column (four : Four) (id : Player) (col : ℕ) : BitVec 8 :=
  (four.fieldV id col).setWidth 8 ||| (four.fieldV id.opId col).setWidth 8

/-- The body of `four_add`, and of `add_field` in the server, which asks its settings for
the size of the board: the return value and the new bitboards. -/
def dropDisc (rows cols : ℕ) (four : Four) (id : Player) (col : ℕ) : Int × Four :=
  let row := nextPosMap (four.column id col)
  if row ≥ rows ∨ col ≥ cols then (-1, four)
  else
    (0,
      { fieldH := four.fieldH.set id row col
        fieldV := four.fieldV.set id col row
        fieldS := four.fieldS.set id (fieldSyMap row col) (fieldSxMap row col)
        fieldBs := four.fieldBs.set id (fieldBsyMap row col) (fieldBsxMap row col) })

/-- `four_add`. -/
def fourAdd (four : Four) (id : Player) (col : ℕ) : Int × Four :=
  dropDisc fourRow fourCol four id col

/-- `four_remove`. In an empty column there is nothing to remove; the source would index
row -1 there, which none of its callers does. -/
def fourRemove (four : Four) (id : Player) (col : ℕ) : Four :=
  match nextPosMap (four.column id col) with
  | 0 => four
  | row + 1 =>
      { fieldH := four.fieldH.clear id row col
        fieldV := four.fieldV.clear id col row
        fieldS := four.fieldS.clear id (fieldSyMap row col) (fieldSxMap row col)
        fieldBs := four.fieldBs.clear id (fieldBsyMap row col) (fieldBsxMap row col) }

/-- `four_isFinish`: the four lines through the topmost disc of the column. In an empty
column the source would index row -1. -/
def fourIsFinish (four : Four) (id : Player) (lastCol : ℕ) : Int :=
  match nextPosMap (four.column id lastCol) with
  | 0 => 0
  | row + 1 =>
      if finishMap (four.fieldH id row) ≠ 0 then 1
      else if finishMap (four.fieldV id lastCol) ≠ 0 then 1
      else if finishMap (four.fieldS id (fieldSyMap row lastCol)) ≠ 0 then 1
      else if finishMap (four.fieldBs id (fieldBsyMap row lastCol)) ≠ 0 then 1
      else 0

/-! ## The board as an array -/

/-- The cells of the board in the order of the loops: row by row from the bottom. -/
def fieldCells : List (ℕ × ℕ) :=
  (List.range fourRow).flatMap fun j => (List.range fourCol).map fun i => (j, i)

/-- One round of `four_set_field`. An id other than 0, 1 and 2 indexes outside the arrays,
which is `none`; the return value of `four_add` is not looked at. -/
def setCell (field : ℕ → ℕ → Int) (four : Four) (cell : ℕ × ℕ) : Option Four :=
  let id := field cell.1 cell.2
  if id ≠ 0 then (Player.ofId id).map fun p => (fourAdd four p cell.2).2
  else some four

/-- `four_set_field`: the discs of an array are dropped again, on an empty board. -/
def fourSetField (field : ℕ → ℕ → Int) : Option Four :=
  fieldCells.foldlM (setCell field) fourReset

/-- `four_get_field`. -/
def fourGetField (four : Four) (j i : ℕ) : Int :=
  if (four.fieldH .p2 j).getLsbD i then Player.p2.id
  else if (four.fieldH .p1 j).getLsbD i then Player.p1.id
  else 0

end CCode.ConnectFour
