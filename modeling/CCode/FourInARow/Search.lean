import CCode.Lib.Bubble
import CCode.Lib.Deepening
import CCode.ConnectFour.Exact
import CCode.ConnectFour.Sync

/-!
# The first Connect Four search

`max_score` of `ai.c`, the search of the first program, which works on the board of the match
itself. It hands its results up through two arrays that all plies share, with a slot for each
depth: `value[steps]` is what the search to the depth `steps` says, for the other player, and
`idx[steps]` the column. A disc that completes a line ends the search at once. Otherwise the
columns are sorted by their values, ties broken by `rand`, and the first one that was not full
is the answer. Where all columns are full nothing is assigned, so that the caller finds in
`value[steps]` what was there before. `cal_col` starts with zeros in both arrays and searches to
one depth after the other without clearing `value`.

## Main definitions

* `isColFull`, `isFinish`, `removeField` — the board.
* `Search` — the state of a search.
* `tryCol`, `scan`, `choose`, `maxScore` — the search.
* `calCol` — the choice of a column.
-/

namespace CCode.FourInARow

open CCode.Lib CCode.ConnectFour

/-- `VALUE_INF`. -/
abbrev valueInf : Int := 100000000

/-- `FIELD_ROW`. -/
abbrev fieldRow : ℕ := 6

/-! ## The board -/

/-- `isColFull`, which looks from the second player's side. -/
def isColFull (data : Data) (col : ℕ) : Bool :=
  decide (nextPosMap (data.fields.column .p2 col) ≥ fieldRow)

/-- `isFinish`, a copy of `four_isFinish`. -/
def isFinish (data : Data) (id : Player) (lastCol : ℕ) : Int :=
  fourIsFinish data.fields id lastCol

/-- `remove_field`, a copy of `four_remove`. -/
def removeField (data : Data) (id : Player) (col : ℕ) : Data :=
  { data with fields := fourRemove data.fields id col }

/-! ## The search -/

/-- A column: its number, its value, and 1 for a win of the other player, 0, or -1 if it is
full. -/
structure Pos where
  col : ℕ
  value : Int
  state : Int

/-- The board, the two arrays, and the results of `rand` to come. -/
structure Search where
  data : Data
  value : ℕ → Int
  idx : ℕ → Int
  rand : ℕ → ℕ

/-- `judgement`. -/
def judgement (s : Search) : Int × Search :=
  ((s.rand 0 &&& 0xFFFF : ℕ), { s with rand := fun n => s.rand (n + 1) })

/-- The result of a search to the depth `steps`. -/
def Search.assign (s : Search) (steps : ℕ) (value idx : Int) : Search :=
  { s with
    value := Function.update s.value steps value
    idx := Function.update s.idx steps idx }

/-- One round of the loop over the columns: the column, or nothing if its disc completes a line
and the search ends. -/
def tryCol (child : Search → Int × Search) (id : Player) (steps i : ℕ) (s : Search) :
    Option Pos × Search :=
  if isColFull s.data i then (some ⟨i, -valueInf, -1⟩, s)
  else
    let s := { s with data := (addField s.data id i).2 }
    if isFinish s.data id i ≠ 0 then
      let s := s.assign steps (-valueInf) i
      (none, { s with data := removeField s.data id i })
    else if steps = 1 then
      let (value, s) := judgement s
      (some ⟨i, value, 0⟩, { s with data := removeField s.data id i })
    else
      let (state, s) := child s
      (some ⟨i, s.value (steps - 1), state⟩, { s with data := removeField s.data id i })

/-- The loop over the columns. -/
def scan (child : Search → Int × Search) (id : Player) (steps : ℕ) :
    List ℕ → Search → Option (List Pos) × Search
  | [], s => (some [], s)
  | i :: is, s =>
      match tryCol child id steps i s with
      | (none, s) => (none, s)
      | (some pos, s) =>
          match scan child id steps is s with
          | (none, s) => (none, s)
          | (some ps, s) => (some (pos :: ps), s)

/-- The columns are sorted, and the first one that was not full is the answer. -/
def choose (steps : ℕ) (ps : List Pos) (s : Search) : Search :=
  let (ps, rand) := bubbleSort Pos.value (s.data.fieldColumns - 1) ps s.rand
  let s := { s with rand }
  match ps.find? fun pos => pos.state ≥ 0 with
  | some pos => s.assign steps (-pos.value) pos.col
  | none => s

/-- `max_score`: 1 if a disc completes a line, else 0. Nothing asks for depth 0. -/
def maxScore : ℕ → Player → Search → Int × Search
  | 0, _, s => (0, s)
  | steps + 1, id, s =>
      match scan (maxScore steps id.opId) id (steps + 1) (List.range s.data.fieldColumns) s with
      | (none, s) => (1, s)
      | (some ps, s) => (0, choose (steps + 1) ps s)

/-! ## The choice of a column -/

/-- `STEP_LEN`. -/
abbrev stepLen : ℕ := 32

/-- The first depth. -/
abbrev firstStep : ℕ := 8

/-- `TOTAL_TIME_MS`. -/
abbrev totalTimeMs : Int := 1250

/-- `GAME_MAX`. -/
abbrev gameMax : Int := 1000000

/-- `memset(idx, -1, STEP_LEN+1)`: the 33 bytes are the first eight slots and the lowest byte of
the next one. -/
def clearIdx (idx : ℕ → Int) (i : ℕ) : Int :=
  if i < 8 then -1 else if i = 8 then idx 8 / 256 * 256 + 255 else idx i

/-- The search of a depth, and the column it answers with. -/
def stepScore (id : Player) (step : ℕ) (s : Search) : Int × Search :=
  let (_, s) := maxScore step id { s with idx := clearIdx s.idx }
  (s.idx step, s)

/-- The test that ends the loop over the depths, with the clock at the start of `cal_col` and
around each search. -/
def endsDepths (start : Timeval) (clock : ℕ → Timeval × Timeval) (step : ℕ) (col : Int) : Bool :=
  col > gameMax || col < -gameMax ||
    decide ((timediffMs (clock step).1 (clock step).2 * 8).bmod (2 ^ 32) >
      (totalTimeMs - timediffMs start (clock step).2).bmod (2 ^ 32))

/-- The variables in front of the loop: the arrays are zero. -/
def depthStart (data : Data) (rand : ℕ → ℕ) : Deepening Int Search :=
  ⟨firstStep, 0, 0, ⟨data, fun _ => 0, fun _ => 0, rand⟩⟩

/-- `cal_col`: the column of the last depth. -/
def calCol (start : Timeval) (clock : ℕ → Timeval × Timeval) (id : Player) (data : Data)
    (rand : ℕ → ℕ) : Int × Search :=
  let d := deepen (stepScore id) (endsDepths start clock) (stepLen - firstStep)
    (depthStart data rand)
  (d.cur, d.state)

end CCode.FourInARow
