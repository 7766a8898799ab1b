import CCode.ConnectFour.Board

/-!
# The board as text

The match server of `four_in_a_row/` and the bot of `four_in_a_row_1/` are two programs.
The server keeps the board in `struct data`, with a copy of the code of `four.c`, and
writes it as a text whose first row is the top of the board. The bot turns the rows round
again and drops the discs anew, row by row from the bottom, each into its column.

`text_sync` says that the bot gets the server's bitboards bit by bit, and that its own
text gives it back the bitboards it has.

## Main definitions

* `Data`, `addField`, `getFieldStr` — the server's side.
* `aiUpdateField`, `aiGetField` — the bot's side.
* `Board.upTo` — a board up to some height in each column.
-/

namespace CCode.ConnectFour

open CCode.Lib

/-! ## The two programs -/

/-- `struct data`: the size of the board, which is a setting, and the bitboards. -/
structure Data where
  fieldColumns : ℕ
  fieldRows : ℕ
  fields : Four

/-- The state that the server starts a match with. -/
def Data.start : Data := ⟨7, 6, fourReset⟩

/-- `add_field`. -/
def addField (data : Data) (id : Player) (col : ℕ) : Int × Data :=
  let (ret, fields) := dropDisc data.fieldRows data.fieldColumns data.fields id col
  (ret, { data with fields })

/-- The command in front of the board. -/
def fieldCommand : List Char := "update game field ".toList

/-- The digit of a cell in the server's text. -/
def cellChar (data : Data) (row col : ℕ) : Char :=
  if (data.fields.fieldH .p1 row).getLsbD col then '1'
  else if (data.fields.fieldH .p2 row).getLsbD col then '2'
  else '0'

/-- A text of rows, each of them cells with a separator behind each. -/
def gridText (rows cols : ℕ) (cell sep : ℕ → ℕ → Char) : List Char :=
  (List.range rows).flatMap fun j => (List.range cols).flatMap fun i => [cell j i, sep j i]

/-- `get_field_str`. The text is cut where the source puts its terminator, behind the sixth
row's seventh cell, and ends with a new line. -/
def getFieldStr (data : Data) : List Char :=
  let text := gridText data.fieldRows data.fieldColumns
    (fun j i => cellChar data (data.fieldRows - 1 - j) i) (fun _ _ => ',')
  fieldCommand ++ text.take (2 * (data.fieldColumns * 5 + 6) + 2) ++ ['\n']

/-- The id at a place of a text: what its digit is above `0`. Behind the end of the text
there is its terminator. -/
def textId (text : List Char) (j i : ℕ) : Int :=
  ((text[2 * (fourCol * j + i)]?.getD (Char.ofNat 0)).toNat : Int) - '0'.toNat

/-- `ai_update_field`. -/
def aiUpdateField (text : List Char) : Option Four :=
  fourSetField fun row i => textId text (fourRow - row - 1) i

/-- `ai_get_field`. -/
def aiGetField (four : Four) : List Char :=
  gridText fourRow fourCol
    (fun j i => Char.ofNat ((fourGetField four (fourRow - j - 1) i).toNat + '0'.toNat))
    (fun _ i => if i = fourCol - 1 then ';' else ',')

/-! ## Reading a text -/

section Chunks

variable {α : Type*} {f : ℕ → List α} {n : ℕ}

theorem length_flatMap_range (hf : ∀ j, (f j).length = n) (m : ℕ) :
    ((List.range m).flatMap f).length = n * m := by
  induction m with
  | zero => simp
  | succ m ih => simp [List.range_succ, ih, hf, Nat.mul_succ]

/-- Indexing into pieces of one length. -/
theorem getElem?_flatMap_range (hf : ∀ j, (f j).length = n) {m j r : ℕ} (hj : j < m)
    (hr : r < n) : ((List.range m).flatMap f)[n * j + r]? = (f j)[r]? := by
  induction m with
  | zero => omega
  | succ m ih =>
      have hlen := length_flatMap_range hf m
      rw [List.range_succ, List.flatMap_append, List.flatMap_singleton]
      by_cases hlt : j < m
      · have hmul : n * (j + 1) ≤ n * m := Nat.mul_le_mul_left n (by omega)
        rw [List.getElem?_append_left (by rw [hlen]; rw [Nat.mul_succ] at hmul; omega), ih hlt]
      · obtain rfl : j = m := by omega
        rw [List.getElem?_append_right (by rw [hlen]; omega), hlen]
        congr 1
        omega

end Chunks

/-- The cell of a text at the place where the bot looks for it. -/
theorem getElem?_gridText {cell sep : ℕ → ℕ → Char} {j i : ℕ} (hj : j < fourRow)
    (hi : i < fourCol) :
    (gridText fourRow fourCol cell sep)[2 * (fourCol * j + i)]? = some (cell j i) := by
  have hrow : ∀ j, ((List.range fourCol).flatMap fun i => [cell j i, sep j i]).length = 14 :=
    fun j => length_flatMap_range (n := 2) (fun _ => rfl) fourCol
  have hlt : 2 * i + 0 < 14 := by
    simp only [fourCol] at hi
    omega
  have houter := getElem?_flatMap_range hrow (r := 2 * i + 0) hj hlt
  have hinner := getElem?_flatMap_range (f := fun i => [cell j i, sep j i]) (n := 2)
    (fun _ => rfl) (r := 0) hi (by omega)
  rw [gridText, show 2 * (fourCol * j + i) = 14 * j + (2 * i + 0) by simp only [fourCol]; omega,
    houter, hinner]
  rfl

/-! ## Dropping the discs again -/

/-- The part of a board up to some height in each column. -/
def Board.upTo (b : Board) (height : ℕ → ℕ) : Board where
  stack c := (b.stack c).take (height c)
  le c := Nat.le_trans (List.length_take_le' _ _) (b.le c)
  outside c hc := by rw [b.outside c hc, List.take_nil]

/-- No column is higher than the board. -/
theorem Board.upTo_fourRow (b : Board) : (b.upTo fun _ => fourRow) = b := by
  ext1
  funext c
  exact List.take_of_length_le (b.le c)

/-- The array has the ids of the board's discs, and zeros. -/
def ArrayOf (b : Board) (field : ℕ → ℕ → Int) : Prop :=
  ∀ j i, j < fourRow → i < fourCol → field j i = ((b.stack i)[j]?.map fun p => (p.id : Int)).getD 0

section Drop

variable {b : Board} {field : ℕ → ℕ → Int} {four : Four}

/-- One cell is dropped on the board below it. -/
theorem setCell_shows (hfield : ArrayOf b field) {height : ℕ → ℕ} {j i : ℕ} (hj : j < fourRow)
    (hi : i < fourCol) (hheight : height i = j) (h : four.Shows (b.upTo height)) :
    ∃ four', setCell field four (j, i) = some four' ∧
      four'.Shows (b.upTo (Function.update height i (j + 1))) := by
  have hid := hfield j i hj hi
  cases hcell : (b.stack i)[j]? with
  | none =>
      -- no disc here, and none above
      refine ⟨four, by simp [setCell, hid, hcell], ?_⟩
      have hle : (b.stack i).length ≤ j := List.getElem?_eq_none_iff.mp hcell
      have heq : b.upTo (Function.update height i (j + 1)) = b.upTo height := by
        ext1
        funext c
        by_cases hc : c = i
        · subst hc
          simp only [Board.upTo, Function.update_self, hheight]
          rw [List.take_of_length_le hle, List.take_of_length_le (by omega)]
        · simp [Board.upTo, hc]
      rw [heq]
      exact h
  | some p =>
      have hlt : j < (b.stack i).length := (List.getElem?_eq_some_iff.mp hcell).1
      have hlen : ((b.upTo height).stack i).length = j := by
        simp only [Board.upTo, hheight, List.length_take]
        omega
      have ho : (b.upTo height).Open i := ⟨hi, by rw [hlen]; exact hj⟩
      have hne : p.id ≠ 0 := by cases p <;> decide
      refine ⟨(fourAdd four p i).2, by simp [setCell, hid, hcell, hne], ?_⟩
      have heq : b.upTo (Function.update height i (j + 1)) = (b.upTo height).push p i ho := by
        ext1
        funext c
        by_cases hc : c = i
        · subst hc
          simp only [Board.upTo, Board.push, Function.update_self, hheight]
          rw [List.take_add_one, hcell]
          rfl
        · simp [Board.upTo, Board.push, hc]
      rw [heq]
      exact (h.add p ho).2

/-- The first columns of a row. -/
theorem setRow_shows (hfield : ArrayOf b field) {j n : ℕ} (hj : j < fourRow) (hn : n ≤ fourCol)
    (h : four.Shows (b.upTo fun _ => j)) :
    ∃ four', ((List.range n).map fun i => (j, i)).foldlM (setCell field) four = some four' ∧
      four'.Shows (b.upTo fun c => if c < n then j + 1 else j) := by
  induction n with
  | zero => exact ⟨four, rfl, by simpa using h⟩
  | succ n ih =>
      obtain ⟨four₁, hfold, hshows⟩ := ih (by omega)
      obtain ⟨four₂, hcell, hshows'⟩ := setCell_shows hfield hj (by omega : n < fourCol)
        (by simp) hshows
      refine ⟨four₂, ?_, ?_⟩
      · simp only [List.range_succ, List.map_append, List.foldlM_append, hfold, List.map_cons,
          List.map_nil, List.foldlM_cons, List.foldlM_nil, Option.bind_eq_bind, Option.bind_some,
          hcell]
        rfl
      · have heq : (Function.update (fun c => if c < n then j + 1 else j) n (j + 1)) =
            fun c => if c < n + 1 then j + 1 else j := by
          funext c
          by_cases hc : c = n
          · simp [hc]
          · have hiff : c < n + 1 ↔ c < n := by omega
            simp [hc, hiff]
        rwa [heq] at hshows'

/-- The rows up to one. -/
theorem setRows_shows (hfield : ArrayOf b field) {m : ℕ} (hm : m ≤ fourRow) :
    ∃ four, ((List.range m).flatMap fun j => (List.range fourCol).map fun i => (j, i)).foldlM
        (setCell field) fourReset = some four ∧ four.Shows (b.upTo fun _ => m) := by
  induction m with
  | zero =>
      refine ⟨fourReset, rfl, ?_⟩
      have heq : b.upTo (fun _ => 0) = .empty := by
        ext1
        funext c
        simp [Board.upTo, Board.empty]
      rw [heq]
      exact fourReset_shows
  | succ m ih =>
      obtain ⟨four, hfold, hshows⟩ := ih (by omega)
      obtain ⟨four', hrow, hshows'⟩ := setRow_shows hfield (by omega : m < fourRow) le_rfl hshows
      refine ⟨four', ?_, ?_⟩
      · rw [List.range_succ (n := m), List.flatMap_append, List.foldlM_append, hfold,
          List.flatMap_singleton]
        exact hrow
      · have heq : b.upTo (fun _ => m + 1) = b.upTo fun c => if c < fourCol then m + 1 else m := by
          ext1
          funext c
          by_cases hc : c < fourCol
          · simp [Board.upTo, hc]
          · simp [Board.upTo, b.outside c (by omega)]
        rwa [heq]

/-- **The discs of a board, dropped row by row from the bottom, give the board.** -/
theorem fourSetField_shows (hfield : ArrayOf b field) (h : four.Shows b) :
    fourSetField field = some four := by
  obtain ⟨four', hfold, hshows⟩ := setRows_shows hfield le_rfl
  rw [Board.upTo_fourRow] at hshows
  rw [fourSetField, fieldCells, hfold, hshows.unique h]

/-- Every board is shown by some bitboards. -/
theorem exists_shows (b : Board) : ∃ four : Four, four.Shows b := by
  have hfield : ArrayOf b fun j i => ((b.stack i)[j]?.map fun p => (p.id : Int)).getD 0 :=
    fun _ _ _ _ => rfl
  obtain ⟨four, -, hshows⟩ := setRows_shows hfield le_rfl
  refine ⟨four, ?_⟩
  rwa [Board.upTo_fourRow] at hshows

end Drop

/-! ## The two texts -/

section Texts

variable {b : Board} {four : Four}

theorem fieldH_iff (h : four.Shows b) (id : Player) (row col : ℕ) :
    (four.fieldH id row).getLsbD col = true ↔ (b.stack col)[row]? = some id :=
  h.has_iff

/-- The digit that the server writes for a cell. -/
theorem cellChar_eq {data : Data} (h : data.fields.Shows b) (row col : ℕ) :
    cellChar data row col =
      Char.ofNat (((b.stack col)[row]?.map Player.id).getD 0 + '0'.toNat) := by
  have h₁ := fieldH_iff h .p1 row col
  have h₂ := fieldH_iff h .p2 row col
  rw [cellChar]
  cases hcell : (b.stack col)[row]? with
  | none => simp_all
  | some p => cases p <;> simp_all <;> rfl

/-- The id that the bot has for a cell. -/
theorem fourGetField_eq (h : four.Shows b) (row col : ℕ) :
    fourGetField four row col = (((b.stack col)[row]?.map Player.id).getD 0 : ℕ) := by
  have h₁ := fieldH_iff h .p1 row col
  have h₂ := fieldH_iff h .p2 row col
  rw [fourGetField]
  cases hcell : (b.stack col)[row]? with
  | none => simp_all
  | some p => cases p <;> simp_all

/-- A text with the digits of a board, top row first, is read as the board. -/
theorem aiUpdateField_gridText (h : four.Shows b) {text : List Char}
    (htext : ∀ j i, j < fourRow → i < fourCol → text[2 * (fourCol * j + i)]? =
      some (Char.ofNat (((b.stack i)[fourRow - j - 1]?.map Player.id).getD 0 + '0'.toNat))) :
    aiUpdateField text = some four := by
  apply fourSetField_shows _ h
  intro j i hj hi
  simp only [textId]
  rw [htext (fourRow - j - 1) i (by omega) hi, show fourRow - (fourRow - j - 1) - 1 = j by omega]
  cases (b.stack i)[j]? with
  | none => rfl
  | some p => cases p <;> rfl

end Texts

/-- A successful call of `add_field`. -/
def addFieldStep (data : Data) (call : Player × ℕ) : Option Data :=
  if (addField data call.1 call.2).1 = 0 then some (addField data call.1 call.2).2 else none

/-- What holds in every match: the board has 6 rows and 7 columns, and is one. -/
structure DataInv (data : Data) : Prop where
  columns : data.fieldColumns = 7
  rows : data.fieldRows = 6
  shows : data.fields.Consistent

theorem DataInv.step {data data' : Data} {call : Player × ℕ} (h : DataInv data)
    (hstep : addFieldStep data call = some data') : DataInv data' := by
  have hadd : addField data call.1 call.2 = ((fourAdd data.fields call.1 call.2).1,
      { data with fields := (fourAdd data.fields call.1 call.2).2 }) := by
    simp [addField, fourAdd, h.columns, h.rows, fourRow, fourCol]
  simp only [addFieldStep, hadd, Option.ite_none_right_eq_some, Option.some.injEq] at hstep
  obtain ⟨hret, rfl⟩ := hstep
  obtain ⟨b, hb⟩ := h.shows
  exact ⟨h.columns, h.rows, _, (hb.add call.1 ((hb.add_eq_zero_iff _ _).mp hret)).2⟩

/-- **Server and bot agree.** In every state of a match the bot makes the server's
bitboards of the server's text, and its own of its own. -/
theorem text_sync {calls : List (Player × ℕ)} {data : Data}
    (h : Runs addFieldStep (fun _ _ => True) .start calls data) :
    aiUpdateField ((getFieldStr data).drop fieldCommand.length) = some data.fields ∧
      aiUpdateField (aiGetField data.fields) = some data.fields := by
  have hinv : DataInv data := h.invariant ⟨rfl, rfl, _, fourReset_shows⟩
    fun _ _ _ hu _ hstep => hu.step hstep
  obtain ⟨b, hb⟩ := hinv.shows
  constructor
  · apply aiUpdateField_gridText hb
    intro j i hj hi
    have hlen : ∀ cell sep : ℕ → ℕ → Char,
        (gridText fourRow fourCol cell sep).length = 2 * (7 * 5 + 6) + 2 := fun _ _ => rfl
    have htext : (getFieldStr data).drop fieldCommand.length =
        gridText fourRow fourCol (fun j i => cellChar data (5 - j) i) (fun _ _ => ',') ++
          ['\n'] := by
      simp only [getFieldStr, hinv.rows, hinv.columns, List.append_assoc, List.drop_left]
      rw [List.take_of_length_le (le_of_eq (hlen _ _))]
    rw [htext, List.getElem?_append_left, getElem?_gridText hj hi, cellChar_eq hb]
    · rw [show fourRow - j - 1 = 5 - j by simp only [fourRow]; omega]
    · rw [hlen]
      simp only [fourRow, fourCol] at hj hi ⊢
      omega
  · apply aiUpdateField_gridText hb
    intro j i hj hi
    rw [aiGetField, getElem?_gridText hj hi, fourGetField_eq hb, Int.toNat_natCast]

/-- A match of three discs. -/
theorem text_sync_three :
    ∃ data, Runs addFieldStep (fun _ _ => True) .start [(.p1, 3), (.p2, 3), (.p1, 0)] data ∧
      aiUpdateField ((getFieldStr data).drop fieldCommand.length) = some data.fields := by
  have hrun : Runs addFieldStep (fun _ _ => True) .start [(.p1, 3), (.p2, 3), (.p1, 0)] _ :=
    .of_foldlM rfl (fun _ _ _ => trivial)
  exact ⟨_, hrun, (text_sync hrun).1⟩

end CCode.ConnectFour
