import CCode.Lib.Transition
import CCode.ConnectFour.Bitboards

/-!
# The board behind the bitboards

A board is a stack of discs for every column. A state of `four.c` shows a board if each of
its four bitboards has exactly the bits of the discs; then `four_add` pushes a disc on a
stack, `four_remove` pops it, and both leave a state that shows the new board. Since a
board determines the bitboards, removing what was added gives back the very state.

`bitboards_consistent` is about any run of the two operations in which a disc is only
removed while it is the last one added.

## Main definitions

* `Board`, `Board.cells`, `Board.push` — the board as stacks of discs.
* `Placement` — where a bitboard keeps a cell.
* `Four.Shows` — the bitboards of a board.
* `Play`, `playStep` — discs added and removed in any order that nests.
-/

namespace CCode.ConnectFour

open CCode.Lib

/-! ## Boards -/

/-- A stack of at most six discs in each of the seven columns. -/
@[ext]
structure Board where
  stack : ℕ → List Player
  le : ∀ col, (stack col).length ≤ fourRow
  outside : ∀ col, fourCol ≤ col → stack col = []

namespace Board

/-- The board without discs. -/
def empty : Board := ⟨fun _ => [], fun _ => Nat.zero_le _, fun _ _ => rfl⟩

/-- The cells of a player, by row and column. -/
def cells (b : Board) (id : Player) : Set (ℕ × ℕ) := {c | (b.stack c.2)[c.1]? = some id}

/-- The column takes another disc. -/
def Open (b : Board) (col : ℕ) : Prop := col < fourCol ∧ (b.stack col).length < fourRow

instance (b : Board) (col : ℕ) : Decidable (b.Open col) :=
  inferInstanceAs (Decidable (_ ∧ _))

/-- The cell that the next disc in a column falls to. -/
def top (b : Board) (col : ℕ) : ℕ × ℕ := ((b.stack col).length, col)

/-- Drop a disc into a column that takes it. -/
def push (b : Board) (id : Player) (col : ℕ) (h : b.Open col) : Board where
  stack := Function.update b.stack col (b.stack col ++ [id])
  le c := by
    by_cases hc : c = col
    · subst hc
      have := h.2
      simp
      omega
    · simpa [hc] using b.le c
  outside c hc := by
    have hne : c ≠ col := by
      have := h.1
      omega
    simpa [hne] using b.outside c hc

variable {b : Board} {id : Player} {col : ℕ}

theorem mem_cells {c : ℕ × ℕ} : c ∈ b.cells id ↔ (b.stack c.2)[c.1]? = some id := Iff.rfl

/-- All cells are on the board. -/
theorem bounds_of_mem {c : ℕ × ℕ} (h : c ∈ b.cells id) : c.1 < fourRow ∧ c.2 < fourCol := by
  have hlt : c.1 < (b.stack c.2).length := (List.getElem?_eq_some_iff.mp h).1
  have hle := b.le c.2
  refine ⟨by omega, ?_⟩
  by_contra hcol
  rw [b.outside c.2 (by omega)] at hlt
  simp at hlt

/-- A cell has one player's disc at most. -/
theorem not_mem_opId {c : ℕ × ℕ} (h : c ∈ b.cells id) : c ∉ b.cells id.opId := by
  intro h'
  have heq : id = id.opId := Option.some.inj (h.symm.trans h')
  exact id.opId_ne heq.symm

/-- A cell has a disc exactly if it is below the top of its column. -/
theorem mem_or_mem_opId {c : ℕ × ℕ} :
    c ∈ b.cells id ∨ c ∈ b.cells id.opId ↔ c.1 < (b.stack c.2).length := by
  constructor
  · rintro (h | h) <;> exact (List.getElem?_eq_some_iff.mp h).1
  · intro hlt
    have hget := List.getElem?_eq_getElem hlt
    rcases id.eq_or_eq_opId (b.stack c.2)[c.1] with heq | heq
    · exact .inl (by rw [mem_cells, hget, heq])
    · exact .inr (by rw [mem_cells, hget, heq])

theorem top_not_mem (id : Player) : b.top col ∉ b.cells id := by
  intro h
  have hlt : (b.stack col).length < (b.stack col).length := mem_or_mem_opId.mp (.inl h)
  omega

/-- The new disc is its player's only new cell. -/
theorem cells_push_self (h : b.Open col) :
    (b.push id col h).cells id = insert (b.top col) (b.cells id) := by
  ext ⟨r, c⟩
  simp only [Set.mem_insert_iff, mem_cells, push, top, Prod.mk.injEq]
  by_cases hc : c = col
  · subst hc
    simp only [Function.update_self, List.getElem?_append, List.getElem?_singleton]
    split
    · simp
      omega
    · rename_i hge
      have hnone : (b.stack c)[r]? = none := List.getElem?_eq_none (by omega)
      simp [hnone]
      omega
  · simp [hc]

/-- The other player's cells stay as they are. -/
theorem cells_push_opId (h : b.Open col) :
    (b.push id col h).cells id.opId = b.cells id.opId := by
  ext ⟨r, c⟩
  simp only [mem_cells, push]
  by_cases hc : c = col
  · subst hc
    simp only [Function.update_self, List.getElem?_append, List.getElem?_singleton]
    split
    · rfl
    · rename_i hge
      have hnone : (b.stack c)[r]? = none := List.getElem?_eq_none (by omega)
      have hne := id.opId_ne.symm
      simp [hnone, hne]
  · simp [hc]

@[simp] theorem length_push (h : b.Open col) :
    ((b.push id col h).stack col).length = (b.stack col).length + 1 := by
  simp [push]

/-- The number of discs that the board still takes. -/
def empties (b : Board) : ℕ := ∑ c ∈ Finset.range fourCol, (fourRow - (b.stack c).length)

/-- A disc takes one cell. -/
theorem empties_push (id : Player) (h : b.Open col) :
    (b.push id col h).empties + 1 = b.empties := by
  have hmem : col ∈ Finset.range fourCol := Finset.mem_range.mpr h.1
  have hrest : ∑ c ∈ (Finset.range fourCol).erase col,
      (fourRow - ((b.push id col h).stack c).length) =
      ∑ c ∈ (Finset.range fourCol).erase col, (fourRow - (b.stack c).length) := by
    refine Finset.sum_congr rfl ?_
    intro c hc
    simp [push, Finset.ne_of_mem_erase hc]
  have hlt := h.2
  rw [empties, empties, ← Finset.add_sum_erase _ _ hmem, ← Finset.add_sum_erase _ _ hmem, hrest,
    length_push]
  omega

/-- A board without empty cells takes no disc. -/
theorem empties_pos_iff : 0 < b.empties ↔ ∃ col, b.Open col := by
  rw [empties, Finset.sum_pos_iff]
  constructor
  · intro ⟨c, hc, hpos⟩
    exact ⟨c, Finset.mem_range.mp hc, by omega⟩
  · intro ⟨c, ho⟩
    have hlt := ho.2
    exact ⟨c, Finset.mem_range.mpr ho.1, by omega⟩

end Board

/-! ## Placements -/

/-- Where a bitboard keeps the cells: a line and a bit on it, different for different
cells. -/
structure Placement where
  pos : ℕ × ℕ → ℕ × ℕ
  lt : ∀ c, c.1 < fourRow → c.2 < fourCol → (pos c).2 < 16
  inj : ∀ c d, c.1 < fourRow → c.2 < fourCol → d.1 < fourRow → d.2 < fourCol →
    pos c = pos d → c = d

/-- By rows. -/
def byRow : Placement where
  pos c := (c.1, c.2)
  lt c _ hc := by
    simp only [fourCol] at hc ⊢
    omega
  inj c d _ _ _ _ h := h

/-- By columns. -/
def byCol : Placement where
  pos c := (c.2, c.1)
  lt c hc _ := by
    simp only [fourRow] at hc ⊢
    omega
  inj c d _ _ _ _ h := by
    simp only [Prod.mk.injEq] at h
    exact Prod.ext h.2 h.1

/-- By rising diagonals. -/
def bySlash : Placement where
  pos c := (fieldSyMap c.1 c.2, fieldSxMap c.1 c.2)
  lt c hr hc := by
    simp only [fieldSxMap_eq, fourRow] at hr ⊢
    omega
  inj c d hc hc' hd hd' h := by
    have hy := fieldSyMap_add c.1 hc'
    have hy' := fieldSyMap_add d.1 hd'
    simp only [fieldSxMap_eq, Prod.mk.injEq] at h
    apply Prod.ext <;> omega

/-- By falling diagonals. -/
def byBackslash : Placement where
  pos c := (fieldBsyMap c.1 c.2, fieldBsxMap c.1 c.2)
  lt c hr hc := by
    simp only [fieldBsxMap_eq]
    omega
  inj c d hc hc' hd hd' h := by
    simp only [fieldBsyMap, fieldBsxMap_eq, fourRow, Prod.mk.injEq] at hc hd h
    apply Prod.ext <;> omega

/-- The bitboards of both players have the discs of a board. -/
def Boards.Shows (a : Boards) (p : Placement) (b : Board) : Prop :=
  ∀ id, Marks p.pos (a id) (b.cells id)

namespace Boards.Shows

variable {a a' : Boards} {p : Placement} {b : Board} {id : Player} {col : ℕ}

theorem unique (h : a.Shows p b) (h' : a'.Shows p b) : a = a' :=
  funext fun id => (h id).unique (h' id)

/-- A cell's bit is set exactly if the player has a disc there. -/
theorem getLsbD_iff (h : a.Shows p b) (id : Player) {row col : ℕ} (hr : row < fourRow)
    (hc : col < fourCol) :
    (a id (p.pos (row, col)).1).getLsbD (p.pos (row, col)).2 = true ↔
      (row, col) ∈ b.cells id := by
  apply (h id).getLsbD_iff
  intro d hd heq
  have hdb := Board.bounds_of_mem hd
  exact p.inj d (row, col) hdb.1 hdb.2 hr hc heq

/-- Setting the bit of the next cell in a column shows the board with the disc. -/
theorem set (h : a.Shows p b) (ho : b.Open col) :
    (a.set id (p.pos (b.top col)).1 (p.pos (b.top col)).2).Shows p (b.push id col ho) := by
  intro id'
  rcases id.eq_or_eq_opId id' with rfl | rfl
  · rw [Boards.set, Function.update_self, Board.cells_push_self]
    exact (h id').set (p.lt _ ho.2 ho.1)
  · rw [Boards.set, Function.update_of_ne id.opId_ne, Board.cells_push_opId]
    exact h id.opId

/-- Clearing the bit of a disc on top shows the board without it. -/
theorem clear {ho : b.Open col} (h : a.Shows p (b.push id col ho)) :
    (a.clear id (p.pos (b.top col)).1 (p.pos (b.top col)).2).Shows p b := by
  intro id'
  have hid := h id'
  rcases id.eq_or_eq_opId id' with rfl | rfl
  · rw [Board.cells_push_self] at hid
    rw [Boards.clear, Function.update_self]
    apply hid.clear (Board.top_not_mem id')
    intro d hd heq
    have hdb := Board.bounds_of_mem hd
    exact p.inj d _ hdb.1 hdb.2 ho.2 ho.1 heq
  · rw [Board.cells_push_opId] at hid
    rw [Boards.clear, Function.update_of_ne id.opId_ne]
    exact hid

end Boards.Shows

/-! ## The operations on boards -/

/-- All four bitboards have the discs of the board. -/
structure Four.Shows (four : Four) (b : Board) : Prop where
  h : four.fieldH.Shows byRow b
  v : four.fieldV.Shows byCol b
  s : four.fieldS.Shows bySlash b
  bs : four.fieldBs.Shows byBackslash b

/-- The four representations agree on one board. -/
def Four.Consistent (four : Four) : Prop := ∃ b, four.Shows b

theorem fourReset_shows : fourReset.Shows .empty := by
  have hcells : ∀ id, Board.empty.cells id = ∅ := by
    intro id
    ext c
    simp [Board.mem_cells, Board.empty]
  constructor <;>
  · intro id
    rw [hcells]
    exact Marks.empty

/-- The highest bit of a column that is filled from the bottom. -/
theorem nextPosMap_filled {v : BitVec 8} {n : ℕ} (hn : n ≤ fourRow)
    (h : ∀ i < 8, v.getLsbD i = decide (i < n)) : nextPosMap v = n := by
  have hv : v = BitVec.ofNat 8 (2 ^ n - 1) := by
    apply BitVec.eq_of_getLsbD_eq
    intro i hi
    rw [h i hi, BitVec.getLsbD_ofNat, Nat.testBit_two_pow_sub_one]
    simp [hi]
  have hall : ∀ m ≤ fourRow, nextPosMap (BitVec.ofNat 8 (2 ^ m - 1)) = m := by decide
  rw [hv, hall n hn]

namespace Four.Shows

variable {four four' : Four} {b : Board} {id : Player} {col : ℕ}

/-- A board has one state that shows it. -/
theorem unique (h : four.Shows b) (h' : four'.Shows b) : four = four' := by
  cases four
  cases four'
  simp only [Four.mk.injEq]
  exact ⟨h.h.unique h'.h, h.v.unique h'.v, h.s.unique h'.s, h.bs.unique h'.bs⟩

/-- The table gives the number of discs in a column. -/
theorem nextPosMap_column (h : four.Shows b) (id : Player) (col : ℕ) :
    nextPosMap (four.column id col) = (b.stack col).length := by
  apply nextPosMap_filled (b.le col)
  intro i hi
  have hbit : ∀ id', (four.fieldV id' col).getLsbD i = true ↔ (i, col) ∈ b.cells id' := by
    intro id'
    rw [h.v id']
    constructor
    · intro ⟨c, hc, heq⟩
      simp only [byCol, Prod.mk.injEq] at heq
      rwa [← heq.1, ← heq.2]
    · intro hc
      exact ⟨(i, col), hc, rfl⟩
  rw [Four.column, BitVec.getLsbD_or, BitVec.getLsbD_setWidth, BitVec.getLsbD_setWidth,
    Bool.eq_iff_iff, Bool.or_eq_true, Bool.and_eq_true, Bool.and_eq_true, hbit, hbit]
  simp only [hi, decide_true, true_and, decide_eq_true_eq]
  exact Board.mem_or_mem_opId

/-- A disc falls on a column that takes it. -/
theorem add (h : four.Shows b) (id : Player) (ho : b.Open col) :
    (fourAdd four id col).1 = 0 ∧ (fourAdd four id col).2.Shows (b.push id col ho) := by
  have hfit : ¬ ((b.stack col).length ≥ fourRow ∨ col ≥ fourCol) := by
    have := ho.1
    have := ho.2
    omega
  rw [fourAdd, dropDisc, h.nextPosMap_column]
  simp only [hfit, if_false]
  exact ⟨trivial, h.h.set ho, h.v.set ho, h.s.set ho, h.bs.set ho⟩

/-- A column that takes no disc leaves everything as it is. -/
theorem add_of_not_open (h : four.Shows b) (id : Player) (ho : ¬ b.Open col) :
    fourAdd four id col = (-1, four) := by
  have hfull : (b.stack col).length ≥ fourRow ∨ col ≥ fourCol := by
    rw [Board.Open] at ho
    omega
  rw [fourAdd, dropDisc, h.nextPosMap_column]
  simp only [hfull, if_true]

/-- `four_add` succeeds exactly on a column that takes a disc. -/
theorem add_eq_zero_iff (h : four.Shows b) (id : Player) (col : ℕ) :
    (fourAdd four id col).1 = 0 ↔ b.Open col := by
  by_cases ho : b.Open col
  · exact iff_of_true (h.add id ho).1 ho
  · rw [h.add_of_not_open id ho]
    exact iff_of_false (by simp) ho

/-- Removing the disc on top of a column takes it from the board. -/
theorem remove {ho : b.Open col} (h : four.Shows (b.push id col ho)) :
    (fourRemove four id col).Shows b := by
  rw [fourRemove, h.nextPosMap_column, Board.length_push]
  exact ⟨h.h.clear, h.v.clear, h.s.clear, h.bs.clear⟩

/-- Removing what was just added gives the state back. -/
theorem remove_add (h : four.Shows b) (id : Player) (ho : b.Open col) :
    fourRemove (fourAdd four id col).2 id col = four :=
  (h.add id ho).2.remove.unique h

end Four.Shows

/-! ## Runs -/

/-- A player's cell is set in the bitboard by rows. -/
def Four.Has (four : Four) (id : Player) (row col : ℕ) : Prop :=
  (four.fieldH id row).getLsbD col = true

/-- The four bitboards describe one board, on which the players' cells are disjoint and
every column is filled from the bottom. -/
structure Four.OneBoard (four : Four) : Prop where
  column : ∀ id row col, row < fourRow → col < fourCol →
    ((four.fieldV id col).getLsbD row = true ↔ four.Has id row col)
  slash : ∀ id row col, row < fourRow → col < fourCol →
    ((four.fieldS id (fieldSyMap row col)).getLsbD (fieldSxMap row col) = true ↔
      four.Has id row col)
  backslash : ∀ id row col, row < fourRow → col < fourCol →
    ((four.fieldBs id (fieldBsyMap row col)).getLsbD (fieldBsxMap row col) = true ↔
      four.Has id row col)
  disjoint : ∀ row col, ¬ (four.Has .p1 row col ∧ four.Has .p2 row col)
  filled : ∀ id row col, four.Has id (row + 1) col → ∃ id', four.Has id' row col

/-- Every row of the column has a disc. -/
def Four.Full (four : Four) (col : ℕ) : Prop := ∀ row < fourRow, ∃ id, four.Has id row col

namespace Four.Shows

variable {four : Four} {b : Board} {id : Player} {row col : ℕ}

theorem has_iff (h : four.Shows b) : four.Has id row col ↔ (row, col) ∈ b.cells id := by
  rw [Four.Has, h.h id]
  constructor
  · intro ⟨c, hc, heq⟩
    rwa [← heq]
  · intro hc
    exact ⟨(row, col), hc, rfl⟩

theorem exists_has_iff (h : four.Shows b) :
    (∃ id, four.Has id row col) ↔ row < (b.stack col).length := by
  have hmem := @Board.mem_or_mem_opId b .p1 (row, col)
  rw [← hmem]
  constructor
  · intro ⟨id, hid⟩
    cases id
    · exact .inl (h.has_iff.mp hid)
    · exact .inr (h.has_iff.mp hid)
  · rintro (hid | hid)
    · exact ⟨_, h.has_iff.mpr hid⟩
    · exact ⟨_, h.has_iff.mpr hid⟩

/-- What shows a board describes one. -/
theorem oneBoard (h : four.Shows b) : four.OneBoard where
  column id row col hr hc := (h.v.getLsbD_iff id hr hc).trans h.has_iff.symm
  slash id row col hr hc := (h.s.getLsbD_iff id hr hc).trans h.has_iff.symm
  backslash id row col hr hc :=
    (h.bs.getLsbD_iff id hr hc).trans h.has_iff.symm
  disjoint row col hboth :=
    Board.not_mem_opId (h.has_iff.mp hboth.1) (h.has_iff.mp hboth.2)
  filled id row col hid := by
    have hlt := h.exists_has_iff.mp ⟨id, hid⟩
    exact h.exists_has_iff.mpr (by omega)

/-- A column takes no disc exactly if it is full. -/
theorem full_iff (h : four.Shows b) (hc : col < fourCol) : four.Full col ↔ ¬ b.Open col := by
  have hle := b.le col
  constructor
  · intro hfull ho
    have hlt := h.exists_has_iff.mp (hfull (b.stack col).length ho.2)
    omega
  · intro ho row hr
    rw [h.exists_has_iff]
    by_contra hge
    exact ho ⟨hc, by omega⟩

end Four.Shows

/-- Add a disc, or remove the last one that was added and is still there. -/
inductive Op
  | add (id : Player) (col : ℕ)
  | undo

/-- The column of an added disc is on the board. -/
def Op.OnBoard : Op → Prop
  | .add _ col => col < fourCol
  | .undo => True

/-- The state, and for each disc that was added and not removed, the last one first, its
player, its column and the state before it. -/
structure Play where
  four : Four
  added : List (Player × ℕ × Four)

/-- One operation. There is nothing to undo where all discs are removed. -/
def playStep (x : Play) : Op → Option Play
  | .add id col =>
      let (ret, four) := fourAdd x.four id col
      some ⟨four, if ret = 0 then (id, col, x.four) :: x.added else x.added⟩
  | .undo =>
      match x.added with
      | [] => none
      | (id, col, _) :: rest => some ⟨fourRemove x.four id col, rest⟩

/-- The discs added and not removed, from the last to the first, lead down from the board,
each one from a state that shows the board before it. -/
inductive Stacked : List (Player × ℕ × Four) → Board → Prop
  | nil {b : Board} : Stacked [] b
  | cons {id : Player} {col : ℕ} {before : Four} {rest : List (Player × ℕ × Four)} {b : Board}
      (ho : b.Open col) :
      before.Shows b → Stacked rest b → Stacked ((id, col, before) :: rest) (b.push id col ho)

/-- The bitboards show a board that the discs added lead to. -/
def PlayInv (x : Play) : Prop := ∃ b, x.four.Shows b ∧ Stacked x.added b

/-- Both operations keep the invariant. -/
theorem PlayInv.step {x y : Play} {op : Op} (h : PlayInv x) (hstep : playStep x op = some y) :
    PlayInv y := by
  obtain ⟨b, hshows, hstacked⟩ := h
  cases op with
  | add id col =>
      simp only [playStep, Option.some.injEq] at hstep
      subst hstep
      by_cases ho : b.Open col
      · obtain ⟨hret, hnew⟩ := hshows.add id ho
        simp only [hret, if_true]
        exact ⟨_, hnew, .cons ho hshows hstacked⟩
      · rw [hshows.add_of_not_open id ho]
        exact ⟨b, hshows, hstacked⟩
  | undo =>
      obtain ⟨four, added⟩ := x
      cases hstacked with
      | nil => simp [playStep] at hstep
      | cons ho hbefore hrest =>
          simp only [playStep, Option.some.injEq] at hstep
          subst hstep
          exact ⟨_, hshows.remove, hrest⟩

/-- The state before the last disc comes back when that disc is removed. -/
theorem PlayInv.restores {x : Play} (h : PlayInv x) {id : Player} {col : ℕ} {before : Four}
    {rest : List (Player × ℕ × Four)} (hadded : x.added = (id, col, before) :: rest) :
    fourRemove x.four id col = before := by
  obtain ⟨b, hshows, hstacked⟩ := h
  rw [hadded] at hstacked
  cases hstacked with
  | cons ho hbefore hrest => exact hshows.remove.unique hbefore

/-- **The bitboards stay consistent** in every run of additions, and removals of the last
disc that is still there: they describe one board, `four_add` refuses exactly the full
columns and then changes nothing, and `four_remove` gives back the state before the
addition that it undoes. -/
theorem bitboards_consistent {ops : List Op} {x : Play}
    (h : Runs playStep (fun _ op => op.OnBoard) ⟨fourReset, []⟩ ops x) :
    x.four.OneBoard ∧
    (∀ id col, col < fourCol →
      ((fourAdd x.four id col).1 = -1 ↔ x.four.Full col) ∧
      ((fourAdd x.four id col).1 = -1 → (fourAdd x.four id col).2 = x.four)) ∧
    ∀ id col before rest, x.added = (id, col, before) :: rest →
      fourRemove x.four id col = before := by
  have hinv : PlayInv x := h.invariant ⟨_, fourReset_shows, .nil⟩
    fun _ _ _ hu _ hstep => hu.step hstep
  have hrestores : ∀ id col before rest, x.added = (id, col, before) :: rest →
      fourRemove x.four id col = before := fun _ _ _ _ hadded => hinv.restores hadded
  obtain ⟨b, hshows, -⟩ := hinv
  refine ⟨hshows.oneBoard, ?_, hrestores⟩
  intro id col hcol
  rw [hshows.full_iff hcol]
  by_cases ho : b.Open col
  · have hret := (hshows.add id ho).1
    simp [hret, ho]
  · rw [hshows.add_of_not_open id ho]
    simp [ho]

/-- Three discs in two columns, the last one taken back. -/
theorem bitboards_consistent_undo :
    ∃ x, Runs playStep (fun _ op => op.OnBoard) ⟨fourReset, []⟩
        [.add .p1 3, .add .p2 3, .add .p1 4, .undo] x ∧ x.four.OneBoard := by
  have hrun : Runs playStep (fun _ op => op.OnBoard) ⟨fourReset, []⟩
      [.add .p1 3, .add .p2 3, .add .p1 4, .undo] _ :=
    .of_foldlM rfl (by simp [Op.OnBoard, fourCol])
  exact ⟨_, hrun, (bitboards_consistent hrun).1⟩

end CCode.ConnectFour
