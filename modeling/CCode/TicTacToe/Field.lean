import CCode.Lib.Transition
import CCode.TicTacToe.Maps

/-!
# The tic-tac-toe board

`ttt_add` puts a stone into an empty cell of an undecided block and writes the verdict on
the block into the macro board; both are or-ed into their words. `ttt_remove` clears the cell
and the block. That is the state before only because a stone is never put into a block that
had a verdict, and a verdict never written over another one.

`Ttt.Valid` is what holds of every board that stones were added to: the macro board has the
verdicts, and no block has lines of both players, because the first line closes it. In every
run of additions and removals of the last stone, the removal restores the board before.

## Main definitions

* `Ttt`, `tttAdd`, `tttRemove`, `tttIsMFinish` — the board and its operations.
* `Ttt.Valid` — the invariant.
* `Reached` — the boards that additions lead to.
* `Play`, `playStep` — runs with removals.
-/

namespace CCode.TicTacToe

open CCode.Lib

/-- The fields of `struct ttt` that change during a game: a word for each block, and the
macro board. -/
@[ext] structure Ttt where
  sField : ℕ → ℕ
  mField : ℕ

/-- `reset_field`, and the board that `ttt_create` makes. -/
def resetField : Ttt := ⟨fun _ => 0, 0⟩

/-- `ttt_isSFinish`. -/
def tttIsSFinish (ttt : Ttt) (lastPoint : ℕ) : ℕ := finishMap (ttt.sField (blockMap lastPoint))

/-- `ttt_isMFinish`. -/
def tttIsMFinish (ttt : Ttt) : ℕ := finishMap ttt.mField

/-- `ttt_add`. -/
def tttAdd (ttt : Ttt) (id : Player) (p : ℕ) : Int × Ttt :=
  let blockNum := blockMap p
  if gb1 ttt.mField (blockOffMap p) ≠ normal then (-1, ttt)
  else if gb1 (ttt.sField blockNum) (posOffMap p) ≠ empty then (-1, ttt)
  else
    let field := sb1 (ttt.sField blockNum) id.id (posOffMap p)
    let ttt := { ttt with sField := Function.update ttt.sField blockNum field }
    let status := tttIsSFinish ttt p
    (0, { ttt with mField := sb1 ttt.mField status (blockOffMap p) })

/-- `ttt_remove`. -/
def tttRemove (ttt : Ttt) (p : ℕ) : Ttt :=
  let blockNum := blockMap p
  { sField := Function.update ttt.sField blockNum (cb1 (ttt.sField blockNum) (posOffMap p))
    mField := cb1 ttt.mField (blockOffMap p) }

namespace Ttt

/-- The verdict on a block in the macro board. -/
def block (ttt : Ttt) (b : ℕ) : ℕ := gb2 ttt.mField b

/-- A cell of a block. -/
def cell (ttt : Ttt) (b o : ℕ) : ℕ := gb2 (ttt.sField b) o

/-- A stone may be put at the point: its block is undecided and its cell is empty. -/
def Free (ttt : Ttt) (p : ℕ) : Prop :=
  ttt.block (blockMap p) = normal ∧ ttt.cell (blockMap p) (posMap p) = empty

/-- The word of the block of a point with the stone. -/
def stone (ttt : Ttt) (id : Player) (p : ℕ) : ℕ :=
  Packed.put 2 (ttt.sField (blockMap p)) id.id (posMap p)

/-- The board with the stone and the verdict. -/
def place (ttt : Ttt) (id : Player) (p : ℕ) : Ttt where
  sField := Function.update ttt.sField (blockMap p) (ttt.stone id p)
  mField := Packed.put 2 ttt.mField (finishMap (ttt.stone id p)) (blockMap p)

end Ttt

section Operations

variable {ttt : Ttt} {id : Player} {p : ℕ}

/-- A stone on a free point is added. -/
theorem tttAdd_free (h : ttt.Free p) (id : Player) : tttAdd ttt id p = (0, ttt.place id p) := by
  have hm : ¬ gb1 ttt.mField (blockOffMap p) ≠ normal := not_not.mpr h.1
  have hs : ¬ gb1 (ttt.sField (blockMap p)) (posOffMap p) ≠ empty := not_not.mpr h.2
  simp only [tttAdd, if_neg hm, if_neg hs, tttIsSFinish, Function.update_self]
  rfl

/-- A stone elsewhere changes nothing. -/
theorem tttAdd_not_free (h : ¬ ttt.Free p) (id : Player) : tttAdd ttt id p = (-1, ttt) := by
  simp only [tttAdd]
  split_ifs with hm hs
  · rfl
  · rfl
  · exact absurd ⟨not_not.mp hm, not_not.mp hs⟩ h

theorem tttAdd_eq_zero_iff (id : Player) : (tttAdd ttt id p).1 = 0 ↔ ttt.Free p := by
  by_cases h : ttt.Free p
  · rw [tttAdd_free h]
    exact iff_of_true rfl h
  · rw [tttAdd_not_free h]
    exact iff_of_false (by simp) h

theorem player_id_lt (id : Player) : id.id < 2 ^ 2 := by
  have := player_id_cases id
  omega

/-- **Removing a stone restores the board before it.** -/
theorem tttRemove_place (h : ttt.Free p) (id : Player) : tttRemove (ttt.place id p) p = ttt := by
  apply Ttt.ext
  · simp only [tttRemove, Ttt.place, Function.update_self, Function.update_idem]
    rw [posOffMap, cb1_eq, Ttt.stone, Packed.clear_put (by decide) h.2 (player_id_lt id),
      Function.update_eq_self]
  · simp only [tttRemove, Ttt.place]
    rw [blockOffMap, cb1_eq, Packed.clear_put (by decide) h.1 (finishMap_lt _)]

/-! ## What a stone changes -/

theorem cell_stone (h : ttt.Free p) (id : Player) :
    gb2 (ttt.stone id p) (posMap p) = id.id :=
  Packed.get_put_self h.2 (player_id_lt id)

theorem cell_stone_of_ne {o : ℕ} (id : Player) (ho : o ≠ posMap p) :
    gb2 (ttt.stone id p) o = ttt.cell (blockMap p) o :=
  Packed.get_put_of_ne ho (player_id_lt id)

theorem block_place_self (h : ttt.Free p) (id : Player) :
    (ttt.place id p).block (blockMap p) = finishMap (ttt.stone id p) :=
  Packed.get_put_self h.1 (finishMap_lt _)

theorem block_place_of_ne {b : ℕ} (id : Player) (hb : b ≠ blockMap p) :
    (ttt.place id p).block b = ttt.block b :=
  Packed.get_put_of_ne hb (finishMap_lt _)

theorem sField_place_self (ttt : Ttt) (id : Player) (p : ℕ) :
    (ttt.place id p).sField (blockMap p) = ttt.stone id p :=
  Function.update_self ..

theorem sField_place_of_ne {b : ℕ} (id : Player) (hb : b ≠ blockMap p) :
    (ttt.place id p).sField b = ttt.sField b :=
  Function.update_of_ne hb _ _

/-- A stone changes its own cell only. -/
theorem cell_place (h : ttt.Free p) (id : Player) (b o : ℕ) :
    (ttt.place id p).cell b o =
      if b = blockMap p ∧ o = posMap p then id.id else ttt.cell b o := by
  rw [Ttt.cell]
  by_cases hb : b = blockMap p
  · rw [hb, sField_place_self]
    by_cases ho : o = posMap p
    · rw [ho, cell_stone h, if_pos ⟨rfl, rfl⟩]
    · rw [cell_stone_of_ne id ho, if_neg fun heq => ho heq.2]
  · rw [sField_place_of_ne id hb, if_neg fun heq => hb heq.1]
    rfl

/-- A stone leaves the points of other blocks free. -/
theorem Ttt.Free.place_of_ne {q : ℕ} (h : ttt.Free q) (id : Player)
    (hb : blockMap q ≠ blockMap p) : (ttt.place id p).Free q := by
  refine ⟨?_, ?_⟩
  · rw [block_place_of_ne id hb]
    exact h.1
  · rw [Ttt.cell, sField_place_of_ne id hb]
    exact h.2

/-- A line of the other player was there before. -/
theorem line_stone_opId (h : ttt.Free p) (hl : Line id.opId (ttt.stone id p)) :
    Line id.opId (ttt.sField (blockMap p)) := by
  obtain ⟨l, hmem, hc⟩ := hl
  refine ⟨l, hmem, ?_⟩
  intro c hcl
  have hcell := hc c hcl
  by_cases heq : c = posMap p
  · rw [heq, cell_stone h] at hcell
    cases id <;> exact absurd hcell (by decide)
  · rw [cell_stone_of_ne id heq] at hcell
    exact hcell

end Operations

/-! ## The invariant -/

/-- The macro board has the verdicts on the blocks; and a block has stones of the two
players only, and no lines of both. -/
structure Ttt.Valid (ttt : Ttt) : Prop where
  sField_lt : ∀ b, ttt.sField b < mapSize
  mField_lt : ttt.mField < mapSize
  verdicts : ∀ b < tttBlkNum, ttt.block b = finishMap (ttt.sField b)
  stones : ∀ b o, ttt.cell b o ≠ draw
  one_line : ∀ b id, Line id (ttt.sField b) → ¬ Line id.opId (ttt.sField b)

namespace Ttt.Valid

variable {ttt : Ttt} {id : Player} {p : ℕ}

/-- Nobody has a line in the block of a free point. -/
theorem no_line (h : ttt.Valid) (hp : OnBoard p) (hf : ttt.Free p) (id : Player) :
    ¬ Line id (ttt.sField (blockMap p)) := by
  have hnorm := hf.1
  rw [h.verdicts _ hp.block_lt, finishMap_eq_normal_iff (h.sField_lt _)] at hnorm
  exact hnorm.1 id

/-- **A stone keeps the invariant.** -/
theorem place (h : ttt.Valid) (hp : OnBoard p) (hf : ttt.Free p) (id : Player) :
    (ttt.place id p).Valid where
  sField_lt b := by
    by_cases hb : b = blockMap p
    · rw [hb, sField_place_self]
      exact Packed.put_lt (h.sField_lt _) hp.pos_lt (player_id_lt id)
    · rw [sField_place_of_ne id hb]
      exact h.sField_lt b
  mField_lt := Packed.put_lt h.mField_lt hp.block_lt (finishMap_lt _)
  verdicts b hlt := by
    by_cases hb : b = blockMap p
    · rw [hb, sField_place_self, block_place_self hf]
    · rw [sField_place_of_ne id hb, block_place_of_ne id hb]
      exact h.verdicts b hlt
  stones b o := by
    rw [cell_place hf]
    split_ifs
    · cases id <;> decide
    · exact h.stones b o
  one_line b id' := by
    by_cases hb : b = blockMap p
    · rw [hb, sField_place_self]
      -- only the player of the stone can have a line now
      have honly : ¬ Line id.opId (ttt.stone id p) :=
        fun hl => h.no_line hp hf id.opId (line_stone_opId hf hl)
      intro hl hop
      rcases id.eq_or_eq_opId id' with rfl | rfl
      · exact honly hop
      · exact honly hl
    · rw [sField_place_of_ne id hb]
      exact h.one_line b id'

end Ttt.Valid

theorem resetField_free (p : ℕ) : resetField.Free p := ⟨Packed.get_zero 2 _, Packed.get_zero 2 _⟩

theorem line_zero (id : Player) : ¬ Line id 0 := by
  cases id <;> decide

theorem resetField_valid : resetField.Valid where
  sField_lt _ := Nat.two_pow_pos _
  mField_lt := Nat.two_pow_pos _
  verdicts b _ := by
    rw [resetField, finishMap_zero]
    exact Packed.get_zero 2 b
  stones b o := by
    rw [Ttt.cell, resetField, gb2_eq, Packed.get_zero]
    decide
  one_line _ id hl := absurd hl (line_zero id)

/-! ## Boards reached by additions -/

/-- An addition that succeeds. -/
def addStep (ttt : Ttt) (move : Player × ℕ) : Option Ttt :=
  let (ret, ttt) := tttAdd ttt move.1 move.2
  if ret = 0 then some ttt else none

theorem addStep_eq_some_iff {ttt ttt' : Ttt} {move : Player × ℕ} :
    addStep ttt move = some ttt' ↔ ttt.Free move.2 ∧ ttt' = ttt.place move.1 move.2 := by
  by_cases h : ttt.Free move.2
  · simp [addStep, tttAdd_free h, h, eq_comm]
  · simp [addStep, tttAdd_not_free h, h]

/-- The moves, all on the board and all successful, lead from the empty board to this one. -/
def Reached (moves : List (Player × ℕ)) (ttt : Ttt) : Prop :=
  Runs addStep (fun _ move => OnBoard move.2) resetField moves ttt

theorem Reached.valid {moves : List (Player × ℕ)} {ttt : Ttt} (h : Reached moves ttt) :
    ttt.Valid := by
  refine h.invariant resetField_valid ?_
  intro u move v hu hp hstep
  obtain ⟨hf, rfl⟩ := addStep_eq_some_iff.mp hstep
  exact hu.place hp hf move.1

/-- One more stone. -/
theorem Reached.snoc {moves : List (Player × ℕ)} {ttt : Ttt} (h : Reached moves ttt) {p : ℕ}
    (hp : OnBoard p) (hf : ttt.Free p) (id : Player) :
    Reached (moves ++ [(id, p)]) (ttt.place id p) :=
  Runs.snoc h hp (addStep_eq_some_iff.mpr ⟨hf, rfl⟩)

/-! ## Runs with removals -/

/-- An addition, or the removal of the last stone that is still there. -/
inductive Op
  | add (id : Player) (x y : ℕ)
  | undo

/-- The coordinates of an added stone are on the board. -/
def Op.OnBoard : Op → Prop
  | .add _ x y => x < 9 ∧ y < 9
  | .undo => True

/-- The board, and for each stone that was added and not removed, the last one first, its
player, its point and the board before it. -/
structure Play where
  ttt : Ttt
  added : List (Player × ℕ × Ttt)

/-- One operation. There is nothing to undo where all stones are removed. -/
def playStep (s : Play) : Op → Option Play
  | .add id x y =>
      let p := point x y
      let (ret, ttt) := tttAdd s.ttt id p
      some ⟨ttt, if ret = 0 then (id, p, s.ttt) :: s.added else s.added⟩
  | .undo =>
      match s.added with
      | [] => none
      | (_, p, _) :: rest => some ⟨tttRemove s.ttt p, rest⟩

/-- The stones added and not removed, from the last to the first, lead down from the board,
each one from a valid board that it was free on. -/
inductive Stacked : List (Player × ℕ × Ttt) → Ttt → Prop
  | nil {ttt : Ttt} : Stacked [] ttt
  | cons {id : Player} {p : ℕ} {before : Ttt} {rest : List (Player × ℕ × Ttt)} :
      before.Valid → before.Free p → Stacked rest before →
      Stacked ((id, p, before) :: rest) (before.place id p)

/-- The board is valid, and the stones added lead to it. -/
def PlayInv (s : Play) : Prop := s.ttt.Valid ∧ Stacked s.added s.ttt

/-- Both operations keep the invariant. -/
theorem PlayInv.step {s t : Play} {op : Op} (h : PlayInv s) (hop : op.OnBoard)
    (hstep : playStep s op = some t) : PlayInv t := by
  obtain ⟨hvalid, hstacked⟩ := h
  cases op with
  | add id x y =>
      have hp : TicTacToe.OnBoard (point x y) := ⟨x, hop.1, y, hop.2, rfl⟩
      simp only [playStep, Option.some.injEq] at hstep
      subst hstep
      by_cases hf : s.ttt.Free (point x y)
      · rw [tttAdd_free hf]
        exact ⟨hvalid.place hp hf id, .cons hvalid hf hstacked⟩
      · rw [tttAdd_not_free hf]
        exact ⟨hvalid, hstacked⟩
  | undo =>
      obtain ⟨ttt, added⟩ := s
      cases hstacked with
      | nil => simp [playStep] at hstep
      | @cons id p before rest hbefore hf hrest =>
          simp only [playStep, Option.some.injEq] at hstep
          subst hstep
          have hrem : tttRemove (before.place id p) p = before := tttRemove_place hf id
          exact ⟨hrem.symm ▸ hbefore, hrem.symm ▸ hrest⟩

/-- The board before the last stone comes back when that stone is removed. -/
theorem PlayInv.restores {s : Play} (h : PlayInv s) {id : Player} {p : ℕ} {before : Ttt}
    {rest : List (Player × ℕ × Ttt)} (hadded : s.added = (id, p, before) :: rest) :
    tttRemove s.ttt p = before := by
  obtain ⟨-, hstacked⟩ := h
  obtain ⟨ttt, added⟩ := s
  obtain rfl : added = _ := hadded
  cases hstacked with
  | cons hbefore hf hrest => exact tttRemove_place hf id

/-- **The board stays consistent** in every run of additions, and removals of the last stone
that is still there: each block of the macro board is the verdict on the block; an addition
that fails changes nothing, and one that succeeds was to an undecided block and an empty
cell; and a removal gives back the board before the addition that it undoes. -/
theorem macro_consistent {ops : List Op} {s : Play}
    (h : Runs playStep (fun _ op => op.OnBoard) ⟨resetField, []⟩ ops s) :
    (∀ b < tttBlkNum, gb2 s.ttt.mField b = finishMap (s.ttt.sField b)) ∧
    (∀ id x y, x < 9 → y < 9 →
      ((tttAdd s.ttt id (point x y)).1 = -1 → (tttAdd s.ttt id (point x y)).2 = s.ttt) ∧
      ((tttAdd s.ttt id (point x y)).1 ≠ -1 →
        gb2 s.ttt.mField (blockMap (point x y)) = normal ∧
        gb2 (s.ttt.sField (blockMap (point x y))) (posMap (point x y)) = empty)) ∧
    ∀ id p before rest, s.added = (id, p, before) :: rest → tttRemove s.ttt p = before := by
  have hinv : PlayInv s := h.invariant ⟨resetField_valid, .nil⟩
    fun _ _ _ hu hop hstep => hu.step hop hstep
  refine ⟨hinv.1.verdicts, ?_, fun _ _ _ _ hadded => hinv.restores hadded⟩
  intro id x y _ _
  by_cases hf : s.ttt.Free (point x y)
  · rw [tttAdd_free hf]
    exact ⟨fun hret => absurd hret (by simp), fun _ => hf⟩
  · rw [tttAdd_not_free hf]
    exact ⟨fun _ => rfl, fun hret => absurd rfl hret⟩

/-- A stone put down, taken back and put down again. -/
theorem macro_consistent_again :
    ∃ s, Runs playStep (fun _ op => op.OnBoard) ⟨resetField, []⟩
        [.add .p1 4 4, .undo, .add .p2 4 4] s ∧
      ∀ b < tttBlkNum, gb2 s.ttt.mField b = finishMap (s.ttt.sField b) := by
  have hf := resetField_free (point 4 4)
  have hrun : Runs playStep (fun _ op => op.OnBoard) ⟨resetField, []⟩
      [.add .p1 4 4, .undo, .add .p2 4 4]
      ⟨resetField.place .p2 (point 4 4), [(.p2, point 4 4, resetField)]⟩ := by
    apply Runs.of_foldlM
    · simp [playStep, tttAdd_free hf, tttRemove_place hf]
    · simp [Op.OnBoard]
  exact ⟨_, hrun, (macro_consistent hrun).1⟩

end CCode.TicTacToe
