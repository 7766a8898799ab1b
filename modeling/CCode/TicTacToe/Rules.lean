import CCode.TicTacToe.Field

/-!
# Where the next stone may go

A stone in some cell of its block sends the other player to the block with the number of
that cell, or to any undecided block if that one is decided. The rule is written twice: the
server marks the blocks in `set_m_field`, and the search of the player marks them for its
own moves in `max_score`.

As long as the macro board is undecided there is a move: a line that can still be completed
has a block without a verdict, and such a block has an empty cell.

## Main definitions

* `setMField`, `nextmBoard` — the two copies of the rule.
-/

namespace CCode.TicTacToe

open CCode.Lib

/-- `set_m_field` of `server.c`: the blocks that are marked after a stone at `p`. All nine
entries are written. -/
def setMField (ttt : Ttt) (p : ℕ) : ℕ → Int :=
  if gb2 ttt.mField (posMap p) = normal then Function.update (fun _ => 0) (posMap p) (-1)
  else fun i => if gb2 ttt.mField i = normal then -1 else 0

/-- The blocks that `max_score` marks for the next ply, after a stone in cell `o` of its
block. -/
def nextmBoard (ttt : Ttt) (o : ℕ) : ℕ → Int :=
  if gb2 ttt.mField o = normal then Function.update (fun _ => 0) o (-1)
  else fun i => if gb2 ttt.mField i = normal then -1 else 0

/-- The two copies agree. -/
theorem nextmBoard_eq (ttt : Ttt) {b o : ℕ} (hb : b < tttBlkNum) (ho : o < tttBlkNum) :
    nextmBoard ttt o = setMField ttt (bo2poMap b o) := by
  rw [nextmBoard, setMField, (bo2poMap_spec b hb o ho).2]

/-- Only undecided blocks are marked. -/
theorem normal_of_marked {ttt : Ttt} {p b : ℕ} (h : setMField ttt p b ≠ 0) :
    ttt.block b = normal := by
  rw [setMField] at h
  split_ifs at h with hnorm
  · by_cases hb : b = posMap p
    · rw [hb]
      exact hnorm
    · rw [Function.update_of_ne hb] at h
      exact absurd rfl h
  · by_contra hne
    exact h (if_neg hne)

/-- A block is marked if one is undecided. -/
theorem exists_marked {ttt : Ttt} {p b : ℕ} (hp : OnBoard p) (hb : b < tttBlkNum)
    (hnorm : ttt.block b = normal) : ∃ b < tttBlkNum, setMField ttt p b ≠ 0 := by
  by_cases h : gb2 ttt.mField (posMap p) = normal
  · refine ⟨posMap p, hp.pos_lt, ?_⟩
    rw [setMField, if_pos h, Function.update_self]
    decide
  · refine ⟨b, hb, ?_⟩
    simp only [setMField, if_neg h]
    rw [if_pos (show gb2 ttt.mField b = normal from hnorm)]
    decide

/-- An undecided block takes a stone of either player. -/
theorem Ttt.Valid.exists_free {ttt : Ttt} (h : ttt.Valid) {b : ℕ} (hb : b < tttBlkNum)
    (hnorm : ttt.block b = normal) : ∃ o < tttBlkNum, ttt.Free (bo2poMap b o) := by
  have hfin := hnorm
  rw [h.verdicts b hb] at hfin
  obtain ⟨o, ho, hemp⟩ := exists_empty (h.sField_lt b) hfin
  obtain ⟨hblock, hpos⟩ := bo2poMap_spec b hb o ho
  refine ⟨o, ho, ?_, ?_⟩
  · rw [hblock]
    exact hnorm
  · rw [hblock, hpos]
    exact hemp

/-- **There is a next move, and both copies of the rule know the same ones.** After a last
stone at `p` with an undecided macro board, the server marks at least one block, every marked
block has a cell where an addition succeeds for either player, and the search that puts the
same stone marks exactly the same blocks for its next ply. -/
theorem next_move {moves : List (Player × ℕ)} {id : Player} {p : ℕ} {ttt : Ttt}
    (h : Reached (moves ++ [(id, p)]) ttt) (hnorm : tttIsMFinish ttt = normal) :
    (∃ b < tttBlkNum, setMField ttt p b ≠ 0) ∧
    (∀ b < tttBlkNum, setMField ttt p b ≠ 0 → ∃ o < tttBlkNum, ∀ id,
      (tttAdd ttt id (bo2poMap b o)).1 = 0) ∧
    ∀ b < tttBlkNum, ∀ o < tttBlkNum, bo2poMap b o = p → nextmBoard ttt o = setMField ttt p := by
  have hvalid := h.valid
  obtain ⟨-, -, hp, -⟩ := Runs.last h
  refine ⟨?_, ?_, ?_⟩
  · obtain ⟨b, hb, hemp⟩ := exists_empty hvalid.mField_lt hnorm
    exact exists_marked hp hb hemp
  · intro b hb hmark
    obtain ⟨o, ho, hfree⟩ := hvalid.exists_free hb (normal_of_marked hmark)
    exact ⟨o, ho, fun id => (tttAdd_eq_zero_iff id).mpr hfree⟩
  · intro b hb o ho heq
    rw [← heq]
    exact nextmBoard_eq ttt hb ho

/-- A first stone in the middle of a block on the left. -/
theorem next_move_first :
    ∃ ttt, Reached [(.p1, point 1 4)] ttt ∧ tttIsMFinish ttt = normal ∧
      ∃ b < tttBlkNum, setMField ttt (point 1 4) b ≠ 0 := by
  have hreach : Reached ([] ++ [(.p1, point 1 4)]) (resetField.place .p1 (point 1 4)) :=
    Reached.snoc .refl ⟨1, by decide, 4, by decide, rfl⟩ (resetField_free _) .p1
  have hstone : finishMap (resetField.stone .p1 (point 1 4)) = normal := by
    rw [finishMap_eq_normal_iff (by decide)]
    refine ⟨fun id => ?_, .p1, by decide⟩
    cases id
    · decide
    · decide
  have hnorm : tttIsMFinish (resetField.place .p1 (point 1 4)) = normal := by
    rw [tttIsMFinish, Ttt.place, hstone]
    exact finishMap_zero
  exact ⟨_, hreach, hnorm, (next_move hreach hnorm).1⟩

end CCode.TicTacToe
