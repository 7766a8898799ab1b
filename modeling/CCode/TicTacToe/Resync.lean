import CCode.TicTacToe.Field

/-!
# Copying a tic-tac-toe board through an array

`ttt_get_field` writes the stones of a board into an array, and `ttt_set_field` adds the
stones of an array to an empty board again, row by row. That is not the order they were
added in, so that a block may be closed when some of its stones are still missing. It is then
closed with the same verdict: a line in some of the stones is one of the whole block, and
where nobody can complete a line any more, more stones do not change that. In a block that
stays open all stones are added.

## Main definitions

* `tttGetField`, `tttSetField` — the board as an array.
* `Within` — a block has some of the stones of another one.
* `Replays` — the invariant of the second loop.
-/

namespace CCode.TicTacToe

open CCode.Lib

/-- The cells in the order of the loops: row by row. -/
def fieldCells : List (ℕ × ℕ) :=
  (List.range 9).flatMap fun y => (List.range 9).map fun x => (y, x)

/-- `ttt_get_field`. -/
def tttGetField (ttt : Ttt) (y x : ℕ) : Int :=
  gb1 (ttt.sField (blockMap (point x y))) (posOffMap (point x y))

/-- One round of `ttt_set_field`: a stone of one of the players is added. -/
def setCell (field : ℕ → ℕ → Int) (ttt : Ttt) (c : ℕ × ℕ) : Ttt :=
  match Player.ofId (field c.1 c.2) with
  | some id => (tttAdd ttt id (point c.2 c.1)).2
  | none => ttt

/-- `ttt_set_field`, which starts by clearing the board. -/
def tttSetField (field : ℕ → ℕ → Int) : Ttt := fieldCells.foldl (setCell field) resetField

/-! ## Some of the stones of a block -/

/-- The stones of one word are some of those of another one. -/
def Within (w s : ℕ) : Prop := ∀ o, gb2 w o = empty ∨ gb2 w o = gb2 s o

namespace Within

variable {w s : ℕ} {id : Player}

/-- A line in some of the stones is one. -/
theorem line (h : Within w s) (hl : Line id w) : Line id s := by
  obtain ⟨l, hmem, hc⟩ := hl
  refine ⟨l, hmem, ?_⟩
  intro c hcl
  have hcell := hc c hcl
  rcases h c with hemp | heq
  · rw [hemp] at hcell
    cases id <;> exact absurd hcell (by decide)
  · rw [← heq, hcell]

/-- A line that can be completed can be completed with fewer stones. -/
theorem canWin (h : Within w s) (hcan : CanWin id s) : CanWin id w := by
  obtain ⟨l, hmem, hc⟩ := hcan
  refine ⟨l, hmem, ?_⟩
  intro c hcl
  rcases h c with hemp | heq
  · exact .inl hemp
  · rw [heq]
    exact hc c hcl

/-- **A verdict on some of the stones is the verdict on all of them.** -/
theorem finishMap_eq (h : Within w s) (hw : w < mapSize) (hs : s < mapSize)
    (hone : ∀ id, Line id s → ¬ Line id.opId s) (hclosed : finishMap w ≠ normal) :
    finishMap w = finishMap s := by
  rcases finishMap_cases hw with hnorm | ⟨id, hid⟩ | hdraw
  · exact absurd hnorm hclosed
  · have hl := h.line (line_of_finishMap hw hid)
    rw [hid, finishMap_of_line hs hl (hone id hl)]
  · rw [hdraw, eq_comm, finishMap_eq_draw_iff hs]
    intro id hcan
    exact (finishMap_eq_draw_iff hw).mp hdraw id (h.canWin hcan)

end Within

/-- The stones of a word are those of another one if they are some of them and all cells
agree. -/
theorem word_eq {w s : ℕ} (hw : w < mapSize) (hs : s < mapSize)
    (h : ∀ o < tttBlkNum, gb2 w o = gb2 s o) : w = s := by
  apply Packed.ext (w := 2) (by decide)
  intro o
  by_cases ho : o < tttBlkNum
  · exact h o ho
  · rw [Packed.get_of_le hw (by omega), Packed.get_of_le hs (by omega)]

/-! ## The loop -/

/-- The state of the loop after some of the cells: the blocks have some of the stones of the
board, and an open block has all those that the loop has seen. -/
structure Replays (ttt : Ttt) (done : List (ℕ × ℕ)) (u : Ttt) : Prop where
  valid : u.Valid
  within : ∀ b, Within (u.sField b) (ttt.sField b)
  seen : ∀ c ∈ done, u.block (blockMap (point c.2 c.1)) = normal →
    u.cell (blockMap (point c.2 c.1)) (posMap (point c.2 c.1)) =
      ttt.cell (blockMap (point c.2 c.1)) (posMap (point c.2 c.1))

theorem replays_nil (ttt : Ttt) : Replays ttt [] resetField where
  valid := resetField_valid
  within _ o := .inl (Packed.get_zero 2 o)
  seen _ hc := absurd hc List.not_mem_nil

/-- What is read from the array. -/
theorem ofId_tttGetField {ttt : Ttt} (h : ttt.Valid) (y x : ℕ) :
    (ttt.cell (blockMap (point x y)) (posMap (point x y)) = empty ∧
      Player.ofId (tttGetField ttt y x) = none) ∨
    ∃ id : Player, ttt.cell (blockMap (point x y)) (posMap (point x y)) = id.id ∧
      Player.ofId (tttGetField ttt y x) = some id := by
  have hlt := Packed.get_lt 2 (ttt.sField (blockMap (point x y))) (posMap (point x y))
  have hne := h.stones (blockMap (point x y)) (posMap (point x y))
  have hfield : tttGetField ttt y x = (ttt.cell (blockMap (point x y)) (posMap (point x y)) : ℕ) :=
    rfl
  rw [hfield]
  change ttt.cell (blockMap (point x y)) (posMap (point x y)) < 2 ^ 2 at hlt
  generalize ttt.cell (blockMap (point x y)) (posMap (point x y)) = v at hlt hne
  interval_cases v
  · exact .inl ⟨rfl, rfl⟩
  · exact .inr ⟨.p1, rfl, rfl⟩
  · exact .inr ⟨.p2, rfl, rfl⟩
  · exact absurd rfl hne

namespace Replays

variable {ttt u : Ttt} {done : List (ℕ × ℕ)} {y x : ℕ}

/-- A round that leaves the board alone, where the cell has its stone or its block is
closed. -/
theorem skip (h : Replays ttt done u)
    (hcell : u.block (blockMap (point x y)) = normal →
      u.cell (blockMap (point x y)) (posMap (point x y)) =
        ttt.cell (blockMap (point x y)) (posMap (point x y))) :
    Replays ttt (done ++ [(y, x)]) u := by
  refine ⟨h.valid, h.within, ?_⟩
  intro c hc
  rcases List.mem_append.mp hc with hc | hc
  · exact h.seen c hc
  · rw [List.mem_singleton.mp hc]
    exact hcell

/-- A round that puts the stone of the board into the cell. -/
theorem place (h : Replays ttt done u) (hp : OnBoard (point x y)) (hf : u.Free (point x y))
    {id : Player} (hcell : ttt.cell (blockMap (point x y)) (posMap (point x y)) = id.id) :
    Replays ttt (done ++ [(y, x)]) (u.place id (point x y)) := by
  refine ⟨h.valid.place hp hf id, ?_, ?_⟩
  · intro b o
    have hplace := cell_place hf id b o
    rw [Ttt.cell] at hplace
    rw [hplace]
    split_ifs with heq
    · rw [heq.1, heq.2]
      exact .inr hcell.symm
    · exact h.within b o
  · intro c hc hnorm
    rw [cell_place hf]
    split_ifs with heq
    · rw [heq.1, heq.2, hcell]
    · -- another cell than this round's
      have hdone : c ∈ done := by
        refine (List.mem_append.mp hc).resolve_right ?_
        intro hnew
        rw [List.mem_singleton.mp hnew] at heq
        exact heq ⟨rfl, rfl⟩
      refine h.seen c hdone ?_
      by_cases hb : blockMap (point c.2 c.1) = blockMap (point x y)
      · rw [hb]
        exact hf.1
      · rw [block_place_of_ne id hb] at hnorm
        exact hnorm

/-- **One round of the loop.** -/
theorem step (h : Replays ttt done u) (hvalid : ttt.Valid) (hy : y < 9) (hx : x < 9) :
    Replays ttt (done ++ [(y, x)]) (setCell (tttGetField ttt) u (y, x)) := by
  have hwithin := h.within (blockMap (point x y)) (posMap (point x y))
  rcases ofId_tttGetField hvalid y x with ⟨hcell, hid⟩ | ⟨id, hcell, hid⟩
  · simp only [setCell, hid]
    apply h.skip
    intro _
    rcases hwithin with hemp | heq
    · exact hemp.trans hcell.symm
    · exact heq
  · simp only [setCell, hid]
    by_cases hf : u.Free (point x y)
    · rw [tttAdd_free hf]
      exact h.place ⟨x, hx, y, hy, rfl⟩ hf hcell
    · rw [tttAdd_not_free hf]
      apply h.skip
      intro hnorm
      exact hwithin.resolve_left fun hemp => hf ⟨hnorm, hemp⟩

end Replays

theorem mem_fieldCells {c : ℕ × ℕ} : c ∈ fieldCells ↔ c.1 < 9 ∧ c.2 < 9 := by
  obtain ⟨y, x⟩ := c
  simp [fieldCells]

/-- The whole loop. -/
theorem Replays.foldl {ttt : Ttt} (hvalid : ttt.Valid) {cells done : List (ℕ × ℕ)}
    (hcells : ∀ c ∈ cells, c.1 < 9 ∧ c.2 < 9) {u : Ttt} (h : Replays ttt done u) :
    Replays ttt (done ++ cells) (cells.foldl (setCell (tttGetField ttt)) u) := by
  induction cells generalizing done u with
  | nil => rwa [List.append_nil]
  | cons c cells ih =>
      obtain ⟨hc, hrest⟩ := List.forall_mem_cons.mp hcells
      have hstep := ih hrest (h.step hvalid hc.1 hc.2)
      rwa [List.append_assoc, List.singleton_append] at hstep

/-- After the loop a block is closed with the same verdict, and an open one has all stones. -/
theorem Replays.block {ttt u : Ttt} (h : Replays ttt fieldCells u) (hvalid : ttt.Valid) {b : ℕ}
    (hb : b < tttBlkNum) :
    u.block b = ttt.block b ∧ (ttt.block b = normal → u.sField b = ttt.sField b) := by
  have hlt := h.valid.sField_lt b
  have hlt' := hvalid.sField_lt b
  have hopen : u.block b = normal → u.sField b = ttt.sField b := by
    intro hnorm
    apply word_eq hlt hlt'
    intro o ho
    obtain ⟨hblock, hpos⟩ := bo2poMap_spec b hb o ho
    obtain ⟨x, hx, y, hy, hpt⟩ := bo2poMap_onBoard hb ho
    have hseen := h.seen (y, x) (mem_fieldCells.mpr ⟨hy, hx⟩)
    simp only [← hpt, hblock, hpos] at hseen
    exact hseen hnorm
  have heq : u.block b = ttt.block b := by
    rw [h.valid.verdicts b hb, hvalid.verdicts b hb]
    by_cases hnorm : u.block b = normal
    · rw [hopen hnorm]
    · rw [h.valid.verdicts b hb] at hnorm
      exact (h.within b).finishMap_eq hlt hlt' (hvalid.one_line b) hnorm
  exact ⟨heq, fun hnorm => hopen (heq.trans hnorm)⟩

/-- **The board survives the array.** After additions in any order, the board that
`ttt_set_field` makes of the array of `ttt_get_field` has the same macro board, and the same
stones in every block that is undecided. -/
theorem resync_exact {moves : List (Player × ℕ)} {ttt : Ttt} (h : Reached moves ttt) :
    (tttSetField (tttGetField ttt)).mField = ttt.mField ∧
      ∀ b < tttBlkNum, gb2 ttt.mField b = normal →
        (tttSetField (tttGetField ttt)).sField b = ttt.sField b := by
  have hvalid := h.valid
  have hcells : ∀ c ∈ fieldCells, c.1 < 9 ∧ c.2 < 9 := fun c hc => mem_fieldCells.mp hc
  have hreplay := Replays.foldl hvalid hcells (replays_nil ttt)
  rw [List.nil_append] at hreplay
  constructor
  · apply word_eq hreplay.valid.mField_lt hvalid.mField_lt
    intro b hb
    exact (hreplay.block hvalid hb).1
  · intro b hb
    exact (hreplay.block hvalid hb).2

/-- Two stones of two blocks. -/
theorem resync_exact_two :
    ∃ ttt, Reached [(.p1, point 4 4), (.p2, point 3 0)] ttt ∧
      (tttSetField (tttGetField ttt)).mField = ttt.mField := by
  have hone : Reached [(.p1, point 4 4)] (resetField.place .p1 (point 4 4)) :=
    Reached.snoc .refl ⟨4, by decide, 4, by decide, rfl⟩ (resetField_free _) .p1
  have hfree : (resetField.place .p1 (point 4 4)).Free (point 3 0) :=
    (resetField_free _).place_of_ne .p1 (by decide)
  have htwo := hone.snoc ⟨3, by decide, 0, by decide, rfl⟩ hfree .p2
  exact ⟨_, htwo, (resync_exact htwo).1⟩

end CCode.TicTacToe
