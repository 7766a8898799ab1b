import CCode.Lib.Deepening
import CCode.TicTacToe.Exact

/-!
# The choice of a point

`cal_point` of `ai_core.c` searches the board to one depth after the other until a search
finds that one of the players wins or that the game is a tie, or took too long. If the opponent
wins it answers with the point of the depth before, otherwise with that of the last one. Its
`dbg_steps` does nothing.

A cell that no stone was tried in keeps the value zero, and no cell with a stone has it: at
the leaves the values are from 16 on, a win is 127, and going up they only change their sign.
So the choice is among cells that a stone was tried in, as long as there is one.

## Main definitions

* `endsDepths`, `selectDepth`, `calPoint` — the choice.
* `Tries` — the positions of the loops over some cells.
-/

namespace CCode.TicTacToe

open CCode.Lib

/-- `MIN_STEP`. -/
abbrev minStep : ℕ := 1

/-- `MAX_STEP`. -/
abbrev maxStep : ℕ := 81

/-- `TOTAL_TIME_MS`. -/
abbrev totalTimeMs : Int := 2000

/-- The test that ends the loop over the depths. -/
def endsDepths (clock : ℕ → Timeval × Timeval) (step : ℕ) (curPos : Position) : Bool :=
  curPos.value = win || curPos.value = -win || curPos.value = tied || curPos.value = -tied ||
    overTime 20 totalTimeMs (clock step)

/-- The variables in front of the loop; `last_pos` is assigned before it is read. -/
def depthStart (s : Search) : Deepening Position Search := ⟨minStep, ⟨0, 0, 0⟩, ⟨0, 0, 0⟩, s⟩

/-- The end of `cal_point`: the point of the last depth or of the one before. -/
def selectDepth (d : Deepening Position Search) : ℕ × Search :=
  if -d.cur.value = -win ∧ d.step ≠ minStep then (d.last.point, d.state)
  else (d.cur.point, d.state)

/-- `cal_point`: the point, and the state that is left. -/
def calPoint (clock : ℕ → Timeval × Timeval) (id : Player) (macroboard : ℕ → Int) (s : Search) :
    ℕ × Search :=
  selectDepth (deepen (fun step => maxScore step id macroboard) (endsDepths clock)
    (maxStep - minStep) (depthStart s))

/-! ## What a search picks -/

/-- The entries with the largest value are entries of cells that a stone was tried in. -/
theorem mem_of_mem_select {ps : List Position} {pos : Position} (h : pos ∈ (select ps).2) :
    pos ∈ ps ∧ pos.value ≠ full := by
  induction ps using List.reverseRecOn with
  | nil => simp [select] at h
  | append_singleton ps q ih =>
      rw [select, List.foldl_append, List.foldl_cons, List.foldl_nil, selectStep] at h
      split_ifs at h with hgt heq
      · rw [List.mem_singleton.mp h]
        exact ⟨by simp, hgt.2⟩
      · rcases List.mem_append.mp h with h | h
        · exact ⟨List.mem_append_left _ (ih h).1, (ih h).2⟩
        · rw [List.mem_singleton.mp h]
          exact ⟨by simp, heq.2⟩
      · exact ⟨List.mem_append_left _ (ih h).1, (ih h).2⟩

/-- The choice is the point of one of these cells, if there is any. -/
theorem choose_point (nextP : ℕ) {res : List Position × Search}
    (hps : ∀ pos ∈ res.1, -win ≤ pos.value) (htried : tried res.1 ≠ []) :
    ∃ pos ∈ res.1, pos.value ≠ full ∧ (choose nextP res).1.point = pos.point := by
  rw [choose]
  split
  case h_1 hnil =>
    rcases (select_picks hps).best with ⟨-, hnone⟩ | ⟨hne, -⟩
    · exact absurd hnone htried
    · exact absurd hnil hne
  case h_2 pos qs hcons =>
    have hlt : res.2.draw.1 % (pos :: qs).length < (pos :: qs).length :=
      Nat.mod_lt _ (by simp)
    have hmem : (pos :: qs).getD (res.2.draw.1 % (pos :: qs).length) pos ∈ (select res.1).2 := by
      rw [hcons, List.getD_eq_getElem _ _ hlt]
      exact List.getElem_mem hlt
    obtain ⟨hmem', hne⟩ := mem_of_mem_select hmem
    exact ⟨_, hmem', hne, rfl⟩

section Loops

variable {child : (ℕ → Int) → Search → Position × Search} {ttt : Ttt} {id : Player}
  {steps : ℕ}

theorem evaluate_point (child : (ℕ → Int) → Search → Position × Search) (id : Player)
    (steps o p : ℕ) (s : Search) : (evaluate child id steps o p s).1.point = p := by
  simp only [evaluate]
  split_ifs
  · rfl
  · rfl
  · rfl

/-- The entries of cells that a stone was tried in have the points of these cells, and the
stone was taken. -/
def Tries (ttt : Ttt) (cs : List (ℕ × ℕ)) (ps : List Position) : Prop :=
  ∀ pos ∈ ps, pos.value ≠ full →
    ∃ c ∈ cs, ttt.Free (bo2poMap c.1 c.2) ∧ pos.point = bo2poMap c.1 c.2

theorem scan_tries {Right : ℕ × ℕ → Int → Prop} {cs : List (ℕ × ℕ)}
    (hcell : ∀ c ∈ cs, ttt.Free (bo2poMap c.1 c.2) →
      Finds ttt (Right c) (tryCell child id steps c)) {s : Search} (hs : s.ttt = ttt) :
    Tries ttt cs (scan child id steps cs s).1 := by
  induction cs generalizing s with
  | nil =>
      intro pos hpos
      simp [scan] at hpos
  | cons c cs ih =>
      obtain ⟨hc, hcs⟩ := List.forall_mem_cons.mp hcell
      have hrest : ∀ {s : Search}, s.ttt = ttt → ∀ pos ∈ (scan child id steps cs s).1,
          pos.value ≠ full →
          ∃ c' ∈ c :: cs, ttt.Free (bo2poMap c'.1 c'.2) ∧ pos.point = bo2poMap c'.1 c'.2 := by
        intro s hs pos hpos hne
        obtain ⟨c', hc', hfree⟩ := ih hcs hs pos hpos hne
        exact ⟨c', List.mem_cons_of_mem _ hc', hfree⟩
      intro pos hpos hne
      by_cases hf : ttt.Free (bo2poMap c.1 c.2)
      · obtain ⟨httt, -⟩ := hc hf s hs
        simp only [scan] at hpos
        rcases List.mem_cons.mp hpos with rfl | hpos
        · have hadd := tttAdd_free hf id
          rw [← hs] at hadd
          refine ⟨c, List.mem_cons_self, hf, ?_⟩
          simp only [tryCell, hadd, lt_irrefl, if_false]
          exact evaluate_point child id steps c.2 _ _
        · exact hrest httt pos hpos hne
      · have hblank : tryCell child id steps c s = (blank, s) := tryCell_not_free (hs ▸ hf)
        simp only [scan, hblank] at hpos
        rcases List.mem_cons.mp hpos with rfl | hpos
        · exact absurd rfl hne
        · exact hrest hs pos hpos hne

end Loops

/-- The stones of one ply of the search are taken back. -/
theorem tryCell_finds (n : ℕ) {ttt : Ttt} (id : Player) {mboard : ℕ → Int} {c : ℕ × ℕ}
    (hc : c ∈ markedCells mboard) (hf : ttt.Free (bo2poMap c.1 c.2)) :
    Finds ttt (fun _ => True) (tryCell (maxScore n id.opId) id (n + 1) c) := by
  have hweak : ∀ {Right : Int → Prop} {f : Search → Position × Search}, Finds ttt Right f →
      Finds ttt (fun _ => True) f := fun h s hs => ⟨(h s hs).1, (h s hs).2.1, trivial⟩
  cases n with
  | zero => exact hweak (tryCell_free hf (evaluate_one _ _ id _ _))
  | succ n =>
      obtain ⟨⟨hb, -⟩, ho⟩ := mem_markedCells.mp hc
      exact hweak (tryCell_free hf
        (evaluate_succ ⟨hb, ho⟩ fun mboard => maxScore_finds n _ _ mboard))

/-- **A search answers with a free point** of a marked block, if there is one. -/
theorem maxScore_point (n : ℕ) {ttt : Ttt} (id : Player) {mboard : ℕ → Int}
    (hfree : ∃ c ∈ markedCells mboard, ttt.Free (bo2poMap c.1 c.2)) {s : Search}
    (hs : s.ttt = ttt) :
    ∃ c ∈ markedCells mboard, ttt.Free (bo2poMap c.1 c.2) ∧
      (maxScore (n + 1) id mboard s).1.point = bo2poMap c.1 c.2 := by
  have hcell : ∀ c ∈ markedCells mboard, ttt.Free (bo2poMap c.1 c.2) →
      Finds ttt (fun _ => True) (tryCell (maxScore n id.opId) id (n + 1) c) :=
    fun c hc hf => tryCell_finds n id hc hf
  have htries := scan_tries hcell (s := { s with stack := fun n => s.stack (n + 1) }) hs
  have hfinds : ∀ c ∈ markedCells mboard, ttt.Free (bo2poMap c.1 c.2) →
      Finds ttt ((fun _ _ => True : ℕ × ℕ → Int → Prop) c)
        (tryCell (maxScore n id.opId) id (n + 1) c) := hcell
  obtain ⟨-, hlow, entries, hent⟩ := scan_finds hfinds
    (s := { s with stack := fun n => s.stack (n + 1) }) hs
  have htried : tried (scan (maxScore n id.opId) id (n + 1) (markedCells mboard)
      { s with stack := fun n => s.stack (n + 1) }).1 ≠ [] := by
    obtain ⟨c, hc, hf⟩ := hfree
    obtain ⟨e, he, -⟩ := hent.complete c hc hf
    rw [← hent.values]
    exact List.ne_nil_of_mem (List.mem_map_of_mem he)
  rw [maxScore]
  obtain ⟨pos, hpos, hne, hpoint⟩ := choose_point (s.stack 0) hlow htried
  rw [hpoint]
  exact htries pos hpos hne

/-! ## The choice of a point -/

section Choice

variable (id : Player) (mboard : ℕ → Int) {s : Search}

/-- Every search leaves the board as it is. -/
theorem iter_ttt (n : ℕ) :
    (Deepening.iter (fun step => maxScore step id mboard) n (depthStart s)).state.ttt = s.ttt := by
  refine Deepening.iter_rule (I := fun t : Search => t.ttt = s.ttt) rfl ?_ n
  intro step t ht
  cases step with
  | zero => exact ht
  | succ n => exact (maxScore_finds n s.ttt id mboard t ht).1

/-- What is kept and found behind every depth. -/
theorem round_point (hfree : ∃ c ∈ markedCells mboard, s.ttt.Free (bo2poMap c.1 c.2)) (n : ℕ) :
    let d := Deepening.round (fun step => maxScore step id mboard) n (depthStart s)
    d.state.ttt = s.ttt ∧ ∃ c ∈ markedCells mboard, s.ttt.Free (bo2poMap c.1 c.2) ∧
      d.cur.point = bo2poMap c.1 c.2 := by
  have hiter := iter_ttt id mboard (s := s) n
  have hstep : (depthStart s).step + n = n + 1 := Nat.add_comm 1 n
  intro d
  have hstate := iter_ttt id mboard (s := s) (n + 1)
  rw [Deepening.iter_succ] at hstate
  refine ⟨hstate, ?_⟩
  rw [Deepening.round_cur, hstep]
  exact maxScore_point n id hfree hiter

end Choice

/-- **The choice is a legal point.** On every board that stones led to, for all marked blocks
of which one at least is undecided, for any clock readings and any results of `rand`,
`cal_point` answers with an empty cell of a marked and undecided block, and leaves the board
as it was. -/
theorem point_choice {moves : List (Player × ℕ)} {ttt : Ttt} (hreached : Reached moves ttt)
    (clock : ℕ → Timeval × Timeval) (id : Player) {macroboard : ℕ → Int}
    (hmark : ∃ b < tttBlkNum, macroboard b ≠ 0 ∧ gb2 ttt.mField b = normal)
    (rand stack : ℕ → ℕ) :
    let res := calPoint clock id macroboard ⟨ttt, rand, stack⟩
    (∃ b < tttBlkNum, macroboard b ≠ 0 ∧ gb2 ttt.mField b = normal ∧
      ∃ o < tttBlkNum, gb2 (ttt.sField b) o = empty ∧ res.1 = bo2poMap b o) ∧
    res.2.ttt.mField = ttt.mField ∧ res.2.ttt.sField = ttt.sField := by
  obtain ⟨b, hb, hne, hnorm⟩ := hmark
  obtain ⟨o, ho, hf⟩ := hreached.valid.exists_free hb hnorm
  have hfree : ∃ c ∈ markedCells macroboard, ttt.Free (bo2poMap c.1 c.2) :=
    ⟨(b, o), mem_markedCells.mpr ⟨⟨hb, hne⟩, ho⟩, hf⟩
  have hround := round_point id macroboard (s := ⟨ttt, rand, stack⟩) hfree
  obtain ⟨n, hcur, hstate, hlast⟩ := deepen_results (fun step => maxScore step id macroboard)
    (endsDepths clock) (by decide : 2 ≤ maxStep - minStep) (depthStart ⟨ttt, rand, stack⟩)
  intro res
  have hres : res.2.ttt = ttt ∧ ∃ c ∈ markedCells macroboard, ttt.Free (bo2poMap c.1 c.2) ∧
      res.1 = bo2poMap c.1 c.2 := by
    simp only [res, calPoint, selectDepth]
    split_ifs with hloses
    · obtain ⟨m, hm⟩ := hlast hloses.2
      rw [hm, hstate]
      exact ⟨(hround n).1, (hround m).2⟩
    · rw [hcur, hstate]
      exact hround n
  obtain ⟨httt, ⟨b, o⟩, hc, hf, hpoint⟩ := hres
  obtain ⟨⟨hb, hne⟩, ho⟩ := mem_markedCells.mp hc
  obtain ⟨hblock, hpos⟩ := bo2poMap_spec b hb o ho
  rw [Ttt.Free, hblock, hpos] at hf
  rw [httt]
  exact ⟨⟨b, hb, hne, hf.1, o, ho, hf.2, hpoint⟩, rfl, rfl⟩

/-- The first point of a game, with all blocks marked. -/
theorem point_choice_first :
    let res := calPoint (fun _ => (⟨0, 0⟩, ⟨0, 1500⟩)) .p1 (fun _ => -1)
      ⟨resetField, fun n => 3 * n, fun _ => 0⟩
    (∃ b < tttBlkNum, (-1 : Int) ≠ 0 ∧ gb2 resetField.mField b = normal ∧
      ∃ o < tttBlkNum, gb2 (resetField.sField b) o = empty ∧ res.1 = bo2poMap b o) ∧
    res.2.ttt.mField = resetField.mField ∧ res.2.ttt.sField = resetField.sField :=
  point_choice (.refl : Reached [] resetField) _ .p1 ⟨0, by decide, by decide, by decide⟩ _ _

end CCode.TicTacToe
