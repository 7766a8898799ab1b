import CCode.TicTacToe.Search

/-!
# The tic-tac-toe search is exact

The search keeps no table, so what it says about a position depends on nothing but the
position, up to `rand`; and `rand` decides between equal values, and on values strictly
inside the scale. Depth by depth, the two ends of the scale are the positions that are won
and lost within one ply less.

Nothing is assumed of the board: a stone goes into an undecided block and an empty cell, and
taking it back restores the board, whether or not the board was reached in a game.

## Main definitions

* `tttGame` — the game, with the blocks that the server marks.
* `Finds` — a part of a search leaves the board as it is and gives a right value.
-/

namespace CCode.TicTacToe

open CCode.Lib

/-- The game: a board, the marked blocks and the player to move, who puts a stone into a
cell of a marked block where `ttt_add` takes it, and wins with a line of blocks. -/
def tttGame : Game (Ttt × (ℕ → Int) × Player) where
  next s t := ∃ b < tttBlkNum, s.2.1 b ≠ 0 ∧ ∃ o < tttBlkNum, ∃ ttt,
    tttAdd s.1 s.2.2 (bo2poMap b o) = (0, ttt) ∧
      t = (ttt, setMField ttt (bo2poMap b o), s.2.2.opId)
  won t := tttIsMFinish t.1 = t.2.2.opId.id

/-- The position after a stone. -/
def after (ttt : Ttt) (id : Player) (c : ℕ × ℕ) : Ttt × (ℕ → Int) × Player :=
  let p := bo2poMap c.1 c.2
  (ttt.place id p, setMField (ttt.place id p) p, id.opId)

theorem mem_markedCells {mboard : ℕ → Int} {c : ℕ × ℕ} :
    c ∈ markedCells mboard ↔ (c.1 < tttBlkNum ∧ mboard c.1 ≠ 0) ∧ c.2 < tttBlkNum := by
  obtain ⟨b, o⟩ := c
  simp [markedCells]

/-- The moves of the game are the stones that the loops can put. -/
theorem next_iff {ttt : Ttt} {mboard : ℕ → Int} {id : Player}
    {t : Ttt × (ℕ → Int) × Player} :
    tttGame.next (ttt, mboard, id) t ↔
      ∃ c ∈ markedCells mboard, ttt.Free (bo2poMap c.1 c.2) ∧ t = after ttt id c := by
  constructor
  · intro ⟨b, hb, hmark, o, ho, ttt', hadd, ht⟩
    have hf : ttt.Free (bo2poMap b o) := by
      rw [← tttAdd_eq_zero_iff id, hadd]
    simp only at hadd
    rw [tttAdd_free hf, Prod.mk.injEq] at hadd
    obtain rfl := hadd.2
    exact ⟨(b, o), mem_markedCells.mpr ⟨⟨hb, hmark⟩, ho⟩, hf, ht⟩
  · intro ⟨c, hc, hf, ht⟩
    obtain ⟨⟨hb, hmark⟩, ho⟩ := mem_markedCells.mp hc
    exact ⟨c.1, hb, hmark, c.2, ho, _, tttAdd_free hf id, ht⟩

/-- The values that a cell with a stone can have. -/
def InRange (v : Int) : Prop := v ≠ full ∧ -win ≤ v ∧ v ≤ win

/-- A part of a search, started on a board, leaves it as it is and gives a right value. -/
def Finds (ttt : Ttt) (Right : Int → Prop) (f : Search → Position × Search) : Prop :=
  ∀ s, s.ttt = ttt → (f s).2.ttt = ttt ∧ InRange (f s).1.value ∧ Right (f s).1.value

/-! ## One cell -/

section Cell

variable {child : (ℕ → Int) → Search → Position × Search} {ttt : Ttt} {id : Player}
  {c : ℕ × ℕ} {n : ℕ}

/-- At depth 1 nothing is a win or a loss. -/
theorem evaluate_one (child : (ℕ → Int) → Search → Position × Search) (ttt : Ttt) (id : Player)
    (o p : ℕ) : Finds ttt (fun v => v ≠ -win ∧ v ≠ win) (evaluate child id 1 o p) := by
  intro s hs
  have hand : s.rand 0 &&& (0x40 - 1) ≤ 0x40 - 1 := Nat.and_le_right
  simp only [evaluate, if_true, Search.draw]
  refine ⟨hs, ?_, ?_⟩
  · simp only [InRange, full, win, normalMim]
    omega
  · simp only [win, normalMim]
    omega

/-- Below, the value of a stone is that of the position after it, unless it wins. -/
theorem evaluate_succ (hc : c.1 < tttBlkNum ∧ c.2 < tttBlkNum)
    (hchild : ∀ mboard, Finds (ttt.place id (bo2poMap c.1 c.2))
      (tttGame.Scores win n (ttt.place id (bo2poMap c.1 c.2), mboard, id.opId)) (child mboard)) :
    Finds (ttt.place id (bo2poMap c.1 c.2)) (tttGame.Entry win n (after ttt id c))
      (evaluate child id (n + 2) c.2 (bo2poMap c.1 c.2)) := by
  intro s hs
  have hdeep : ¬ n + 2 = 1 := by omega
  have hwon : tttGame.won (after ttt id c) ↔ tttIsMFinish s.ttt = id.id := by
    simp [tttGame, after, hs]
  by_cases hfin : tttIsMFinish s.ttt = id.id
  · simp only [evaluate, if_neg hdeep, if_pos hfin]
    refine ⟨hs, ?_, Game.entry_of_won (by decide) (hwon.mpr hfin)⟩
    simp [InRange]
  · simp only [evaluate, if_neg hdeep, if_neg hfin]
    have hnext : nextmBoard s.ttt c.2 =
        setMField (ttt.place id (bo2poMap c.1 c.2)) (bo2poMap c.1 c.2) := by
      rw [nextmBoard_eq s.ttt hc.1 hc.2, hs]
    rw [hnext]
    obtain ⟨httt, hrange, hscore⟩ := hchild (setMField _ (bo2poMap c.1 c.2)) s hs
    exact ⟨httt, hrange, hscore.entry fun hw => hfin (hwon.mp hw)⟩

/-- The round of the loops puts the stone, and takes it back. -/
theorem tryCell_free {steps : ℕ} {Right : Int → Prop} (hf : ttt.Free (bo2poMap c.1 c.2))
    {id : Player} (heval : Finds (ttt.place id (bo2poMap c.1 c.2)) Right
      (evaluate child id steps c.2 (bo2poMap c.1 c.2))) :
    Finds ttt Right (tryCell child id steps c) := by
  intro s hs
  have hadd := tttAdd_free hf id
  rw [← hs] at hadd
  have hret : ¬ (0 : Int) < 0 := by decide
  obtain ⟨httt, hvalue⟩ := heval { s with ttt := s.ttt.place id (bo2poMap c.1 c.2) } (by rw [hs])
  simp only [tryCell, hadd, if_neg hret, httt]
  exact ⟨tttRemove_place hf id, hvalue⟩

theorem tryCell_not_free {steps : ℕ} {s : Search} (hf : ¬ s.ttt.Free (bo2poMap c.1 c.2)) :
    tryCell child id steps c s = (blank, s) := by
  have hret : (-1 : Int) < 0 := by decide
  simp only [tryCell, tttAdd_not_free hf, if_pos hret]

end Cell

/-! ## The loops -/

/-- What the values of the cells are about: the cells that take a stone, and right values
for them. -/
structure Cells (ttt : Ttt) (cs : List (ℕ × ℕ)) (Right : ℕ × ℕ → Int → Prop) (vs : List Int)
    (entries : List ((ℕ × ℕ) × Int)) : Prop where
  values : entries.map Prod.snd = vs
  sound : ∀ e ∈ entries, e.1 ∈ cs ∧ ttt.Free (bo2poMap e.1.1 e.1.2) ∧ InRange e.2 ∧ Right e.1 e.2
  complete : ∀ c ∈ cs, ttt.Free (bo2poMap c.1 c.2) → ∃ e ∈ entries, e.1 = c

/-- The loops over the cells. -/
theorem scan_finds {child : (ℕ → Int) → Search → Position × Search} {ttt : Ttt} {id : Player}
    {steps : ℕ} {Right : ℕ × ℕ → Int → Prop} {cs : List (ℕ × ℕ)}
    (hcell : ∀ c ∈ cs, ttt.Free (bo2poMap c.1 c.2) →
      Finds ttt (Right c) (tryCell child id steps c)) {s : Search} (hs : s.ttt = ttt) :
    (scan child id steps cs s).2.ttt = ttt ∧
      (∀ pos ∈ (scan child id steps cs s).1, -win ≤ pos.value) ∧
      ∃ entries, Cells ttt cs Right (tried (scan child id steps cs s).1) entries := by
  induction cs generalizing s with
  | nil =>
      refine ⟨hs, by simp [scan], [], rfl, ?_, ?_⟩
      · simp
      · simp
  | cons c cs ih =>
      obtain ⟨hc, hcs⟩ := List.forall_mem_cons.mp hcell
      by_cases hf : ttt.Free (bo2poMap c.1 c.2)
      · obtain ⟨httt, hrange, hright⟩ := hc hf s hs
        obtain ⟨httt', hlow, entries, hent⟩ := ih hcs httt
        simp only [scan]
        refine ⟨httt', List.forall_mem_cons.mpr ⟨hrange.2.1, hlow⟩,
          (c, (tryCell child id steps c s).1.value) :: entries, ?_, ?_, ?_⟩
        · simp [tried, hrange.1, hent.values]
        · refine List.forall_mem_cons.mpr ⟨⟨List.mem_cons_self, hf, hrange, hright⟩, ?_⟩
          intro e he
          obtain ⟨hmem, hrest⟩ := hent.sound e he
          exact ⟨List.mem_cons_of_mem _ hmem, hrest⟩
        · refine List.forall_mem_cons.mpr ⟨fun _ => ⟨_, List.mem_cons_self, rfl⟩, ?_⟩
          intro c' hc' hf'
          obtain ⟨e, he, heq⟩ := hent.complete c' hc' hf'
          exact ⟨e, List.mem_cons_of_mem _ he, heq⟩
      · have hblank : tryCell child id steps c s = (blank, s) := tryCell_not_free (hs ▸ hf)
        obtain ⟨httt, hlow, entries, hent⟩ := ih hcs hs
        simp only [scan, hblank]
        refine ⟨httt, List.forall_mem_cons.mpr ⟨by decide, hlow⟩, entries, ?_, ?_, ?_⟩
        · simpa [tried, blank] using hent.values
        · intro e he
          obtain ⟨hmem, hrest⟩ := hent.sound e he
          exact ⟨List.mem_cons_of_mem _ hmem, hrest⟩
        · exact List.forall_mem_cons.mpr ⟨fun hf' => absurd hf' hf, hent.complete⟩

/-! ## The search -/

section Ply

variable {ttt : Ttt} {id : Player} {mboard : ℕ → Int} {n : ℕ}

/-- One ply: the loops over the cells of the marked blocks, and the choice among them. -/
theorem maxScore_ply (Right : ℕ × ℕ → Int → Prop)
    (hcell : ∀ c ∈ markedCells mboard, ttt.Free (bo2poMap c.1 c.2) →
      Finds ttt (Right c) (tryCell (maxScore n id.opId) id (n + 1) c))
    {s : Search} (hs : s.ttt = ttt) :
    (maxScore (n + 1) id mboard s).2.ttt = ttt ∧
      ∃ vs entries, Cells ttt (markedCells mboard) Right vs entries ∧
        ((vs = [] ∧ (maxScore (n + 1) id mboard s).1.value = tied) ∨
          ∃ m, IsBest vs m ∧ (maxScore (n + 1) id mboard s).1.value = -m) := by
  obtain ⟨httt, hlow, entries, hent⟩ := scan_finds hcell
    (s := { s with stack := fun n => s.stack (n + 1) }) hs
  rw [maxScore]
  exact ⟨(choose_ttt _ _).trans httt, _, entries, hent, choose_value hlow⟩

/-- What a ply says is on the scale. -/
theorem Cells.inRange {cs : List (ℕ × ℕ)} {Right : ℕ × ℕ → Int → Prop} {vs : List Int}
    {entries : List ((ℕ × ℕ) × Int)} (h : Cells ttt cs Right vs entries) {v : Int}
    (hv : (vs = [] ∧ v = tied) ∨ ∃ m, IsBest vs m ∧ v = -m) : InRange v := by
  rcases hv with ⟨-, rfl⟩ | ⟨m, hbest, rfl⟩
  · simp [InRange]
  · have hmem := hbest.1
    rw [← h.values, List.mem_map] at hmem
    obtain ⟨e, he, rfl⟩ := hmem
    have hrange := (h.sound e he).2.2.1
    simp only [InRange, full, win] at hrange ⊢
    omega

/-- The last ply says nothing about who wins. -/
theorem maxScore_one :
    Finds ttt (tttGame.Scores win 0 (ttt, mboard, id)) (maxScore 1 id mboard) := by
  intro s hs
  have hcell : ∀ c ∈ markedCells mboard, ttt.Free (bo2poMap c.1 c.2) →
      Finds ttt (fun v => v ≠ -win ∧ v ≠ win) (tryCell (maxScore 0 id.opId) id 1 c) :=
    fun c _ hf => tryCell_free hf (evaluate_one _ _ id _ _)
  obtain ⟨httt, vs, entries, hent, hv⟩ := maxScore_ply (fun _ v => v ≠ -win ∧ v ≠ win) hcell hs
  refine ⟨httt, hent.inRange hv, Game.scores_zero.mpr ?_⟩
  rcases hv with ⟨-, hv⟩ | ⟨m, hbest, hv⟩
  · rw [hv]
    decide
  · have hmem := hbest.1
    rw [← hent.values, List.mem_map] at hmem
    obtain ⟨e, he, rfl⟩ := hmem
    have hinner := (hent.sound e he).2.2.2
    rw [hv]
    simp only [win] at hinner ⊢
    omega

/-- A ply above another one. -/
theorem maxScore_succ
    (hchild : ∀ ttt mboard, Finds ttt (tttGame.Scores win n (ttt, mboard, id.opId))
      (maxScore (n + 1) id.opId mboard)) :
    Finds ttt (tttGame.Scores win (n + 1) (ttt, mboard, id)) (maxScore (n + 2) id mboard) := by
  intro s hs
  have hcell : ∀ c ∈ markedCells mboard, ttt.Free (bo2poMap c.1 c.2) →
      Finds ttt (tttGame.Entry win n (after ttt id c))
        (tryCell (maxScore (n + 1) id.opId) id (n + 2) c) := by
    intro c hc hf
    obtain ⟨⟨hb, -⟩, ho⟩ := mem_markedCells.mp hc
    exact tryCell_free hf (evaluate_succ ⟨hb, ho⟩ fun mboard => hchild _ mboard)
  obtain ⟨httt, vs, entries, hent, hv⟩ := maxScore_ply
    (fun c => tttGame.Entry win n (after ttt id c)) hcell hs
  refine ⟨httt, hent.inRange hv, ?_⟩
  let moves := entries.map fun e => (after ttt id e.1, e.2)
  have hmem : ∀ x ∈ moves, ∃ e ∈ entries, x = (after ttt id e.1, e.2) := by
    intro x hx
    obtain ⟨e, he, rfl⟩ := List.mem_map.mp hx
    exact ⟨e, he, rfl⟩
  have hvalues : moves.map Prod.snd = vs := by
    rw [← hent.values, List.map_map]
    rfl
  refine .of_best (by decide) moves ?_ (.inr ?_) ?_ ?_
  · intro x hx
    obtain ⟨e, he, rfl⟩ := hmem x hx
    obtain ⟨hc, hf, -, hentry⟩ := hent.sound e he
    exact ⟨next_iff.mpr ⟨e.1, hc, hf, rfl⟩, hentry⟩
  · intro t ht
    obtain ⟨c, hc, hf, rfl⟩ := next_iff.mp ht
    obtain ⟨e, he, rfl⟩ := hent.complete c hc hf
    exact ⟨_, List.mem_map_of_mem he, rfl⟩
  · intro x hx
    obtain ⟨e, he, rfl⟩ := hmem x hx
    exact (hent.sound e he).2.2.1.2
  · rw [hvalues]
    refine hv.imp_left fun hnil => ⟨?_, by rw [hnil.2]; decide⟩
    rw [← List.map_eq_nil_iff, hvalues]
    exact hnil.1

end Ply

/-- Every depth sees one ply less. -/
theorem maxScore_finds (n : ℕ) (ttt : Ttt) (id : Player) (mboard : ℕ → Int) :
    Finds ttt (tttGame.Scores win n (ttt, mboard, id)) (maxScore (n + 1) id mboard) := by
  induction n generalizing ttt id mboard with
  | zero => exact maxScore_one
  | succ n ih => exact maxScore_succ fun ttt mboard => ih ttt id.opId mboard

/-- **The search is exact.** On every board, for all marked blocks, at any depth and whatever
`rand` returns, the search says `-WIN` exactly if the player to move can force a win of the
macro board within one ply less than the depth, and `WIN` exactly if he has a move and the
other player can force a win after each of them, within two plies less; and it leaves the
board as it was. -/
theorem search_exact_macro (ttt : Ttt) (mboard : ℕ → Int) (id : Player) {steps : ℕ}
    (hsteps : 1 ≤ steps) (rand stack : ℕ → ℕ) :
    let res := maxScore steps id mboard ⟨ttt, rand, stack⟩
    (res.1.value = -win ↔ tttGame.Forces (steps - 1) (ttt, mboard, id)) ∧
    (res.1.value = win ↔ (∃ t, tttGame.next (ttt, mboard, id) t) ∧
      ∀ t, tttGame.next (ttt, mboard, id) t → ¬ tttGame.won t ∧ tttGame.Forces (steps - 2) t) ∧
    res.2.ttt = ttt := by
  intro res
  obtain ⟨n, rfl⟩ : ∃ n, steps = n + 1 := ⟨steps - 1, by omega⟩
  obtain ⟨httt, -, hforces, hloses⟩ := maxScore_finds n ttt id mboard ⟨ttt, rand, stack⟩ rfl
  refine ⟨hforces, ?_, httt⟩
  rw [hloses]
  cases n with
  | zero =>
      refine iff_of_false (by simp [Game.Loses]) ?_
      rintro ⟨⟨t, ht⟩, hall⟩
      simpa [Game.Forces] using (hall t ht).2
  | succ n =>
      rw [Game.Loses]
      rfl

/-- Three plies from the empty board, with all blocks marked. -/
theorem search_exact_macro_empty :
    let res := maxScore 3 .p1 (fun _ => -1) ⟨resetField, fun n => 7 * n, fun _ => 0⟩
    (res.1.value = -win ↔ tttGame.Forces 2 (resetField, fun _ => -1, .p1)) ∧
      res.2.ttt = resetField := by
  have hsteps : 1 ≤ 3 := by decide
  have h := search_exact_macro resetField (fun _ => -1) .p1 hsteps (fun n => 7 * n) fun _ => 0
  exact ⟨h.1, h.2.2⟩

end CCode.TicTacToe
