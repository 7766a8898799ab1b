import CCode.TicTacToe.Rules

/-!
# The tic-tac-toe search

`max_score` of `ai_core.c`: it tries every cell of the marked blocks and calls itself for the
other player after each stone, with the blocks that he may play in. At depth 1 it does not
even look whether the stone wins, so that a depth of `steps` sees `steps - 1` plies. Then
one of the cells with the largest value is picked by `rand`, starting from `-WIN`, with zero
for a cell that was not tried.

The results of `rand` and what an uninitialised `tmp` holds are part of the state.

## Main definitions

* `Search`, `evaluate`, `tryCell`, `scan` — the loops over the cells.
* `selectStep`, `select`, `choose` — the choice of a cell.
* `maxScore` — the search.
-/

namespace CCode.TicTacToe

open CCode.Lib

/-- `FULL`, the value of a cell that no stone was tried in. -/
abbrev full : Int := 0

/-- `TIED`. -/
abbrev tied : Int := 1

/-- `NORMAL_MIM`. -/
abbrev normalMim : Int := 16

/-- `WIN`. -/
abbrev win : Int := 127

/-- `struct position`. -/
structure Position where
  point : ℕ
  nextP : ℕ
  value : Int

/-- The board, and the results of `rand` and the contents of `tmp.next_p` to come. -/
structure Search where
  ttt : Ttt
  rand : ℕ → ℕ
  stack : ℕ → ℕ

/-- A call of `rand`. -/
def Search.draw (s : Search) : ℕ × Search := (s.rand 0, { s with rand := fun n => s.rand (n + 1) })

/-- An entry of `pos` before a stone is tried there. -/
def blank : Position := ⟨0, 0, full⟩

/-- The value of a stone that is in cell `o` of its block, at the point `p`: `judgement` at
depth 1, the search of the other player below. -/
def evaluate (child : (ℕ → Int) → Search → Position × Search) (id : Player) (steps o p : ℕ)
    (s : Search) : Position × Search :=
  if steps = 1 then
    let (r, s) := s.draw
    (⟨p, 0, normalMim + (r &&& (0x40 - 1) : ℕ)⟩, s)
  else if tttIsMFinish s.ttt = id.id then (⟨p, 0, win⟩, s)
  else
    let (tmp, s) := child (nextmBoard s.ttt o) s
    (⟨p, tmp.point, tmp.value⟩, s)

/-- One round of the loops over the cells. -/
def tryCell (child : (ℕ → Int) → Search → Position × Search) (id : Player) (steps : ℕ)
    (c : ℕ × ℕ) (s : Search) : Position × Search :=
  let p := bo2poMap c.1 c.2
  let (ret, ttt) := tttAdd s.ttt id p
  if ret < 0 then (blank, s)
  else
    let (pos, s) := evaluate child id steps c.2 p { s with ttt }
    (pos, { s with ttt := tttRemove s.ttt p })

/-- The loops over the cells. -/
def scan (child : (ℕ → Int) → Search → Position × Search) (id : Player) (steps : ℕ) :
    List (ℕ × ℕ) → Search → List Position × Search
  | [], s => ([], s)
  | c :: cs, s =>
      let (pos, s) := tryCell child id steps c s
      let (ps, s) := scan child id steps cs s
      (pos :: ps, s)

/-- The cells of the marked blocks, in the order of the loops. -/
def markedCells (mboard : ℕ → Int) : List (ℕ × ℕ) :=
  ((List.range tttBlkNum).filter fun b => mboard b ≠ 0).flatMap fun b =>
    (List.range tttBlkNum).map fun o => (b, o)

/-! ## The choice -/

/-- One round of the loops that look for the largest value, which also collect the entries
with it. -/
def selectStep (m : Int × List Position) (pos : Position) : Int × List Position :=
  if pos.value > m.1 ∧ pos.value ≠ full then (pos.value, [pos])
  else if pos.value = m.1 ∧ pos.value ≠ full then (m.1, m.2 ++ [pos])
  else m

/-- The entries with the largest value. -/
def select (ps : List Position) : Int × List Position := ps.foldl selectStep (-win, [])

/-- One of the best entries, with its value for the other player; a tie if there is none, with
`POINT(-1,-1)` as a byte. -/
def choose (nextP : ℕ) (res : List Position × Search) : Position × Search :=
  match (select res.1).2 with
  | [] => (⟨255, nextP, tied⟩, res.2)
  | pos :: ps =>
      let (r, s) := res.2.draw
      let best := (pos :: ps).getD (r % (pos :: ps).length) pos
      ({ best with value := -best.value }, s)

/-- `max_score`. Nothing asks for depth 0. -/
def maxScore : ℕ → Player → (ℕ → Int) → Search → Position × Search
  | 0, _, _, s => (⟨0, s.stack 0, 0⟩, s)
  | steps + 1, id, mboard, s =>
      choose (s.stack 0) (scan (maxScore steps id.opId) id (steps + 1) (markedCells mboard)
        { s with stack := fun n => s.stack (n + 1) })

/-! ## What the choice picks -/

/-- The values of the cells that a stone was tried in. -/
def tried (ps : List Position) : List Int := (ps.map Position.value).filter (· ≠ full)

theorem tried_append_full {ps : List Position} {pos : Position} (h : pos.value = full) :
    tried (ps ++ [pos]) = tried ps := by
  simp [tried, h]

theorem tried_append {ps : List Position} {pos : Position} (h : pos.value ≠ full) :
    tried (ps ++ [pos]) = tried ps ++ [pos.value] := by
  simp [tried, h]

/-- What the loops have collected of the entries so far: nothing, or entries that all have
the best value. -/
structure Picks (seen : List Position) (m : Int × List Position) : Prop where
  value : ∀ pos ∈ m.2, pos.value = m.1
  best : (m = (-win, []) ∧ tried seen = []) ∨ (m.2 ≠ [] ∧ IsBest (tried seen) m.1)

namespace Picks

variable {seen : List Position} {m : Int × List Position}

/-- No entry so far is better. -/
theorem forall_le (h : Picks seen m) : ∀ v ∈ tried seen, v ≤ m.1 := by
  rcases h.best with ⟨-, hnil⟩ | ⟨-, hbest⟩
  · simp [hnil]
  · exact hbest.2

/-- One round of the loops. -/
theorem step (h : Picks seen m) {pos : Position} (hpos : -win ≤ pos.value) :
    Picks (seen ++ [pos]) (selectStep m pos) := by
  by_cases hfull : pos.value = full
  · have hskip : selectStep m pos = m := by simp [selectStep, hfull]
    rw [hskip]
    refine ⟨h.value, ?_⟩
    rw [tried_append_full hfull]
    exact h.best
  · have htried : tried (seen ++ [pos]) = tried seen ++ [pos.value] := tried_append hfull
    rcases lt_trichotomy pos.value m.1 with hlt | heq | hgt
    · have hskip : selectStep m pos = m := by
        simp [selectStep, hlt.ne, hlt.not_gt]
      rw [hskip]
      refine ⟨h.value, ?_⟩
      rcases h.best with ⟨rfl, -⟩ | ⟨hne, hbest⟩
      · simp only at hlt
        omega
      · rw [htried]
        exact .inr ⟨hne, hbest.append_of_le hlt.le⟩
    · have hadd : selectStep m pos = (m.1, m.2 ++ [pos]) := by
        simp [selectStep, heq, heq ▸ hfull]
      rw [hadd]
      refine ⟨?_, .inr ⟨by simp, ?_⟩⟩
      · intro q hq
        rcases List.mem_append.mp hq with hq | hq
        · exact h.value q hq
        · rw [List.mem_singleton.mp hq]
          exact heq
      · rw [htried, heq]
        exact .append_of_forall_le h.forall_le
    · have hnew : selectStep m pos = (pos.value, [pos]) := by
        simp [selectStep, hgt, hfull]
      rw [hnew]
      refine ⟨by simp, .inr ⟨by simp, ?_⟩⟩
      rw [htried]
      exact .append_of_forall_le fun v hv => (h.forall_le v hv).trans hgt.le

end Picks

/-- The whole loops. -/
theorem select_picks {ps : List Position} (hps : ∀ pos ∈ ps, -win ≤ pos.value) :
    Picks ps (select ps) := by
  induction ps using List.reverseRecOn with
  | nil => exact ⟨by simp [select], .inl ⟨rfl, rfl⟩⟩
  | append_singleton ps pos ih =>
      rw [select, List.foldl_append, List.foldl_cons, List.foldl_nil]
      exact (ih fun q hq => hps q (by simp [hq])).step (hps pos (by simp))

/-- **The choice is a best cell**, and a tie if there is none. -/
theorem choose_value {nextP : ℕ} {res : List Position × Search}
    (hps : ∀ pos ∈ res.1, -win ≤ pos.value) :
    (tried res.1 = [] ∧ (choose nextP res).1.value = tied) ∨
      ∃ m, IsBest (tried res.1) m ∧ (choose nextP res).1.value = -m := by
  have hpick := select_picks hps
  rw [choose]
  split
  case h_1 hnil =>
    rcases hpick.best with ⟨-, htried⟩ | ⟨hne, -⟩
    · exact .inl ⟨htried, rfl⟩
    · exact absurd hnil hne
  case h_2 pos qs hcons =>
    right
    rcases hpick.best with ⟨hm, -⟩ | ⟨-, hbest⟩
    · simp [hm] at hcons
    · refine ⟨(select res.1).1, hbest, ?_⟩
      have hlt : res.2.draw.1 % (pos :: qs).length < (pos :: qs).length :=
        Nat.mod_lt _ (by simp)
      have hmem : (pos :: qs).getD (res.2.draw.1 % (pos :: qs).length) pos ∈ (select res.1).2 := by
        rw [hcons, List.getD_eq_getElem _ _ hlt]
        exact List.getElem_mem hlt
      exact congrArg Neg.neg (hpick.value _ hmem)

theorem choose_ttt (nextP : ℕ) (res : List Position × Search) :
    (choose nextP res).2.ttt = res.2.ttt := by
  rw [choose]
  split
  · rfl
  · rfl

end CCode.TicTacToe
