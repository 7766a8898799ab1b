import Mathlib.Tactic

/-!
# Bounded search in games of two players

A game is given by its positions, each with a player to move, the positions that a legal
move leads to, and when such a move has won. `Forces n` and `Loses n` say what the player
to move can enforce within `n` plies. They are not each other's negation: a position can
be neither, within a horizon or because the game is drawn.

A search from the leaves up gives every position a number. It is exact at the two ends of
the scale if it says `-win` for a position where the player to move forces a win and `win`
for one where he loses, and never otherwise: the numbers are those of the player who moved
into the position. `Scores.of_entries` is the step of such a search: the number of a position
comes from those of the positions after it, of which not all need to be known once one of
them is a win.

## Main definitions

* `Player`, `Player.opId` — the two players.
* `Game`, `Game.Forces`, `Game.Loses` — a game and its outcome within a horizon.
* `Game.Entry`, `Game.Scores` — what the number of a move and of a position must say.
* `IsBest` — the selection of the best number.
-/

namespace CCode.Lib

/-- The two players, whose numbers are 1 and 2. -/
inductive Player
  | p1 | p2
  deriving DecidableEq

namespace Player

/-- The number of a player. -/
def id : Player → ℕ
  | p1 => 1
  | p2 => 2

/-- The other player, whose number is `3 - id`. -/
def opId : Player → Player
  | p1 => p2
  | p2 => p1

/-- The player with a number, if there is one. -/
def ofId (n : Int) : Option Player := if n = 1 then some p1 else if n = 2 then some p2 else none

@[simp] theorem opId_opId (p : Player) : p.opId.opId = p := by cases p <;> rfl

theorem id_opId (p : Player) : p.opId.id = 3 - p.id := by cases p <;> rfl

@[simp] theorem ofId_id (p : Player) : ofId p.id = some p := by cases p <;> rfl

theorem opId_ne (p : Player) : p.opId ≠ p := by cases p <;> decide

theorem eq_or_eq_opId (p q : Player) : q = p ∨ q = p.opId := by cases p <;> cases q <;> decide

end Player

/-- A game: the positions that a legal move leads to, and those in which the player who has
just moved has won. -/
structure Game (S : Type*) where
  next : S → S → Prop
  won : S → Prop

namespace Game

variable {S : Type*} (G : Game S)

mutual

/-- The player to move has a move that wins, or that leaves the other one lost. -/
def Forces : ℕ → S → Prop
  | 0, _ => False
  | n + 1, s => ∃ t, G.next s t ∧ (G.won t ∨ Loses n t)

/-- The player to move has a move, and after each of them, none of which wins, the other
one forces a win. -/
def Loses : ℕ → S → Prop
  | 0, _ => False
  | n + 1, s => (∃ t, G.next s t) ∧ ∀ t, G.next s t → ¬ G.won t ∧ Forces n t

end

/-- The number of a move into `t` with `n` plies to come: `win` exactly if the move wins or
leaves the other player lost, `-win` exactly if it does not win and lets him force a win. -/
def Entry (win : Int) (n : ℕ) (t : S) (v : Int) : Prop :=
  (v = win ↔ G.won t ∨ G.Loses n t) ∧ (v = -win ↔ ¬ G.won t ∧ G.Forces n t)

/-- The number of a position with `n` plies to come, as seen by the player who moved into
it. -/
def Scores (win : Int) (n : ℕ) (s : S) (v : Int) : Prop :=
  (v = -win ↔ G.Forces n s) ∧ (v = win ↔ G.Loses n s)

variable {G} {win : Int} {n : ℕ} {s t : S} {v r : Int}

/-- Without plies to come only a number strictly inside the scale is right. -/
theorem scores_zero : G.Scores win 0 s v ↔ v ≠ -win ∧ v ≠ win := by
  simp [Scores, Forces, Loses]

/-- A move that wins has the number `win`. -/
theorem entry_of_won (hwin : 0 < win) (h : G.won t) : G.Entry win n t win := by
  refine ⟨iff_of_true rfl (.inl h), iff_of_false (by omega) ?_⟩
  exact fun hn => hn.1 h

/-- A move that does not win has the number of the position after it. -/
theorem Scores.entry (hs : G.Scores win n t v) (h : ¬ G.won t) : G.Entry win n t v := by
  refine ⟨?_, ?_⟩
  · rw [hs.2]
    exact ⟨.inr, fun ho => ho.resolve_left h⟩
  · rw [hs.1]
    exact ⟨fun hf => ⟨h, hf⟩, fun hf => hf.2⟩

/-- **The step of a search.** The numbers of some moves, of all of them unless one is a
win, give the number of the position. -/
theorem Scores.of_entries (hwin : 0 < win) (entries : List (S × Int))
    (hsound : ∀ e ∈ entries, G.next s e.1 ∧ G.Entry win n e.1 e.2)
    (hall : (∃ e ∈ entries, e.2 = win) ∨ ∀ t, G.next s t → ∃ e ∈ entries, e.1 = t)
    (hbest : r = -win ↔ ∃ e ∈ entries, e.2 = win)
    (hworst : r = win ↔ entries ≠ [] ∧ ∀ e ∈ entries, e.2 = -win) :
    G.Scores win (n + 1) s r := by
  constructor
  · rw [hbest, Forces]
    constructor
    · intro ⟨e, he, hv⟩
      exact ⟨e.1, (hsound e he).1, (hsound e he).2.1.mp hv⟩
    · intro ⟨t, hnext, hout⟩
      rcases hall with hwon | hall
      · exact hwon
      · obtain ⟨e, he, rfl⟩ := hall t hnext
        exact ⟨e, he, (hsound e he).2.1.mpr hout⟩
  · rw [hworst, Loses]
    constructor
    · intro ⟨hne, hlost⟩
      obtain ⟨e, he⟩ := List.exists_mem_of_ne_nil entries hne
      refine ⟨⟨e.1, (hsound e he).1⟩, ?_⟩
      intro t hnext
      rcases hall with ⟨e', he', hv⟩ | hall
      · -- a win among moves that all lose
        have hlost' := hlost e' he'
        omega
      · obtain ⟨e, he, rfl⟩ := hall t hnext
        exact (hsound e he).2.2.mp (hlost e he)
    · intro ⟨⟨t, hnext⟩, hlost⟩
      constructor
      · rcases hall with ⟨e, he, -⟩ | hall
        · exact List.ne_nil_of_mem he
        · obtain ⟨e, he, -⟩ := hall t hnext
          exact List.ne_nil_of_mem he
      · intro e he
        exact (hsound e he).2.2.mpr (hlost e.1 (hsound e he).1)

/-! ### The horizon -/

/-- More plies do no harm. -/
theorem mono_succ (n : ℕ) (s : S) :
    (G.Forces n s → G.Forces (n + 1) s) ∧ (G.Loses n s → G.Loses (n + 1) s) := by
  induction n generalizing s with
  | zero => exact ⟨False.elim, False.elim⟩
  | succ n ih =>
      constructor
      · intro ⟨t, hnext, hout⟩
        exact ⟨t, hnext, hout.imp_right (ih t).2⟩
      · intro ⟨hmove, hall⟩
        exact ⟨hmove, fun t hnext => ⟨(hall t hnext).1, (ih t).1 (hall t hnext).2⟩⟩

theorem Forces.mono {m n : ℕ} {s : S} (h : G.Forces m s) (hle : m ≤ n) : G.Forces n s := by
  induction n, hle using Nat.le_induction with
  | base => exact h
  | succ n _ ih => exact (mono_succ n s).1 ih

theorem Loses.mono {m n : ℕ} {s : S} (h : G.Loses m s) (hle : m ≤ n) : G.Loses n s := by
  induction n, hle using Nat.le_induction with
  | base => exact h
  | succ n _ ih => exact (mono_succ n s).2 ih

section Measure

variable {left : S → ℕ}

/-- Plies behind the end of the game add nothing. -/
theorem of_succ (hleft : ∀ s t, G.next s t → left t < left s) {n : ℕ} {s : S} (hn : left s ≤ n) :
    (G.Forces (n + 1) s → G.Forces n s) ∧ (G.Loses (n + 1) s → G.Loses n s) := by
  induction n generalizing s with
  | zero =>
      have hnone : ∀ t, ¬ G.next s t := by
        intro t hnext
        have := hleft s t hnext
        omega
      constructor
      · intro ⟨t, hnext, _⟩
        exact hnone t hnext
      · intro ⟨⟨t, hnext⟩, _⟩
        exact hnone t hnext
  | succ n ih =>
      have hless : ∀ t, G.next s t → left t ≤ n := by
        intro t hnext
        have := hleft s t hnext
        omega
      constructor
      · intro ⟨t, hnext, hout⟩
        exact ⟨t, hnext, hout.imp_right (ih (hless t hnext)).2⟩
      · intro ⟨hmove, hall⟩
        refine ⟨hmove, ?_⟩
        intro t hnext
        exact ⟨(hall t hnext).1, (ih (hless t hnext)).1 (hall t hnext).2⟩

/-- What can be enforced at all can be within the length of the game. -/
theorem Forces.of_left (hleft : ∀ s t, G.next s t → left t < left s) {n m : ℕ} {s : S}
    (h : G.Forces n s) (hm : left s ≤ m) : G.Forces m s := by
  rcases Nat.le_total n m with hle | hle
  · exact h.mono hle
  · induction n, hle using Nat.le_induction with
    | base => exact h
    | succ n hmn ih => exact ih ((of_succ hleft (hm.trans hmn)).1 h)

theorem Loses.of_left (hleft : ∀ s t, G.next s t → left t < left s) {n m : ℕ} {s : S}
    (h : G.Loses n s) (hm : left s ≤ m) : G.Loses m s := by
  rcases Nat.le_total n m with hle | hle
  · exact h.mono hle
  · induction n, hle using Nat.le_induction with
    | base => exact h
    | succ n hmn ih => exact ih ((of_succ hleft (hm.trans hmn)).2 h)

end Measure

end Game

/-- A largest element of a list of numbers. -/
def IsBest (vs : List Int) (m : Int) : Prop := m ∈ vs ∧ ∀ v ∈ vs, v ≤ m

namespace IsBest

variable {vs : List Int} {m v win : Int}

/-- A number that is no better changes nothing. -/
theorem append_of_le (h : IsBest vs m) (hv : v ≤ m) : IsBest (vs ++ [v]) m := by
  refine ⟨List.mem_append_left _ h.1, ?_⟩
  intro u hu
  rcases List.mem_append.mp hu with hu | hu
  · exact h.2 u hu
  · rw [List.mem_singleton.mp hu]
    exact hv

/-- A number that is no worse than the others is the best one. -/
theorem append_of_forall_le (h : ∀ u ∈ vs, u ≤ v) : IsBest (vs ++ [v]) v := by
  refine ⟨List.mem_append_right _ (List.mem_singleton_self v), ?_⟩
  intro u hu
  rcases List.mem_append.mp hu with hu | hu
  · exact h u hu
  · exact (List.mem_singleton.mp hu).le

/-- The best of some numbers on the scale is a win exactly if one of them is. -/
theorem eq_win_iff (h : IsBest vs m) (hle : ∀ v ∈ vs, v ≤ win) :
    -m = -win ↔ ∃ v ∈ vs, v = win := by
  constructor
  · intro hm
    exact ⟨m, h.1, by omega⟩
  · intro ⟨v, hv, heq⟩
    have := h.2 v hv
    have := hle m h.1
    omega

/-- The best of some numbers on the scale is a loss exactly if all of them are. -/
theorem eq_loss_iff (h : IsBest vs m) (hge : ∀ v ∈ vs, -win ≤ v) :
    -m = win ↔ vs ≠ [] ∧ ∀ v ∈ vs, v = -win := by
  constructor
  · intro hm
    refine ⟨List.ne_nil_of_mem h.1, ?_⟩
    intro v hv
    have := h.2 v hv
    have := hge v hv
    omega
  · intro ⟨_, hall⟩
    have := hall m h.1
    omega

end IsBest

/-- **The step of a search that picks a best number** and negates it, or says something
inside the scale if there is no move. -/
theorem Game.Scores.of_best {S : Type*} {G : Game S} {win v : Int} {n : ℕ} {s : S}
    (hwin : 0 < win) (entries : List (S × Int))
    (hsound : ∀ e ∈ entries, G.next s e.1 ∧ G.Entry win n e.1 e.2)
    (hall : (∃ e ∈ entries, e.2 = win) ∨ ∀ t, G.next s t → ∃ e ∈ entries, e.1 = t)
    (hrange : ∀ e ∈ entries, -win ≤ e.2 ∧ e.2 ≤ win)
    (hv : (entries = [] ∧ v ≠ -win ∧ v ≠ win) ∨ ∃ m, IsBest (entries.map Prod.snd) m ∧ v = -m) :
    G.Scores win (n + 1) s v := by
  have hone : (∃ e ∈ entries, e.2 = win) ↔ ∃ x ∈ entries.map Prod.snd, x = win := by
    simp
  have hloss : (entries ≠ [] ∧ ∀ e ∈ entries, e.2 = -win) ↔
      entries.map Prod.snd ≠ [] ∧ ∀ x ∈ entries.map Prod.snd, x = -win := by
    rw [List.forall_mem_map, Ne, Ne, List.map_eq_nil_iff]
  refine .of_entries hwin entries hsound hall ?_ ?_
  · rcases hv with ⟨rfl, hne, -⟩ | ⟨m, hbest, rfl⟩
    · simpa using hne
    · rw [hone]
      exact hbest.eq_win_iff (List.forall_mem_map.mpr fun e he => (hrange e he).2)
  · rcases hv with ⟨rfl, -, hne⟩ | ⟨m, hbest, rfl⟩
    · simpa using hne
    · rw [hloss]
      exact hbest.eq_loss_iff (List.forall_mem_map.mpr fun e he => (hrange e he).1)

end CCode.Lib
