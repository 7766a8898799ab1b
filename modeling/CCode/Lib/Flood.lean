import Mathlib.Data.Finset.Card
import Mathlib.Logic.Relation
import Mathlib.Tactic

/-!
# Flood fill

The recursive fill of a picture: a visit to a vertex that is bright marks it with `1` and goes
on to its neighbours, one to a dark vertex marks it with `-1` and stops there, and one to a
vertex that has a mark or is outside of the window does nothing. All visits share one map of
marks, also the visits to several seeds one after the other.

A visit is said to what it does with `Visited`, a relation between the maps before and after it
that composes. What the marks are after all visits follows from it and mentions the seeds as a
set, so that their order cannot matter.

## Main definitions

* `Picture`, `Picture.flood` — the vertices, and a visit.
* `Picture.Filled`, `Picture.Border` — what is connected to a seed, and what is next to that.
* `Picture.Visited` — what visits do.
* `Picture.Shows` — the map shows what is connected to the seeds.
-/

namespace CCode.Lib

variable {V : Type*}

/-- The vertices that may be marked, whether each is bright, and which are visited from it. -/
structure Picture (V : Type*) where
  window : Finset V
  bright : V → Bool
  nbrs : V → List V

namespace Picture

variable (G : Picture V)

/-- A visit. -/
def flood [DecidableEq V] : ℕ → (V → ℤ) → V → Option (V → ℤ)
  | 0, _, _ => none
  | fuel + 1, m, v =>
      if v ∉ G.window ∨ m v ≠ 0 then some m
      else if G.bright v then (G.nbrs v).foldlM (flood fuel) (Function.update m v 1)
      else some (Function.update m v (-1))

/-- A bright vertex of the window, visited from another. -/
def Step (a b : V) : Prop := b ∈ G.nbrs a ∧ b ∈ G.window ∧ G.bright b = true

/-- A vertex is connected to a seed through bright vertices of the window. -/
def Filled (seeds : List V) (w : V) : Prop :=
  ∃ v ∈ seeds, v ∈ G.window ∧ G.bright v = true ∧ Relation.ReflTransGen G.Step v w

/-- A dark vertex of the window is a seed or next to a vertex that is connected to one. -/
def Border (seeds : List V) (w : V) : Prop :=
  w ∈ G.window ∧ G.bright w = false ∧ (w ∈ seeds ∨ ∃ a, G.Filled seeds a ∧ w ∈ G.nbrs a)

/-- The map shows what is connected to the seeds, and what is next to that. -/
structure Shows (seeds : List V) (m : V → ℤ) : Prop where
  filled : ∀ w, m w = 1 ↔ G.Filled seeds w
  border : ∀ w, m w = -1 ↔ G.Border seeds w
  range : ∀ w, m w = 0 ∨ m w = 1 ∨ m w = -1

/-- The number of vertices without a mark. -/
def blanks (m : V → ℤ) : ℕ := (G.window.filter fun w => m w = 0).card

/-- **What visits to some vertices do**: marks stay, a new mark is on a vertex that is connected
to one of those visited or next to a newly filled one, each of those visited has a mark, and so
has all that is next to a newly filled one. -/
structure Visited (m : V → ℤ) (vs : List V) (m' : V → ℤ) : Prop where
  keep : ∀ w, m w ≠ 0 → m' w = m w
  mark : ∀ w, m w = 0 → m' w ≠ 0 → w ∈ G.window ∧
    (m' w = 1 ∧ G.Filled vs w ∨
      m' w = -1 ∧ G.bright w = false ∧ (w ∈ vs ∨ ∃ a, m a = 0 ∧ m' a = 1 ∧ w ∈ G.nbrs a))
  seen : ∀ v ∈ vs, v ∈ G.window → m' v ≠ 0
  closed : ∀ a, m a = 0 → m' a = 1 → ∀ b ∈ G.nbrs a, b ∈ G.window → m' b ≠ 0

variable {G}

theorem Filled.mono {vs ws : List V} {w : V} (h : G.Filled vs w) (hsub : ∀ v ∈ vs, v ∈ ws) :
    G.Filled ws w := by
  obtain ⟨v, hv, hrest⟩ := h
  exact ⟨v, hsub v hv, hrest⟩

theorem Filled.bright {seeds : List V} {w : V} (h : G.Filled seeds w) :
    w ∈ G.window ∧ G.bright w = true := by
  obtain ⟨v, -, hv, hbright, hreach⟩ := h
  rcases Relation.ReflTransGen.cases_tail hreach with rfl | ⟨u, -, hstep⟩
  · exact ⟨hv, hbright⟩
  · exact hstep.2

/-- What is connected to a neighbour of a vertex is connected to the vertex. -/
theorem Filled.head {v w : V} (hv : v ∈ G.window) (hbright : G.bright v = true)
    (h : G.Filled (G.nbrs v) w) : G.Filled [v] w := by
  obtain ⟨u, hu, hw, hb, hreach⟩ := h
  exact ⟨v, List.mem_singleton_self v, hv, hbright, .head ⟨hu, hw, hb⟩ hreach⟩

namespace Visited

variable {m m₁ m' : V → ℤ} {v : V} {vs : List V}

theorem refl (m : V → ℤ) : G.Visited m [] m where
  keep _ _ := rfl
  mark _ h h' := absurd h h'
  seen := by simp
  closed a h h' := by simp [h] at h'

/-- A vertex that is left alone. -/
theorem skip (h : v ∉ G.window ∨ m v ≠ 0) : G.Visited m [v] m where
  keep _ _ := rfl
  mark _ h h' := absurd h h'
  seen := by
    intro w hw hin
    obtain rfl := List.mem_singleton.mp hw
    exact h.resolve_left (not_not_intro hin)
  closed a h h' := by simp [h] at h'

/-- A dark vertex is marked. -/
theorem dark [DecidableEq V] (hv : v ∈ G.window) (hdark : G.bright v = false) (h0 : m v = 0) :
    G.Visited m [v] (Function.update m v (-1)) where
  keep w hw := by
    have hne : w ≠ v := by
      rintro rfl
      exact hw h0
    rw [Function.update_of_ne hne]
  mark w hw hw' := by
    by_cases hwv : w = v
    · subst hwv
      exact ⟨hv, .inr ⟨by simp, hdark, .inl (List.mem_singleton_self w)⟩⟩
    · rw [Function.update_of_ne hwv] at hw'
      exact absurd hw hw'
  seen w hw _ := by
    obtain rfl := List.mem_singleton.mp hw
    simp
  closed a ha ha' := by
    by_cases hav : a = v
    · subst hav
      simp at ha'
    · rw [Function.update_of_ne hav, ha] at ha'
      cases ha'

/-- A bright vertex is marked, and its neighbours are visited. -/
theorem bright [DecidableEq V] (hv : v ∈ G.window) (hbright : G.bright v = true)
    (h0 : m v = 0) (h : G.Visited (Function.update m v 1) (G.nbrs v) m') : G.Visited m [v] m' := by
  have hv' : m' v = 1 := by
    rw [h.keep v (by simp), Function.update_self]
  have hother : ∀ w, w ≠ v → Function.update m v 1 w = m w := by
    intro w hne
    rw [Function.update_of_ne hne]
  constructor
  case keep =>
    intro w hw
    have hne : w ≠ v := by
      rintro rfl
      exact hw h0
    rw [← hother w hne]
    exact h.keep w (by rwa [hother w hne])
  case mark =>
    intro w hw hw'
    by_cases hwv : w = v
    · subst hwv
      exact ⟨hv, .inl ⟨hv', w, List.mem_singleton_self w, hv, hbright, .refl⟩⟩
    · obtain ⟨hin, hmark⟩ := h.mark w (by rwa [hother w hwv]) hw'
      refine ⟨hin, hmark.imp (And.imp_right (Filled.head hv hbright)) ?_⟩
      rintro ⟨hneg, hdark, hw | ⟨a, ha, ha', hnbr⟩⟩
      · exact ⟨hneg, hdark, .inr ⟨v, h0, hv', hw⟩⟩
      · have hav : a ≠ v := by
          rintro rfl
          simp at ha
        rw [hother a hav] at ha
        exact ⟨hneg, hdark, .inr ⟨a, ha, ha', hnbr⟩⟩
  case seen =>
    intro w hw _
    obtain rfl := List.mem_singleton.mp hw
    simp [hv']
  case closed =>
    intro a ha ha' b hb hin
    by_cases hav : a = v
    · subst hav
      exact h.seen b hb hin
    · exact h.closed a (by rwa [hother a hav]) ha' b hb hin

/-- One visit and others. -/
theorem cons (h : G.Visited m [v] m₁) (h' : G.Visited m₁ vs m') : G.Visited m (v :: vs) m' := by
  have hblank : ∀ a, m₁ a = 0 → m a = 0 := by
    intro a ha
    by_contra hne
    exact hne ((h.keep a hne).symm.trans ha)
  have hkeep : ∀ a, m₁ a = 1 → m' a = 1 := by
    intro a ha
    rw [h'.keep a (by simp [ha]), ha]
  constructor
  case keep =>
    intro w hw
    rw [h'.keep w (by rwa [h.keep w hw]), h.keep w hw]
  case mark =>
    intro w hw hw'
    by_cases h₁ : m₁ w = 0
    · obtain ⟨hin, hmark⟩ := h'.mark w h₁ hw'
      refine ⟨hin, hmark.imp (And.imp_right fun hf => hf.mono fun u hu =>
        List.mem_cons_of_mem v hu) ?_⟩
      rintro ⟨hneg, hdark, hvs | ⟨a, ha, ha', hnbr⟩⟩
      · exact ⟨hneg, hdark, .inl (List.mem_cons_of_mem v hvs)⟩
      · exact ⟨hneg, hdark, .inr ⟨a, hblank a ha, ha', hnbr⟩⟩
    · obtain ⟨hin, hmark⟩ := h.mark w hw h₁
      rw [h'.keep w h₁]
      have hsub : ∀ u ∈ [v], u ∈ v :: vs := by simp
      refine ⟨hin, hmark.imp (And.imp_right fun hf => hf.mono hsub) ?_⟩
      rintro ⟨hneg, hdark, hwv | ⟨a, ha, ha', hnbr⟩⟩
      · exact ⟨hneg, hdark, .inl (hsub w hwv)⟩
      · exact ⟨hneg, hdark, .inr ⟨a, ha, hkeep a ha', hnbr⟩⟩
  case seen =>
    intro w hw hin
    rcases List.mem_cons.mp hw with rfl | hw
    · have hw₁ := h.seen w (List.mem_singleton_self w) hin
      rwa [h'.keep w hw₁]
    · exact h'.seen w hw hin
  case closed =>
    intro a ha ha' b hb hin
    by_cases h₁ : m₁ a = 0
    · exact h'.closed a h₁ ha' b hb hin
    · rw [h'.keep a h₁] at ha'
      have hb₁ := h.closed a ha ha' b hb hin
      rwa [h'.keep b hb₁]

/-- There are no more vertices without a mark than before. -/
theorem blanks_le (h : G.Visited m vs m') : G.blanks m' ≤ G.blanks m := by
  apply Finset.card_le_card
  intro w hw
  rw [Finset.mem_filter] at hw ⊢
  refine ⟨hw.1, ?_⟩
  by_contra hne
  exact hne ((h.keep w hne).symm.trans hw.2)

/-- **Visits that start without marks show what is connected to the seeds.** -/
theorem shows {seeds : List V} (h : G.Visited (fun _ => 0) seeds m') : G.Shows seeds m' := by
  have hmark : ∀ w, m' w ≠ 0 → w ∈ G.window ∧ (m' w = 1 ∧ G.Filled seeds w ∨
      m' w = -1 ∧ G.bright w = false ∧ (w ∈ seeds ∨ ∃ a, m' a = 1 ∧ w ∈ G.nbrs a)) := by
    intro w hw
    simpa using h.mark w rfl hw
  have hone : ∀ w, G.bright w = true → m' w ≠ 0 → m' w = 1 := by
    intro w hbright hw
    rcases (hmark w hw).2 with hmark | hmark
    · exact hmark.1
    · exact absurd hbright (by simp [hmark.2.1])
  have hfilled : ∀ w, m' w = 1 ↔ G.Filled seeds w := by
    intro w
    constructor
    · intro hw
      rcases (hmark w (by simp [hw])).2 with hmark | hmark
      · exact hmark.2
      · simp [hw] at hmark
    · rintro ⟨v, hv, hin, hbright, hreach⟩
      induction hreach with
      | refl => exact hone v hbright (h.seen v hv hin)
      | tail _ hstep ih => exact hone _ hstep.2.2 (h.closed _ rfl ih _ hstep.1 hstep.2.1)
  constructor
  case filled => exact hfilled
  case border =>
    intro w
    constructor
    · intro hw
      obtain ⟨hin, hmark⟩ := hmark w (by simp [hw])
      rcases hmark with hmark | ⟨-, hdark, hnext⟩
      · simp [hw] at hmark
      · refine ⟨hin, hdark, hnext.imp_right ?_⟩
        rintro ⟨a, ha, hnbr⟩
        exact ⟨a, (hfilled a).mp ha, hnbr⟩
    · rintro ⟨hin, hdark, hnext⟩
      have hne : m' w ≠ 0 := by
        rcases hnext with hseed | ⟨a, ha, hnbr⟩
        · exact h.seen w hseed hin
        · exact h.closed a rfl ((hfilled a).mpr ha) w hnbr hin
      rcases (hmark w hne).2 with hmark | hmark
      · exact absurd hmark.2.bright.2 (by simp [hdark])
      · exact hmark.1
  case range =>
    intro w
    by_cases hw : m' w = 0
    · exact .inl hw
    · exact .inr ((hmark w hw).2.imp And.left And.left)

end Visited

/-- Several visits, each of which does what one does. -/
theorem foldlM_visited {f : (V → ℤ) → V → Option (V → ℤ)} {m : V → ℤ}
    (hf : ∀ m₁ v, G.blanks m₁ ≤ G.blanks m → ∃ m', f m₁ v = some m' ∧ G.Visited m₁ [v] m')
    (vs : List V) : ∃ m', vs.foldlM f m = some m' ∧ G.Visited m vs m' := by
  induction vs generalizing m with
  | nil => exact ⟨m, rfl, .refl m⟩
  | cons v vs ih =>
      obtain ⟨m₁, hm₁, hvisit⟩ := hf m v le_rfl
      obtain ⟨m', hm', hrest⟩ := ih fun m₂ u hle => hf m₂ u (hle.trans hvisit.blanks_le)
      exact ⟨m', by rw [List.foldlM_cons, hm₁]; exact hm', hvisit.cons hrest⟩

/-- A mark on a vertex leaves fewer without. -/
theorem blanks_update [DecidableEq V] {m : V → ℤ} {v : V} (hv : v ∈ G.window) (h0 : m v = 0)
    {x : ℤ} (hx : x ≠ 0) : G.blanks (Function.update m v x) < G.blanks m := by
  apply Finset.card_lt_card
  rw [Finset.ssubset_iff_of_subset]
  · exact ⟨v, by simp [hv, h0], by simp [hx]⟩
  · intro w hw
    rw [Finset.mem_filter] at hw ⊢
    have hne : w ≠ v := by
      rintro rfl
      simp [hx] at hw
    rw [Function.update_of_ne hne] at hw
    exact hw

/-- **A visit ends**, if there are fewer vertices without a mark than it may go deep. -/
theorem flood_visited [DecidableEq V] {fuel : ℕ} {m : V → ℤ} (hfuel : G.blanks m < fuel) (v : V) :
    ∃ m', G.flood fuel m v = some m' ∧ G.Visited m [v] m' := by
  induction fuel generalizing m v with
  | zero => omega
  | succ fuel ih =>
      rw [flood]
      by_cases hskip : v ∉ G.window ∨ m v ≠ 0
      · exact ⟨m, if_pos hskip, .skip hskip⟩
      · rw [if_neg hskip]
        rw [not_or, not_not, not_not] at hskip
        obtain ⟨hv, h0⟩ := hskip
        by_cases hbright : G.bright v = true
        · rw [if_pos hbright]
          have hless := blanks_update hv h0 one_ne_zero
          obtain ⟨m', hm', hvisit⟩ := foldlM_visited (m := Function.update m v 1)
            (fun m₁ u hle => ih (m := m₁) (by omega) u) (G.nbrs v)
          exact ⟨m', hm', .bright hv hbright h0 hvisit⟩
        · rw [if_neg hbright]
          exact ⟨_, rfl, .dark hv (by simpa using hbright) h0⟩

/-- **The fill ends and shows what is connected to the seeds.** -/
theorem foldlM_flood [DecidableEq V] {fuel : ℕ} (hfuel : G.window.card < fuel) (seeds : List V) :
    ∃ m, seeds.foldlM (G.flood fuel) (fun _ => 0) = some m ∧ G.Shows seeds m := by
  have hblanks : G.blanks (fun _ => 0) = G.window.card := by
    simp [blanks]
  have hvisit : ∀ m₁ v, G.blanks m₁ ≤ G.blanks (fun _ => 0) →
      ∃ m', G.flood fuel m₁ v = some m' ∧ G.Visited m₁ [v] m' :=
    fun m₁ v hle => flood_visited (by omega) v
  obtain ⟨m, hm, hall⟩ := foldlM_visited hvisit seeds
  exact ⟨m, hm, hall.shows⟩

/-- Only which vertices are seeds matters. -/
theorem Shows.congr {seeds seeds' : List V} {m : V → ℤ} (h : G.Shows seeds m)
    (hseeds : ∀ v, v ∈ seeds ↔ v ∈ seeds') : G.Shows seeds' m := by
  have hfilled : ∀ w, G.Filled seeds w ↔ G.Filled seeds' w := by
    intro w
    simp only [Filled, hseeds]
  constructor
  case filled =>
    intro w
    rw [h.filled, hfilled]
  case border =>
    intro w
    simp only [h.border, Border, hseeds, hfilled]
  case range => exact h.range

/-- There is one such map. -/
theorem Shows.unique {seeds : List V} {m m' : V → ℤ} (h : G.Shows seeds m)
    (h' : G.Shows seeds m') : m = m' := by
  ext w
  have h₁ : m w = 1 ↔ m' w = 1 := by rw [h.filled, h'.filled]
  have h₂ : m w = -1 ↔ m' w = -1 := by rw [h.border, h'.border]
  have hr := h.range w
  have hr' := h'.range w
  omega

end Picture

end CCode.Lib
