import Mathlib.Data.List.Induction
import Mathlib.Logic.Relation

/-!
# Runs of a labelled transition function

A system is a partial step function on states and labels: `step s a = none` when the
label is not enabled. `Runs step ok` are its finite runs in which every step meets the
condition `ok`; `fun _ _ => True` gives all runs. A statement about every state a system
reaches is a statement about the end of every run, because every prefix of a run is one.

## Main definitions

* `Runs` — a finite run, each of whose steps meets a condition.
* `Runs.invariant` — the invariant rule.
* `Runs.of_foldlM`, `Runs.of_guarded` — runs by execution.
* `acyclic_of_rank`, `exists_reaches_of_rank` — relations that a rank falls along, such as
  who waits for whom.
-/

namespace CCode.Lib

variable {S A : Type*}

/-- `Runs step ok s as t`: the labels `as` lead from `s` to `t`, and each step met `ok` in
the state it was taken from. -/
inductive Runs (step : S → A → Option S) (ok : S → A → Prop) (s : S) : List A → S → Prop
  | refl : Runs step ok s [] s
  | snoc {as : List A} {a : A} {t u : S} :
      Runs step ok s as t → ok t a → step t a = some u → Runs step ok s (as ++ [a]) u

namespace Runs

variable {step : S → A → Option S} {ok : S → A → Prop} {s t : S} {as : List A}

/-- **The invariant rule.** What holds at the start and is kept by every step that meets
the condition holds at the end of the run. -/
theorem invariant {P : S → Prop} (h : Runs step ok s as t) (h0 : P s)
    (hstep : ∀ u a v, P u → ok u a → step u a = some v → P v) : P t := by
  induction h with
  | refl => exact h0
  | snoc _ hok hs ih => exact hstep _ _ _ ih hok hs

/-- A run stays one under a weaker condition. -/
theorem mono {ok' : S → A → Prop} (h : Runs step ok s as t) (hok : ∀ u a, ok u a → ok' u a) :
    Runs step ok' s as t := by
  induction h with
  | refl => exact .refl
  | snoc _ hoku hs ih => exact .snoc ih (hok _ _ hoku) hs

/-- The last step of a run. -/
theorem last {a : A} (h : Runs step ok s (as ++ [a]) t) :
    ∃ u, Runs step ok s as u ∧ ok u a ∧ step u a = some t := by
  generalize hbs : as ++ [a] = bs at h
  cases h with
  | refl => simp at hbs
  | snoc hrun hok hs =>
      obtain ⟨rfl, heq⟩ := List.append_inj' hbs rfl
      obtain rfl : a = _ := List.singleton_inj.mp heq
      exact ⟨_, hrun, hok, hs⟩

/-- A run and one from its end on. -/
theorem append {bs : List A} {u : S} (h : Runs step ok s as t) (h' : Runs step ok t bs u) :
    Runs step ok s (as ++ bs) u := by
  induction h' with
  | refl => rwa [List.append_nil]
  | snoc _ hok hs ih =>
      rw [← List.append_assoc]
      exact .snoc ih hok hs

/-- A sequence of labels that can be executed is a run, if all of them meet the
condition. -/
theorem of_foldlM (h : as.foldlM step s = some t) (hok : ∀ u, ∀ a ∈ as, ok u a) :
    Runs step ok s as t := by
  induction as using List.reverseRecOn generalizing t with
  | nil =>
      obtain rfl : s = t := by simpa using h
      exact .refl
  | append_singleton as a ih =>
      simp only [List.foldlM_append, List.foldlM_cons, List.foldlM_nil, bind_pure,
        Option.bind_eq_bind, Option.bind_eq_some_iff] at h
      obtain ⟨u, hu, hstep⟩ := h
      exact .snoc (ih hu fun v b hb => hok v b (by simp [hb])) (hok u a (by simp)) hstep

/-- A sequence of labels that can be executed with the condition as a guard is a run. -/
theorem of_guarded [∀ u a, Decidable (ok u a)]
    (h : as.foldlM (fun u a => if ok u a then step u a else none) s = some t) :
    Runs step ok s as t := by
  induction as using List.reverseRecOn generalizing t with
  | nil =>
      obtain rfl : s = t := by simpa using h
      exact .refl
  | append_singleton as a ih =>
      simp only [List.foldlM_append, List.foldlM_cons, List.foldlM_nil, bind_pure,
        Option.bind_eq_bind, Option.bind_eq_some_iff, Option.ite_none_right_eq_some] at h
      obtain ⟨u, hu, hok, hstep⟩ := h
      exact .snoc (ih hu) hok hstep

end Runs

section Rank

variable {α : Type*} {r : α → α → Prop} {rank : α → ℕ}

/-- A relation along which a rank falls has no cycle. -/
theorem acyclic_of_rank (hrank : ∀ x y, r x y → rank y < rank x) (x : α) :
    ¬ Relation.TransGen r x x := by
  have hlt : ∀ y, Relation.TransGen r x y → rank y < rank x := by
    intro y hxy
    induction hxy with
    | single h => exact hrank _ _ h
    | tail _ h ih => exact Nat.lt_trans (hrank _ _ h) ih
  exact fun hcycle => Nat.lt_irrefl _ (hlt x hcycle)

/-- Where each element has the property `Q` or is related to a further one, following the
relation leads to one with `Q`, if a rank falls along it. -/
theorem exists_reaches_of_rank (hrank : ∀ x y, r x y → rank y < rank x) {P Q : α → Prop}
    (hnext : ∀ x, P x → Q x ∨ ∃ y, r x y ∧ P y) {x : α} (hx : P x) :
    ∃ y, Relation.ReflTransGen r x y ∧ Q y := by
  induction hn : rank x using Nat.strongRecOn generalizing x with
  | ind n ih =>
      rcases hnext x hx with hQ | ⟨y, hxy, hy⟩
      · exact ⟨x, .refl, hQ⟩
      · obtain ⟨z, hyz, hz⟩ := ih (rank y) (hn ▸ hrank x y hxy) hy rfl
        exact ⟨z, .head hxy hyz, hz⟩

end Rank

end CCode.Lib
