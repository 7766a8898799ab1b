import Mathlib.Data.List.Induction

/-!
# Transducers

A single pass over a list that keeps a state and puts out one value for each element. What
it puts out for an element depends on the elements before it alone, so two passes put out
the same if and only if they do after every prefix.

## Main definitions

* `after` — the state behind a list.
* `outputs` — what the pass puts out.
* `outputs_eq_iff` — two passes that put out the same.
-/

namespace CCode.Lib

variable {S S' A B : Type*}

/-- The state after a list. -/
def after (step : S → A → S × B) (s : S) (xs : List A) : S :=
  xs.foldl (fun s x => (step s x).1) s

/-- The values that are put out, one for each element. -/
def outputs (step : S → A → S × B) : S → List A → List B
  | _, [] => []
  | s, x :: xs => (step s x).2 :: outputs step (step s x).1 xs

variable {step : S → A → S × B} {step' : S' → A → S' × B} {s : S} {s' : S'} {xs : List A}

@[simp] theorem after_nil : after step s [] = s := rfl

@[simp] theorem after_snoc {x : A} : after step s (xs ++ [x]) = (step (after step s xs) x).1 := by
  simp [after]

@[simp] theorem length_outputs : (outputs step s xs).length = xs.length := by
  induction xs generalizing s with
  | nil => rfl
  | cons x xs ih => rw [outputs, List.length_cons, List.length_cons, ih]

theorem outputs_snoc {x : A} :
    outputs step s (xs ++ [x]) = outputs step s xs ++ [(step (after step s xs) x).2] := by
  induction xs generalizing s with
  | nil => rfl
  | cons y ys ih =>
      rw [List.cons_append, outputs, ih]
      rfl

/-- A map of what is put out is a pass of its own, with the same states. -/
theorem map_outputs {C : Type*} (f : B → C) :
    (outputs step s xs).map f = outputs (fun s x => ((step s x).1, f (step s x).2)) s xs := by
  induction xs generalizing s with
  | nil => rfl
  | cons x xs ih => rw [outputs, outputs, List.map_cons, ih]

/-- What is put out for the element behind a prefix. -/
theorem getElem?_outputs {pre : List A} {x : A} (h : pre ++ [x] <+: xs) :
    (outputs step s xs)[pre.length]? = some (step (after step s pre) x).2 := by
  induction xs using List.reverseRecOn with
  | nil => simp at h
  | append_singleton ys y ih =>
      rw [outputs_snoc]
      rcases List.prefix_concat_iff.mp h with heq | h
      · obtain ⟨rfl, hlast⟩ := List.append_inj' heq rfl
        rw [List.getElem?_append_right (Nat.le_of_eq length_outputs), length_outputs, Nat.sub_self,
          List.singleton_inj.mp hlast]
        rfl
      · have hlt := h.length_le
        rw [List.length_append, List.length_singleton] at hlt
        rw [List.getElem?_append_left (by rw [length_outputs]; exact hlt), ih h]

/-- An element of a list is behind the prefix before it. -/
theorem exists_prefix_of_getElem? {i : ℕ} {x : A} (h : xs[i]? = some x) :
    ∃ pre, pre ++ [x] <+: xs ∧ pre.length = i := by
  obtain ⟨hi, rfl⟩ := List.getElem?_eq_some_iff.mp h
  refine ⟨xs.take i, ?_, List.length_take_of_le (Nat.le_of_lt hi)⟩
  rw [List.take_append_getElem hi]
  exact List.take_prefix _ _

/-- What holds at the start and behind every element, if it does before it, holds after
every prefix. -/
theorem forall_prefix {P : List A → Prop} (h0 : P [])
    (hstep : ∀ pre x, pre ++ [x] <+: xs → P pre → P (pre ++ [x])) :
    ∀ pre, pre <+: xs → P pre := by
  intro pre
  induction pre using List.reverseRecOn with
  | nil => exact fun _ => h0
  | append_singleton pre x ih =>
      exact fun h => hstep pre x h (ih ((List.prefix_append pre [x]).trans h))

/-- Two passes put out the same if and only if they do behind every prefix. -/
theorem outputs_eq_iff :
    outputs step s xs = outputs step' s' xs ↔
      ∀ pre x, pre ++ [x] <+: xs →
        (step (after step s pre) x).2 = (step' (after step' s' pre) x).2 := by
  constructor
  · intro h pre x hpre
    have hat := congrArg (·[pre.length]?) h
    simp only [getElem?_outputs hpre, Option.some_inj] at hat
    exact hat
  · intro h
    induction xs using List.reverseRecOn with
    | nil => rfl
    | append_singleton ys y ih =>
        rw [outputs_snoc, outputs_snoc, h ys y (List.prefix_refl _),
          ih fun pre x hpre => h pre x (hpre.trans (List.prefix_append _ _))]

end CCode.Lib
