import Mathlib.Tactic

/-!
# Sorting with ties broken by chance

A bubble sort by falling numbers that exchanges equal neighbours if a random number says so.
Whatever the random numbers are, the result is a rearrangement with falling numbers, so the
first element with some property has the largest number of those that have it.

## Main definitions

* `bubble`, `bubbleSort` — one pass, and all of them.
-/

namespace CCode.Lib

variable {α : Type*}

/-- One pass: from the right end on, a larger number moves to the left, and an equal one if
the next random number is odd. -/
def bubble (val : α → Int) : List α → (ℕ → ℕ) → List α × (ℕ → ℕ)
  | [], r => ([], r)
  | p :: ps, r =>
      match bubble val ps r with
      | ([], r) => ([p], r)
      | (q :: qs, r) =>
          if val q > val p then (q :: p :: qs, r)
          else if val q = val p then
            if r 0 &&& 1 ≠ 0 then (q :: p :: qs, fun n => r (n + 1))
            else (p :: q :: qs, fun n => r (n + 1))
          else (p :: q :: qs, r)

/-- The sort, with the number of passes to go; a pass leaves out what the ones before have
moved to the front. -/
def bubbleSort (val : α → Int) : ℕ → List α → (ℕ → ℕ) → List α × (ℕ → ℕ)
  | 0, ps, r => (ps, r)
  | n + 1, ps, r =>
      match bubble val ps r with
      | ([], r) => ([], r)
      | (q :: qs, r) =>
          let (qs, r) := bubbleSort val n qs r
          (q :: qs, r)

variable {val : α → Int}

/-- A pass moves the elements around. -/
theorem bubble_perm (val : α → Int) (ps : List α) (r : ℕ → ℕ) : (bubble val ps r).1.Perm ps := by
  induction ps generalizing r with
  | nil => exact .refl _
  | cons p ps ih =>
      have hps := ih r
      rw [bubble]
      split
      case h_1 heq =>
        rw [heq] at hps
        rw [hps.symm.eq_nil]
      case h_2 q qs r' heq =>
        rw [heq] at hps
        have hswap : (q :: p :: qs).Perm (p :: ps) := (List.Perm.swap p q qs).trans (hps.cons p)
        split_ifs
        · exact hswap
        · exact hswap
        · exact hps.cons p
        · exact hps.cons p

/-- A pass moves an element with a largest number to the front. -/
theorem bubble_head {ps : List α} {r r' : ℕ → ℕ} {q : α} {qs : List α}
    (h : bubble val ps r = (q :: qs, r')) : ∀ p ∈ qs, val p ≤ val q := by
  induction ps generalizing r q qs r' with
  | nil => simp [bubble] at h
  | cons p ps ih =>
      rw [bubble] at h
      split at h
      case h_1 heq =>
        simp only [Prod.mk.injEq, List.cons.injEq] at h
        simp [← h.1.2]
      case h_2 q' qs' r'' heq =>
        have hmax := ih heq
        split_ifs at h with hgt heqv hr <;>
          simp only [Prod.mk.injEq, List.cons.injEq] at h <;>
          obtain ⟨⟨rfl, rfl⟩, -⟩ := h <;>
          simp only [List.mem_cons, forall_eq_or_imp]
        · exact ⟨by omega, hmax⟩
        · exact ⟨by omega, hmax⟩
        · exact ⟨by omega, fun x hx => by have := hmax x hx; omega⟩
        · exact ⟨by omega, fun x hx => by have := hmax x hx; omega⟩

/-- The sort moves the elements around. -/
theorem bubbleSort_perm (val : α → Int) (n : ℕ) (ps : List α) (r : ℕ → ℕ) :
    (bubbleSort val n ps r).1.Perm ps := by
  induction n generalizing ps r with
  | zero => exact .refl _
  | succ n ih =>
      have hps := bubble_perm val ps r
      rw [bubbleSort]
      split
      case h_1 heq =>
        rwa [heq] at hps
      case h_2 q qs r' heq =>
        rw [heq] at hps
        exact ((ih qs r').cons q).trans hps

/-- The sort leaves falling numbers, if it has a pass for all elements but one. -/
theorem bubbleSort_sorted (val : α → Int) {n : ℕ} {ps : List α} (hlen : ps.length ≤ n + 1)
    (r : ℕ → ℕ) :
    (bubbleSort val n ps r).1.Pairwise fun p q => val q ≤ val p := by
  induction n generalizing ps r with
  | zero =>
      rw [bubbleSort]
      match ps, hlen with
      | [], _ => exact .nil
      | [p], _ => exact List.pairwise_singleton _ _
  | succ n ih =>
      have hps := bubble_perm val ps r
      rw [bubbleSort]
      split
      case h_1 => exact .nil
      case h_2 q qs r' heq =>
        rw [heq] at hps
        have hlen' := hps.length_eq
        simp only [List.length_cons] at hlen'
        refine List.pairwise_cons.mpr ⟨?_, ih (by omega) r'⟩
        intro p hp
        exact bubble_head heq p ((bubbleSort_perm val n qs r').mem_iff.mp hp)

/-- **The first element with a property** has the largest number of all that have it. -/
theorem bubbleSort_find {n : ℕ} {ps : List α} (hlen : ps.length ≤ n + 1) (r : ℕ → ℕ)
    {ok : α → Bool} {p : α} (hfind : (bubbleSort val n ps r).1.find? ok = some p) :
    ok p = true ∧ p ∈ ps ∧ ∀ q ∈ ps, ok q = true → val q ≤ val p := by
  have hperm := bubbleSort_perm val n ps r
  have hsorted := bubbleSort_sorted val hlen r
  refine ⟨List.find?_some hfind, hperm.mem_iff.mp (List.mem_of_find?_eq_some hfind), ?_⟩
  intro q hq hqok
  obtain ⟨-, pre, post, heq, hpre⟩ := List.find?_eq_some_iff_append.mp hfind
  rw [← hperm.mem_iff, heq] at hq
  rw [heq] at hsorted
  rcases List.mem_append.mp hq with hq | hq
  · have hno := hpre q hq
    simp [hqok] at hno
  · rcases List.mem_cons.mp hq with rfl | hq
    · exact le_rfl
    · exact (List.pairwise_cons.mp (List.pairwise_append.mp hsorted).2.1).1 q hq

/-- There is no such element in the sorted list only if there is none at all. -/
theorem bubbleSort_find_none {n : ℕ} {ps : List α} {r : ℕ → ℕ} {ok : α → Bool}
    (hfind : (bubbleSort val n ps r).1.find? ok = none) : ∀ q ∈ ps, ¬ ok q = true := by
  intro q hq
  exact List.find?_eq_none.mp hfind q ((bubbleSort_perm val n ps r).mem_iff.mpr hq)

end CCode.Lib
