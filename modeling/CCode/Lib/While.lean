import Mathlib.Tactic

/-!
# Loops

A `while` loop with a bound on the number of its rounds. It gives nothing if the bound is
too small; where it gives a result, every larger bound gives the same.

The rule for such a loop has the variant as an index of the invariant. What the variant
measures is often not in the state of the program, such as the depth of a node in a tree that
is known by a pointer only; the invariant may then say that there is something it measures.

A counted loop is a fold over the numbers below its bound. Unrolled by `m`, it is the fold that
takes `m` of them at a time.

## Main definitions

* `whileFuel` — the loop.
* `whileFuel_rule` — invariant and variant.

## Main results

* `foldl_range_mul` — unrolling.
* `foldl_range_invariant` — the rule for counted loops.
-/

namespace CCode.Lib

variable {σ : Type*}

/-- `while (cond) body`, for at most `fuel` rounds. -/
def whileFuel (cond : σ → Bool) (body : σ → σ) : ℕ → σ → Option σ
  | 0, s => if cond s then none else some s
  | fuel + 1, s => if cond s then whileFuel cond body fuel (body s) else some s

variable {cond : σ → Bool} {body : σ → σ}

/-- **The rule for loops.** -/
theorem whileFuel_rule {P : ℕ → σ → Prop}
    (hbody : ∀ n s, P n s → cond s = true → ∃ m < n, P m (body s)) {n : ℕ} {s : σ} (h : P n s)
    {fuel : ℕ} (hfuel : n ≤ fuel) :
    ∃ m s', whileFuel cond body fuel s = some s' ∧ P m s' ∧ cond s' = false := by
  induction fuel generalizing n s with
  | zero =>
      have hn : n = 0 := by omega
      subst hn
      by_cases hc : cond s = true
      · obtain ⟨m, hm, -⟩ := hbody 0 s h hc
        omega
      · exact ⟨0, s, by simp [whileFuel, hc], h, by simpa using hc⟩
  | succ fuel ih =>
      by_cases hc : cond s = true
      · obtain ⟨m, hm, hP⟩ := hbody n s h hc
        obtain ⟨k, s', hs', hrest⟩ := ih hP (by omega)
        exact ⟨k, s', by simp [whileFuel, hc, hs'], hrest⟩
      · exact ⟨n, s, by simp [whileFuel, hc], h, by simpa using hc⟩

/-- A larger bound gives the same result. -/
theorem whileFuel_mono {fuel fuel' : ℕ} {s s' : σ} (h : whileFuel cond body fuel s = some s')
    (hle : fuel ≤ fuel') : whileFuel cond body fuel' s = some s' := by
  induction fuel generalizing fuel' s with
  | zero =>
      rw [whileFuel] at h
      split at h
      · cases h
      · rename_i hc
        cases fuel' <;> simpa [whileFuel, hc] using h
  | succ fuel ih =>
      obtain ⟨k, rfl⟩ : ∃ k, fuel' = k + 1 := ⟨fuel' - 1, by omega⟩
      rw [whileFuel] at h ⊢
      split at h
      · rename_i hc
        rw [if_pos hc]
        exact ih h (show fuel ≤ k by omega)
      · rename_i hc
        rw [if_neg hc]
        exact h

/-! ## Counted loops -/

/-- **Unrolling.** -/
theorem foldl_range_mul (g : σ → ℕ → σ) (s : σ) (k m : ℕ) :
    (List.range (k * m)).foldl g s
      = (List.range k).foldl
          (fun s j => (List.range m).foldl (fun s i => g s (m * j + i)) s) s := by
  induction k with
  | zero => rw [Nat.zero_mul]; rfl
  | succ k ih =>
      rw [Nat.succ_mul, List.range_add, List.foldl_append, ih, List.range_succ, List.foldl_append,
        List.foldl_map, Nat.mul_comm k m]
      rfl

/-- **The rule for counted loops.** -/
theorem foldl_range_invariant {P : ℕ → σ → Prop} {g : σ → ℕ → σ} {k : ℕ} {s : σ} (h₀ : P 0 s)
    (hstep : ∀ i s, i < k → P i s → P (i + 1) (g s i)) : P k ((List.range k).foldl g s) := by
  induction k with
  | zero => exact h₀
  | succ k ih =>
      rw [List.range_succ, List.foldl_append]
      exact hstep k _ (Nat.lt_succ_self k)
        (ih fun i s hi => hstep i s (Nat.lt_succ_of_lt hi))

end CCode.Lib
