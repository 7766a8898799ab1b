import Mathlib.Tactic

/-!
# Iterative deepening

A loop that searches to one depth after the other, keeps the result of the depth before
beside that of the last one, and ends behind a depth whose result it likes or that took too
long, at a largest depth at the latest. What follows the loop may use either result.

`Deepening.round` is what the loop would have after each of its rounds if it never ended
early; `deepen_cases` says behind which of them it ends. The time is taken from a clock that
is read before and behind each search, and that may say anything.

## Main definitions

* `Deepening` — the variables of the loop.
* `Deepening.search`, `Deepening.next` — a round and the step to the next depth.
* `deepen` — the loop.
* `Deepening.round` — the variables after a round.
* `Timeval`, `timediffMs`, `overTime` — the clock.
-/

namespace CCode.Lib

variable {ρ σ : Type*}

/-- The depth, the result of the depth before, the last result, and the rest of the state. -/
structure Deepening (ρ σ : Type*) where
  step : ℕ
  last : ρ
  cur : ρ
  state : σ

namespace Deepening

/-- One search. -/
def search (f : ℕ → σ → ρ × σ) (d : Deepening ρ σ) : Deepening ρ σ :=
  let (cur, state) := f d.step d.state
  ⟨d.step, d.cur, cur, state⟩

/-- On to the next depth. -/
def next (d : Deepening ρ σ) : Deepening ρ σ := { d with step := d.step + 1 }

/-- The loop without an early end, after a number of rounds. -/
def iter (f : ℕ → σ → ρ × σ) : ℕ → Deepening ρ σ → Deepening ρ σ
  | 0, d => d
  | n + 1, d => iter f n (d.search f).next

/-- The variables behind the search of a round, which are counted from 0. -/
def round (f : ℕ → σ → ρ × σ) (n : ℕ) (d : Deepening ρ σ) : Deepening ρ σ := (iter f n d).search f

end Deepening

/-- The loop, with the number of depths to go. -/
def deepen (f : ℕ → σ → ρ × σ) (stop : ℕ → ρ → Bool) : ℕ → Deepening ρ σ → Deepening ρ σ
  | 0, d => d
  | k + 1, d =>
      let d := d.search f
      if stop d.step d.cur then d else deepen f stop k d.next

namespace Deepening

variable {f : ℕ → σ → ρ × σ} {stop : ℕ → ρ → Bool} {d : Deepening ρ σ}

@[simp] theorem search_step : (d.search f).step = d.step := rfl

@[simp] theorem next_step : d.next.step = d.step + 1 := rfl

theorem iter_succ (n : ℕ) : iter f (n + 1) d = ((iter f n d).search f).next := by
  induction n generalizing d with
  | zero => rfl
  | succ n ih => exact ih

theorem iter_step (n : ℕ) : (iter f n d).step = d.step + n := by
  induction n with
  | zero => rfl
  | succ n ih =>
      rw [iter_succ, next_step, search_step, ih]
      omega

theorem round_step (n : ℕ) : (round f n d).step = d.step + n := iter_step n

/-- The result of the round before is kept. -/
theorem round_succ_last (n : ℕ) : (round f (n + 1) d).last = (round f n d).cur := by
  rw [round, iter_succ]
  rfl

/-- A round searches to its depth from what the rounds before have left. -/
theorem round_cur (n : ℕ) : (round f n d).cur = (f (d.step + n) (iter f n d).state).1 := by
  rw [← iter_step (f := f)]
  rfl

theorem round_state (n : ℕ) : (round f n d).state = (f (d.step + n) (iter f n d).state).2 := by
  rw [← iter_step (f := f)]
  rfl

/-- What every search keeps is kept. -/
theorem iter_rule {I : σ → Prop} (hd : I d.state) (hsearch : ∀ n s, I s → I (f n s).2) (n : ℕ) :
    I (iter f n d).state := by
  induction n with
  | zero => exact hd
  | succ n ih =>
      rw [iter_succ]
      exact hsearch _ _ ih

end Deepening

open Deepening

/-- **Where the loop ends**: behind the first round that stops it, or after all of them. -/
theorem deepen_cases (f : ℕ → σ → ρ × σ) (stop : ℕ → ρ → Bool) (k : ℕ) (d : Deepening ρ σ) :
    (∃ n < k, (∀ m < n, stop (d.step + m) (round f m d).cur = false) ∧
      stop (d.step + n) (round f n d).cur = true ∧ deepen f stop k d = round f n d) ∨
    (∀ m < k, stop (d.step + m) (round f m d).cur = false) ∧ deepen f stop k d = iter f k d := by
  induction k generalizing d with
  | zero => exact .inr ⟨by simp, rfl⟩
  | succ k ih =>
      have hround : ∀ m, round f m (d.search f).next = round f (m + 1) d := fun _ => rfl
      by_cases hstop : stop d.step (d.search f).cur = true
      · left
        refine ⟨0, by omega, by simp, hstop, ?_⟩
        rw [deepen]
        exact if_pos hstop
      · have hgo : deepen f stop (k + 1) d = deepen f stop k (d.search f).next := by
          rw [deepen]
          exact if_neg hstop
        have hfirst : stop (d.step + 0) (round f 0 d).cur = false :=
          Bool.eq_false_iff.mpr hstop
        -- the rounds of the loop from the next depth on are those behind the first one
        have hall : ∀ n, (∀ m < n, stop ((d.search f).next.step + m)
            (round f m (d.search f).next).cur = false) →
            ∀ m < n + 1, stop (d.step + m) (round f m d).cur = false := by
          intro n hn m hm
          cases m with
          | zero => exact hfirst
          | succ m =>
              have hm' := hn m (by omega)
              rwa [hround, next_step, search_step, Nat.add_assoc, Nat.add_comm 1] at hm'
        rw [hgo]
        rcases ih (d.search f).next with ⟨n, hn, hbefore, hstop', heq⟩ | ⟨hbefore, heq⟩
        · left
          refine ⟨n + 1, by omega, hall n hbefore, ?_, heq⟩
          rwa [hround, next_step, search_step, Nat.add_assoc, Nat.add_comm 1] at hstop'
        · right
          exact ⟨hall k hbefore, heq⟩

/-- Behind the loop both results are results of rounds, the one before unless the first depth
was the last. -/
theorem deepen_results (f : ℕ → σ → ρ × σ) (stop : ℕ → ρ → Bool) {k : ℕ} (hk : 2 ≤ k)
    (d : Deepening ρ σ) :
    ∃ n, (deepen f stop k d).cur = (round f n d).cur ∧
      (deepen f stop k d).state = (round f n d).state ∧
      ((deepen f stop k d).step ≠ d.step →
        ∃ m, (deepen f stop k d).last = (round f m d).cur) := by
  rcases deepen_cases f stop k d with ⟨n, -, -, -, heq⟩ | ⟨-, heq⟩
  · rw [heq]
    refine ⟨n, rfl, rfl, ?_⟩
    intro hstep
    rw [round_step] at hstep
    obtain ⟨m, rfl⟩ := Nat.exists_eq_succ_of_ne_zero (n := n) (by omega)
    exact ⟨m, round_succ_last m⟩
  · obtain ⟨n, rfl⟩ := Nat.exists_eq_add_of_le' hk
    rw [heq]
    exact ⟨n + 1, by rw [iter_succ]; rfl, by rw [iter_succ]; rfl,
      fun _ => ⟨n, by rw [iter_succ]; exact round_succ_last n⟩⟩

/-! ## The clock -/

/-- A reading of the clock: seconds and microseconds. -/
structure Timeval where
  tvSec : Int
  tvUsec : Int

/-- The milliseconds between two readings, as a 32-bit number. -/
def timediffMs (start stop : Timeval) : Int :=
  ((stop.tvSec - start.tvSec) * 1000 + (stop.tvUsec - start.tvUsec).tdiv 1000).bmod (2 ^ 32)

/-- Too much time was used to expect the next depth, which takes `factor` times as long,
within the total. -/
def overTime (factor total : Int) (clock : Timeval × Timeval) : Bool :=
  let usedTime := timediffMs clock.1 clock.2
  decide ((usedTime * factor).bmod (2 ^ 32) > (total - usedTime).bmod (2 ^ 32))

end CCode.Lib
