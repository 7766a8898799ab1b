import Mathlib.Data.List.Basic

/-!
# Enumeration through a cursor

A client that can only ask for the first item at or after a position enumerates a
collection by asking again behind each item it gets, until the answer is something else.
The state `S` of the party that answers may change with every question.

`Yields` describes the run of such a loop one answer at a time, under an invariant of the
answering party; `enumerate_eq` turns it into the result of the loop.

## Main definitions

* `enumerate` — the loop, with a bound on the number of questions.
* `Yields` — the answers that a position leads to.
-/

namespace CCode.Lib

variable {S κ α ε : Type*}

/-- Ask at `k`; behind an item go on, at anything else stop. The second component is
`none` if the questions ran out before the loop stopped. -/
def enumerate (ask : S → κ → S × (α ⊕ ε)) (next : α → κ) : ℕ → S → κ → List α × Option ε
  | 0, _, _ => ([], none)
  | fuel + 1, s, k =>
      match ask s k with
      | (s', .inl a) =>
          let (as, e) := enumerate ask next fuel s' (next a)
          (a :: as, e)
      | (_, .inr e) => ([], some e)

/-- From the position `k` on, and in every state in `P`, the answers are the items `as`
and then the stop `e`. -/
inductive Yields (ask : S → κ → S × (α ⊕ ε)) (next : α → κ) (P : S → Prop) (e : ε) :
    κ → List α → Prop
  | done {k : κ} : (∀ s, P s → (ask s k).2 = .inr e) → Yields ask next P e k []
  | item {k : κ} {a : α} {as : List α} :
      (∀ s, P s → (ask s k).2 = .inl a ∧ P (ask s k).1) → Yields ask next P e (next a) as →
      Yields ask next P e k (a :: as)

/-- **With more questions than items the loop returns exactly the items, and stops.** -/
theorem enumerate_eq {ask : S → κ → S × (α ⊕ ε)} {next : α → κ} {P : S → Prop} {e : ε} {k : κ}
    {as : List α} (h : Yields ask next P e k as) {s : S} (hs : P s) {fuel : ℕ}
    (hfuel : as.length < fuel) : enumerate ask next fuel s k = (as, some e) := by
  induction h generalizing s fuel with
  | @done k hask =>
      obtain ⟨fuel, rfl⟩ := Nat.exists_eq_add_of_lt hfuel
      have hstop := hask s hs
      rcases hans : ask s k with ⟨s', a | e'⟩
      · simp [hans] at hstop
      · simp_all [enumerate]
  | @item k a as hask _ ih =>
      obtain ⟨fuel, rfl⟩ : ∃ n, fuel = n + 1 := ⟨fuel - 1, by omega⟩
      obtain ⟨hitem, hs'⟩ := hask s hs
      rcases hans : ask s k with ⟨s', a' | e'⟩
      · obtain rfl : a' = a := by simpa [hans] using hitem
        rw [hans] at hs'
        simp [enumerate, hans, ih hs' (by simpa using hfuel)]
      · simp [hans] at hitem

end CCode.Lib
