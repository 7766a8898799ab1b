import Mathlib.Data.List.Nodup
import Mathlib.Logic.Function.Basic
import Mathlib.Tactic

/-!
# Singly linked lists

Nodes in memory, linked by a `next` pointer. A node that is not live has been freed, or was
never allocated.

`Chain` describes what a pointer leads to: the nodes on the way to null with their
addresses, no address twice. The lemmas are those of a queue that is popped at its head and
pushed at its tail.

## Main definitions

* `Node`, `Cells` — nodes, and the live ones by address.
* `Chain` — the nodes that a pointer leads to.
-/

namespace CCode.Lib

variable {α : Type*}

/-- A value and the address of the next node, `none` for null. -/
structure Node (α : Type*) where
  val : α
  next : Option ℕ

/-- The live nodes. -/
abbrev Cells (α : Type*) := ℕ → Option (Node α)

/-- Following the pointer leads through the nodes of the list to null. -/
inductive Chain (m : Cells α) : Option ℕ → List (ℕ × α) → Prop
  | nil : Chain m none []
  | cons {p : ℕ} {a : α} {q : Option ℕ} {rest : List (ℕ × α)} :
      m p = some ⟨a, q⟩ → p ∉ rest.map Prod.fst → Chain m q rest → Chain m (some p) ((p, a) :: rest)

namespace Chain

variable {m : Cells α} {p : Option ℕ} {xs : List (ℕ × α)}

theorem head_eq (h : Chain m p xs) : p = xs.head?.map Prod.fst := by
  cases h with
  | nil => rfl
  | cons => rfl

/-- The nodes of a chain are live. -/
theorem isSome_of_mem (h : Chain m p xs) {q : ℕ} (hq : q ∈ xs.map Prod.fst) : (m q).isSome := by
  induction h with
  | nil => simp at hq
  | cons hp _ _ ih =>
      rcases List.mem_cons.mp hq with rfl | hq
      · rw [hp]
        rfl
      · exact ih hq

/-- No address comes twice. -/
theorem nodup (h : Chain m p xs) : (xs.map Prod.fst).Nodup := by
  induction h with
  | nil => exact .nil
  | cons _ hnot _ ih => exact List.nodup_cons.mpr ⟨hnot, ih⟩

/-- A pointer leads through one list. -/
theorem unique {ys : List (ℕ × α)} (h : Chain m p xs) (h' : Chain m p ys) : xs = ys := by
  induction h generalizing ys with
  | nil =>
      cases h'
      rfl
  | cons hp _ _ ih =>
      cases h' with
      | cons hp' _ hrest' =>
          rw [hp] at hp'
          cases hp'
          rw [ih hrest']

/-- An address that is free is on no chain. -/
theorem notMem_of_none (h : Chain m p xs) {q : ℕ} (hq : m q = none) : q ∉ xs.map Prod.fst := by
  intro hmem
  have := h.isSome_of_mem hmem
  simp [hq] at this

/-- A change elsewhere does not matter. -/
theorem frame (h : Chain m p xs) {q : ℕ} (hq : q ∉ xs.map Prod.fst) (c : Option (Node α)) :
    Chain (Function.update m q c) p xs := by
  induction h with
  | nil => exact .nil
  | @cons p a q' rest hp hnot _ ih =>
      rw [List.map_cons, List.mem_cons, not_or] at hq
      refine .cons ?_ hnot (ih hq.2)
      rw [Function.update_of_ne (Ne.symm hq.1), hp]

/-- The last node points to null. -/
theorem last_eq {ys : List (ℕ × α)} {t : ℕ} {a : α} (h : Chain m p (ys ++ [(t, a)])) :
    m t = some ⟨a, none⟩ := by
  induction ys generalizing p with
  | nil =>
      cases h with
      | cons hp _ hrest =>
          cases hrest with
          | nil => exact hp
  | cons y ys ih =>
      cases h with
      | cons _ _ hrest => exact ih hrest

/-- A node at the end of a chain: the last one is linked to a new one. -/
theorem snoc {ys : List (ℕ × α)} {t n : ℕ} {a b : α} (h : Chain m p (ys ++ [(t, a)]))
    (hn : m n = none) :
    Chain (Function.update (Function.update m n (some ⟨b, none⟩)) t (some ⟨a, some n⟩)) p
      (ys ++ [(t, a), (n, b)]) := by
  have hfresh := h.notMem_of_none hn
  induction ys generalizing p with
  | nil =>
      have hne : n ≠ t := by simpa using hfresh
      cases h with
      | cons =>
          refine .cons (Function.update_self _ _ _) (by simpa using Ne.symm hne) (.cons ?_ ?_ .nil)
          · rw [Function.update_of_ne hne, Function.update_self]
          · simp
  | cons y ys ih =>
      cases h with
      | @cons p a' q rest hp hnot hrest =>
          have hne : p ≠ t ∧ p ∉ ys.map Prod.fst := by
            constructor
            · rintro rfl
              exact hnot
                (List.mem_map.mpr ⟨(p, a), List.mem_append_right _ List.mem_cons_self, rfl⟩)
            · intro hmem
              obtain ⟨x, hx, heq⟩ := List.mem_map.mp hmem
              exact hnot (List.mem_map.mpr ⟨x, List.mem_append_left _ hx, heq⟩)
          have hn' : n ≠ p ∧ n ∉ (ys ++ [(t, a)]).map Prod.fst := by
            rw [List.cons_append, List.map_cons, List.mem_cons, not_or] at hfresh
            exact hfresh
          refine .cons ?_ ?_ (ih hrest hn'.2)
          · rw [Function.update_of_ne hne.1, Function.update_of_ne (Ne.symm hn'.1), hp]
          · show p ∉ (ys ++ [(t, a), (n, b)]).map Prod.fst
            rw [List.map_append, List.mem_append]
            rintro (hmem | hmem)
            · exact hne.2 hmem
            · rcases List.mem_pair.mp hmem with heq | heq
              · exact hne.1 heq
              · exact hn'.1 heq.symm

end Chain

end CCode.Lib
