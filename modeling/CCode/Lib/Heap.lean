import Mathlib.Logic.Function.Basic
import Mathlib.Tactic

/-!
# Blocks that are allocated and released

A heap hands out a new block for each request that is granted; which ones are is not for the program
to say. A block that is not there can neither be accessed nor released, so what has a result touches
nothing that is out of use and releases nothing twice; and what ends with the blocks it began with
has kept none.

## Main definitions

* `Heap` — the blocks, and the answers to the requests.
* `Heap.malloc`, `Heap.free`, `Heap.put` — the operations.
* `Heap.freeAll` — blocks one after the other.

## Main results

* `Heap.freeAll_of_blocks` — different blocks can be released, and those are then gone.
-/

namespace CCode.Lib

variable {α : Type*}

/-- The blocks in use, with the number of requests so far, which is also the name of the next
block. -/
structure Heap (α : Type*) where
  block : ℕ → Option α
  asked : ℕ
  grants : ℕ → Bool
  fresh : ∀ p, asked ≤ p → block p = none

namespace Heap

theorem lt_asked {h : Heap α} {p : ℕ} (hp : (h.block p).isSome) : p < h.asked := by
  by_contra hlt
  rw [h.fresh p (by omega)] at hp
  cases hp

/-- Another content, or none, for a block that was asked for. -/
def change (h : Heap α) (p : ℕ) (hp : p < h.asked) (c : Option α) : Heap α where
  block := Function.update h.block p c
  asked := h.asked
  grants := h.grants
  fresh := fun q hq => by
    rw [Function.update_of_ne (by omega)]
    exact h.fresh q hq

/-- One more request, with no block for it yet. -/
def ask (h : Heap α) : Heap α where
  block := h.block
  asked := h.asked + 1
  grants := h.grants
  fresh := fun p hp => h.fresh p (by omega)

/-- `malloc`; `none` is `NULL`. -/
def malloc (h : Heap α) (v : α) : Heap α × Option ℕ :=
  if h.grants h.asked then
    (h.ask.change h.asked (Nat.lt_succ_self h.asked) (some v), some h.asked)
  else (h.ask, none)

/-- `free` of a block. -/
def free (h : Heap α) (p : ℕ) : Option (Heap α) :=
  if hp : (h.block p).isSome then some (h.change p (lt_asked hp) none) else none

/-- A block gets other contents. -/
def put (h : Heap α) (p : ℕ) (v : α) : Option (Heap α) :=
  if hp : (h.block p).isSome then some (h.change p (lt_asked hp) (some v)) else none

/-- `free` of one block after the other. -/
def freeAll (h : Heap α) (ps : List ℕ) : Option (Heap α) := ps.foldlM free h

variable {h h' : Heap α} {p : ℕ} {v w : α}

@[simp] theorem change_block (hp : p < h.asked) (c : Option α) :
    (h.change p hp c).block = Function.update h.block p c := rfl

@[simp] theorem change_asked (hp : p < h.asked) (c : Option α) :
    (h.change p hp c).asked = h.asked := rfl

@[simp] theorem change_grants (hp : p < h.asked) (c : Option α) :
    (h.change p hp c).grants = h.grants := rfl

/-- A request that is granted. -/
theorem malloc_of_grants (v : α) (hg : h.grants h.asked = true) :
    ∃ h', h.malloc v = (h', some h.asked) ∧
      h'.block = Function.update h.block h.asked (some v) ∧ h'.asked = h.asked + 1 ∧
      h'.grants = h.grants :=
  ⟨_, if_pos hg, rfl, rfl, rfl⟩

/-- A request that is not. -/
theorem malloc_of_denied (v : α) (hg : h.grants h.asked = false) :
    ∃ h', h.malloc v = (h', none) ∧ h'.block = h.block ∧ h'.asked = h.asked + 1 ∧
      h'.grants = h.grants :=
  ⟨_, if_neg (by simp [hg]), rfl, rfl, rfl⟩

/-- A block in use can be released. -/
theorem free_of_block (hp : h.block p = some v) :
    ∃ h', h.free p = some h' ∧ h'.block = Function.update h.block p none ∧
      h'.asked = h.asked ∧ h'.grants = h.grants :=
  ⟨_, dif_pos (by rw [hp]; rfl), rfl, rfl, rfl⟩

/-- One that is not in use cannot. -/
theorem free_of_none (hp : h.block p = none) : h.free p = none :=
  dif_neg (by rw [hp]; simp)

theorem put_of_block (hp : h.block p = some v) (w : α) :
    ∃ h', h.put p w = some h' ∧ h'.block = Function.update h.block p (some w) ∧
      h'.asked = h.asked ∧ h'.grants = h.grants :=
  ⟨_, dif_pos (by rw [hp]; rfl), rfl, rfl, rfl⟩

/-- **Different blocks can be released**, and those are then gone. -/
theorem freeAll_of_blocks {ps : List ℕ} (hps : ∀ p ∈ ps, (h.block p).isSome) (hnd : ps.Nodup) :
    ∃ h', h.freeAll ps = some h' ∧ (∀ p, h'.block p = if p ∈ ps then none else h.block p) ∧
      h'.asked = h.asked ∧ h'.grants = h.grants := by
  induction ps generalizing h with
  | nil => exact ⟨h, rfl, by simp, rfl, rfl⟩
  | cons p ps ih =>
      obtain ⟨v, hv⟩ := Option.isSome_iff_exists.mp (hps p (by simp))
      obtain ⟨h₁, hfree, hblock, hasked, hgrants⟩ := free_of_block hv
      have hnot : p ∉ ps := (List.nodup_cons.mp hnd).1
      have hrest : ∀ q ∈ ps, (h₁.block q).isSome := by
        intro q hq
        have hne : q ≠ p := fun hqp => hnot (hqp ▸ hq)
        rw [hblock, Function.update_of_ne hne]
        exact hps q (by simp [hq])
      obtain ⟨h₂, hall, hblock₂, hasked₂, hgrants₂⟩ := ih hrest (List.nodup_cons.mp hnd).2
      refine ⟨h₂, ?_, ?_, hasked₂.trans hasked, hgrants₂.trans hgrants⟩
      · rw [freeAll, List.foldlM_cons, hfree]
        exact hall
      · intro q
        rw [hblock₂ q, hblock, Function.update_apply]
        by_cases hqp : q = p
        · simp [hqp]
        · simp [hqp]

end Heap

end CCode.Lib
