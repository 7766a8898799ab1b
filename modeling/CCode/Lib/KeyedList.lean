import Mathlib.Data.List.Nodup
import Mathlib.Logic.Function.Basic

/-!
# Lists with unique keys as finite maps

A C program that needs a small map often keeps a linked list and searches it. If the keys
in the list are distinct, the list is a finite map: appending a record with a new key
updates the map at that key, and removing a record clears it there.

Such a program finds a record by its key but unlinks it by its address. Both are keys, and
`eraseP_eq_filter` says that unlinking by one is filtering by the other.

## Main definitions

* `lookupKey` — the record of a key.
-/

namespace CCode.Lib

variable {α κ μ : Type*} [DecidableEq κ] [DecidableEq μ]

/-- The first record with the key. -/
def lookupKey (key : α → κ) (l : List α) (k : κ) : Option α := l.find? fun a => key a = k

section

variable {key : α → κ} {l : List α}

theorem lookupKey_eq_none_iff {k : κ} : lookupKey key l k = none ↔ k ∉ l.map key := by
  simp [lookupKey, List.find?_eq_none]

theorem mem_of_lookupKey {k : κ} {a : α} (h : lookupKey key l k = some a) :
    a ∈ l ∧ key a = k :=
  ⟨List.mem_of_find?_eq_some h, by simpa using List.find?_some h⟩

/-- With unique keys every record is found under its key. -/
theorem lookupKey_of_mem (hkey : (l.map key).Nodup) {a : α} (ha : a ∈ l) :
    lookupKey key l (key a) = some a := by
  cases h : lookupKey key l (key a) with
  | none => exact absurd (List.mem_map_of_mem ha) (lookupKey_eq_none_iff.mp h)
  | some b =>
      obtain ⟨hb, hkb⟩ := mem_of_lookupKey h
      rw [List.inj_on_of_nodup_map hkey hb ha hkb]

/-- Appending a record with a new key updates the map there. -/
theorem lookupKey_append {a : α} (ha : key a ∉ l.map key) :
    lookupKey key (l ++ [a]) = Function.update (lookupKey key l) (key a) (some a) := by
  funext k
  by_cases hk : k = key a
  · subst hk
    have hnone := lookupKey_eq_none_iff.mpr ha
    rw [lookupKey] at hnone ⊢
    simp [List.find?_append, hnone]
  · have hka : ¬ key a = k := fun h => hk h.symm
    simp [lookupKey, List.find?_append, hk, hka]

/-- Filtering a key out clears the map there. -/
theorem lookupKey_filter (l : List α) (k₀ : κ) :
    lookupKey key (l.filter fun a => key a ≠ k₀) =
      Function.update (lookupKey key l) k₀ none := by
  funext k
  rw [lookupKey, List.find?_filter]
  by_cases hk : k = k₀
  · subst hk
    simp only [Function.update_self, List.find?_eq_none]
    intro a _
    simp
  · rw [Function.update_of_ne hk, lookupKey]
    congr 1
    funext a
    by_cases hka : key a = k
    · simp [hka, hk]
    · simp [hka]

/-- Unlinking a record by one unique key is filtering it out by another. -/
theorem eraseP_eq_filter {addr : α → μ} (haddr : (l.map addr).Nodup)
    (hkey : (l.map key).Nodup) {a : α} (ha : a ∈ l) :
    l.eraseP (fun b => addr b = addr a) = l.filter fun b => key b ≠ key a := by
  induction l with
  | nil => simp at ha
  | cons b l ih =>
      rw [List.map_cons, List.nodup_cons] at haddr hkey
      rcases List.mem_cons.mp ha with rfl | ha'
      · have hrest : (l.filter fun b => key b ≠ key a) = l := by
          rw [List.filter_eq_self]
          intro b hb
          have hne : key b ≠ key a := fun h => hkey.1 (h ▸ List.mem_map_of_mem hb)
          simpa using hne
        simpa using hrest.symm
      · have hba : addr b ≠ addr a := fun h => haddr.1 (h ▸ List.mem_map_of_mem ha')
        have hbk : key b ≠ key a := fun h => hkey.1 (h ▸ List.mem_map_of_mem ha')
        simpa [hba, hbk] using ih haddr.2 hkey.2 ha'

end

end CCode.Lib
