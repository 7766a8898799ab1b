import Mathlib.Data.Set.Insert
import Mathlib.Tactic

/-!
# Bitboards

A set of cells kept as rows of bits: a placement says in which row and at which bit a
cell is, a cell is added by setting its bit and removed by clearing it. A board that is
kept in several such forms at once, by rows, by columns and by diagonals, has one
placement for each of them and the same cells in all.

## Main definitions

* `Rows`, `Rows.set`, `Rows.clear` — rows of bits, and the updates of one bit.
* `Marks` — the rows have exactly the bits of a set of cells.
-/

namespace CCode.Lib

variable {ι C : Type*} {w : ℕ}

/-- Rows of `w` bits. -/
abbrev Rows (ι : Type*) (w : ℕ) := ι → BitVec w

namespace Rows

variable [DecidableEq ι] (r : Rows ι w) (i j : ι) (x y : ℕ)

/-- `r[i] |= 1 << x`. -/
def set : Rows ι w := Function.update r i (r i ||| 1#w <<< x)

/-- `r[i] &= ~(1 << x)`. -/
def clear : Rows ι w := Function.update r i (r i &&& ~~~(1#w <<< x))

/-- The bits of a row after one was set. -/
theorem getLsbD_set (hx : x < w) :
    (r.set i x j).getLsbD y = ((r j).getLsbD y || decide (j = i ∧ y = x)) := by
  by_cases hj : j = i
  · subst hj
    simp only [set, Function.update_self, BitVec.getLsbD_or, ← BitVec.twoPow_eq,
      BitVec.getLsbD_twoPow, true_and]
    congr 1
    simp only [hx, decide_true, Bool.true_and, eq_comm]
  · simp [set, hj]

/-- The bits of a row after one was cleared. -/
theorem getLsbD_clear :
    (r.clear i x j).getLsbD y = ((r j).getLsbD y && !decide (j = i ∧ y = x)) := by
  by_cases hj : j = i
  · subst hj
    simp only [clear, Function.update_self, BitVec.getLsbD_and, BitVec.getLsbD_not,
      ← BitVec.twoPow_eq, BitVec.getLsbD_twoPow, true_and]
    by_cases hy : y < w
    · by_cases hxy : y = x
      · subst hxy
        simp [hy]
      · have hne : ¬ x = y := fun h => hxy h.symm
        simp [hy, hxy, hne]
    · simp [BitVec.getLsbD_of_ge (r j) y (Nat.le_of_not_lt hy)]
  · simp [clear, hj]

end Rows

/-- The rows have exactly the bits of the cells in `S`, each at its place. -/
def Marks (pos : C → ι × ℕ) (r : Rows ι w) (S : Set C) : Prop :=
  ∀ i x, (r i).getLsbD x = true ↔ ∃ c ∈ S, pos c = (i, x)

namespace Marks

variable {pos : C → ι × ℕ} {r r' : Rows ι w} {S : Set C} {c : C}

/-- Rows without a bit mark no cell. -/
theorem empty : Marks pos (fun _ => 0#w) (∅ : Set C) := by
  intro i x
  simp

/-- The cells determine the rows. -/
theorem unique (h : Marks pos r S) (h' : Marks pos r' S) : r = r' := by
  funext i
  apply BitVec.eq_of_getLsbD_eq
  intro x _
  rw [Bool.eq_iff_iff, h i x, h' i x]

/-- The bit of a cell says whether it is in the set, if no other cell has its place. -/
theorem getLsbD_iff (h : Marks pos r S) (hinj : ∀ d ∈ S, pos d = pos c → d = c) :
    (r (pos c).1).getLsbD (pos c).2 = true ↔ c ∈ S := by
  rw [h]
  constructor
  · rintro ⟨d, hd, heq⟩
    rwa [← hinj d hd heq]
  · intro hc
    exact ⟨c, hc, rfl⟩

variable [DecidableEq ι]

/-- Setting the bit of a cell adds the cell. -/
theorem set (h : Marks pos r S) (hc : (pos c).2 < w) :
    Marks pos (r.set (pos c).1 (pos c).2) (insert c S) := by
  intro i x
  rw [Rows.getLsbD_set r _ i _ x hc, Bool.or_eq_true, h, decide_eq_true_eq]
  constructor
  · rintro (⟨d, hd, heq⟩ | ⟨hi, hx⟩)
    · exact ⟨d, Set.mem_insert_of_mem c hd, heq⟩
    · exact ⟨c, Set.mem_insert c S, by rw [hi, hx]⟩
  · rintro ⟨d, hd, heq⟩
    rcases Set.mem_insert_iff.mp hd with rfl | hd
    · exact .inr ⟨by rw [heq], by rw [heq]⟩
    · exact .inl ⟨d, hd, heq⟩

/-- Clearing the bit of a cell removes it, if no other cell has its place. -/
theorem clear (h : Marks pos r (insert c S)) (hc : c ∉ S)
    (hinj : ∀ d ∈ S, pos d = pos c → d = c) :
    Marks pos (r.clear (pos c).1 (pos c).2) S := by
  intro i x
  rw [Rows.getLsbD_clear, Bool.and_eq_true, h, Bool.not_eq_true', decide_eq_false_iff_not]
  constructor
  · rintro ⟨⟨d, hd, heq⟩, hne⟩
    rcases Set.mem_insert_iff.mp hd with rfl | hd
    · exact absurd ⟨by rw [heq], by rw [heq]⟩ hne
    · exact ⟨d, hd, heq⟩
  · rintro ⟨d, hd, heq⟩
    refine ⟨⟨d, Set.mem_insert_of_mem c hd, heq⟩, ?_⟩
    rintro ⟨hi, hx⟩
    have hpos : pos d = pos c := by rw [heq, hi, hx]
    exact hc (hinj d hd hpos ▸ hd)

end Marks

end CCode.Lib
