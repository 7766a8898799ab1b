import CCode.ConnectFour.Board

/-!
# Four in line

A line of four is given by a direction and a cell to start from. `four_isFinish` never
looks for one on the board: it looks up, for the last disc only, the four lines through it,
each a word of bits, in a table of the words with four bits in a row. `isFinish_iff` says
that this finds a line of four of the player exactly if there is one, provided that there
was none before the disc.

## Main definitions

* `Dir`, `Dir.cell` — the four directions, and the cells along them.
* `FourInLine` — four cells in line among a set of cells.
-/

namespace CCode.ConnectFour

open CCode.Lib

/-! ## The geometry -/

/-- The directions of a line. -/
inductive Dir
  | row | column | slash | backslash
  deriving DecidableEq

namespace Dir

/-- The `k`-th of four cells in a direction. The cell `(r, c)` is the leftmost or lowest
one, or the lower left corner of the square that a diagonal crosses. -/
def cell : Dir → ℕ → ℕ → ℕ → ℕ × ℕ
  | row, r, c, k => (r, c + k)
  | column, r, c, k => (r + k, c)
  | slash, r, c, k => (r + k, c + k)
  | backslash, r, c, k => (r + (3 - k), c + k)

/-- The placement whose lines go in a direction. -/
def placement : Dir → Placement
  | row => byRow
  | column => byCol
  | slash => bySlash
  | backslash => byBackslash

end Dir

/-- Four cells in line, all of the set. -/
def FourInLine (S : Set (ℕ × ℕ)) : Prop := ∃ (d : Dir) (r c : ℕ), ∀ k < 4, d.cell r c k ∈ S

namespace Dir

variable {d : Dir} {r c : ℕ}

/-- Cells in line are next to each other on one line of the placement. -/
theorem pos_cell (h : ∀ k < 4, (d.cell r c k).1 < fourRow ∧ (d.cell r c k).2 < fourCol) :
    ∃ y x, ∀ k < 4, d.placement.pos (d.cell r c k) = (y, x + k) := by
  have h₀ := h 0 (by omega)
  have h₃ := h 3 (by omega)
  cases d with
  | row => exact ⟨r, c, fun k _ => rfl⟩
  | column => exact ⟨c, r, fun k _ => rfl⟩
  | slash =>
      simp only [cell, fourCol] at h₀ h₃
      refine ⟨fieldSyMap r c, fieldSxMap r c, fun k hk => ?_⟩
      have hy := fieldSyMap_add r (show c < fourCol by simp only [fourCol]; omega)
      have hy' := fieldSyMap_add (r + k) (show c + k < fourCol by simp only [fourCol]; omega)
      simp only [placement, bySlash, cell, fieldSxMap_eq, Prod.mk.injEq]
      omega
  | backslash =>
      simp only [cell, fourRow] at h₀ h₃
      refine ⟨r + 3 + c, fieldBsxMap (r + 3) c, fun k hk => ?_⟩
      simp only [placement, byBackslash, cell, fieldBsyMap, fieldBsxMap_eq, Prod.mk.injEq]
      omega

/-- Cells next to each other on one line of the placement are in line. -/
theorem cell_of_pos {cs : ℕ → ℕ × ℕ} {y x : ℕ}
    (hb : ∀ k < 4, (cs k).1 < fourRow ∧ (cs k).2 < fourCol)
    (h : ∀ k < 4, d.placement.pos (cs k) = (y, x + k)) :
    ∃ r c, ∀ k < 4, cs k = d.cell r c k := by
  cases d with
  | row =>
      refine ⟨y, x, fun k hk => h k hk⟩
  | column =>
      refine ⟨x, y, fun k hk => ?_⟩
      have hk' := h k hk
      simp only [placement, byCol, Prod.mk.injEq] at hk'
      exact Prod.ext hk'.2 hk'.1
  | slash =>
      refine ⟨(cs 0).1, (cs 0).2, fun k hk => ?_⟩
      have h₀ := h 0 (by omega)
      have hk' := h k hk
      have hy := fieldSyMap_add (cs 0).1 (hb 0 (by omega)).2
      have hy' := fieldSyMap_add (cs k).1 (hb k hk).2
      simp only [placement, bySlash, fieldSxMap_eq, Prod.mk.injEq] at h₀ hk'
      apply Prod.ext <;> simp only [cell] <;> omega
  | backslash =>
      refine ⟨(cs 3).1, (cs 0).2, fun k hk => ?_⟩
      have h₀ := h 0 (by omega)
      have h₃ := h 3 (by omega)
      have hk' := h k hk
      have hb₀ := (hb 0 (by omega)).1
      have hb₃ := (hb 3 (by omega)).1
      have hbk := (hb k hk).1
      simp only [placement, byBackslash, fieldBsyMap, fieldBsxMap_eq, fourRow,
        Prod.mk.injEq] at h₀ h₃ hk' hb₀ hb₃ hbk
      apply Prod.ext <;> simp only [cell] <;> omega

end Dir

/-! ## The table of lines -/

/-- The word has four bits in a row. -/
def FourBits (v : BitVec 16) : Prop := ∃ x, ∀ k < 4, v.getLsbD (x + k) = true

theorem and_nibble_iff (v : BitVec 16) :
    v &&& 0xF#16 = 0xF#16 ↔ ∀ k < 4, v.getLsbD k = true := by
  have hlit : ∀ i < 16, (0xF#16).getLsbD i = decide (i < 4) := by decide
  constructor
  · intro h k hk
    have hbit := congrArg (BitVec.getLsbD · k) h
    simp only [BitVec.getLsbD_and, hlit k (by omega), hk, decide_true, Bool.and_true] at hbit
    exact hbit
  · intro h
    apply BitVec.eq_of_getLsbD_eq
    intro i hi
    rw [BitVec.getLsbD_and, hlit i hi]
    by_cases hk : i < 4
    · simp [h i hk, hk]
    · simp [hk]

/-- A word below 15 has no four bits in a row. -/
theorem FourBits.le {v : BitVec 16} (h : FourBits v) : v ≥ 0xF#16 := by
  obtain ⟨x, hx⟩ := h
  rw [ge_iff_le, BitVec.le_def]
  show 15 ≤ v.toNat
  cases x with
  | zero =>
      have hand := (and_nibble_iff v).mpr (by simpa using hx)
      have hnat : v.toNat &&& 15 = 15 := congrArg BitVec.toNat hand
      calc 15 = v.toNat &&& 15 := hnat.symm
        _ ≤ v.toNat := Nat.and_le_left
  | succ x =>
      have hbit : v.toNat.testBit (x + 4) = true := by
        have := hx 3 (by omega)
        rwa [show x + 1 + 3 = x + 4 by omega] at this
      have hge : 2 ^ (x + 4) ≤ v.toNat := Nat.ge_two_pow_of_testBit hbit
      have hpow : 2 ^ 4 ≤ 2 ^ (x + 4) := Nat.pow_le_pow_right (by omega) (by omega)
      omega

/-- Without the four lowest bits the four bits in a row are further up. -/
theorem fourBits_shiftRight_iff {v : BitVec 16} (h : ¬ v &&& 0xF#16 = 0xF#16) :
    FourBits (v >>> 1) ↔ FourBits v := by
  constructor
  · intro ⟨x, hx⟩
    refine ⟨x + 1, fun k hk => ?_⟩
    have hbit := hx k hk
    rw [BitVec.getLsbD_ushiftRight] at hbit
    rwa [show x + 1 + k = 1 + (x + k) by omega]
  · intro ⟨x, hx⟩
    cases x with
    | zero => exact absurd ((and_nibble_iff v).mpr (by simpa using hx)) h
    | succ x =>
        refine ⟨x, fun k hk => ?_⟩
        rw [BitVec.getLsbD_ushiftRight, show 1 + (x + k) = x + 1 + k by omega]
        exact hx k hk

/-- The loop has enough rounds for words of as many bits. -/
theorem finishLoop_ne_zero_iff {fuel : ℕ} {v : BitVec 16} (hv : v.toNat < 2 ^ fuel) :
    finishLoop fuel v ≠ 0 ↔ FourBits v := by
  induction fuel generalizing v with
  | zero =>
      refine iff_of_false (by simp [finishLoop]) fun h => ?_
      have hge := BitVec.le_def.mp h.le
      simp at hge hv
      omega
  | succ fuel ih =>
      rw [finishLoop]
      by_cases hge : v ≥ 0xF#16
      · by_cases hand : v &&& 0xF#16 = 0xF#16
        · simp only [hge, hand, if_true]
          refine iff_of_true (by omega) ⟨0, ?_⟩
          simpa using (and_nibble_iff v).mp hand
        · simp only [hge, hand, if_true, if_false]
          rw [ih, fourBits_shiftRight_iff hand]
          rw [BitVec.toNat_ushiftRight, Nat.shiftRight_eq_div_pow]
          rw [Nat.pow_succ] at hv
          omega
      · simp only [hge, if_false]
        exact iff_of_false (by simp) fun h => hge h.le

/-- **The table has the words with four bits in a row.** -/
theorem finishMap_ne_zero_iff (v : BitVec 16) : finishMap v ≠ 0 ↔ FourBits v :=
  finishLoop_ne_zero_iff v.isLt

/-! ## The last disc -/

/-- The bitboard whose lines go in a direction. -/
def Four.boards (four : Four) : Dir → Boards
  | .row => four.fieldH
  | .column => four.fieldV
  | .slash => four.fieldS
  | .backslash => four.fieldBs

namespace Four.Shows

variable {four : Four} {b : Board}

theorem boards (h : four.Shows b) (d : Dir) : (four.boards d).Shows d.placement b := by
  cases d with
  | row => exact h.h
  | column => exact h.v
  | slash => exact h.s
  | backslash => exact h.bs

/-- A line has four bits in a row exactly if four cells in its direction are on it. -/
theorem fourBits_iff (h : four.Shows b) (d : Dir) (id : Player) (y : ℕ) :
    FourBits (four.boards d id y) ↔ ∃ r c, ∀ k < 4,
      d.cell r c k ∈ b.cells id ∧ (d.placement.pos (d.cell r c k)).1 = y := by
  have hmarks := h.boards d id
  constructor
  · intro ⟨x, hx⟩
    have hmem : ∀ k, ∃ e, k < 4 → e ∈ b.cells id ∧ d.placement.pos e = (y, x + k) := by
      intro k
      by_cases hk : k < 4
      · obtain ⟨e, he, hpos⟩ := (hmarks y (x + k)).mp (hx k hk)
        exact ⟨e, fun _ => ⟨he, hpos⟩⟩
      · exact ⟨(0, 0), fun hk' => absurd hk' hk⟩
    choose cs hcs using hmem
    obtain ⟨r, c, hcell⟩ := Dir.cell_of_pos (fun k hk => Board.bounds_of_mem (hcs k hk).1)
      fun k hk => (hcs k hk).2
    refine ⟨r, c, fun k hk => ?_⟩
    rw [← hcell k hk, (hcs k hk).2]
    exact ⟨(hcs k hk).1, rfl⟩
  · intro ⟨r, c, hcell⟩
    obtain ⟨y', x, hpos⟩ := Dir.pos_cell fun k hk => Board.bounds_of_mem (hcell k hk).1
    refine ⟨x, fun k hk => ?_⟩
    rw [hmarks y (x + k)]
    refine ⟨d.cell r c k, (hcell k hk).1, ?_⟩
    have hy := (hcell k hk).2
    rw [hpos k hk] at hy ⊢
    rw [← hy]

/-- `four_isFinish` looks at the four lines through the topmost disc of the column. -/
theorem isFinish_iff_lines (h : four.Shows b) (id : Player) {col row : ℕ}
    (hrow : (b.stack col).length = row + 1) :
    fourIsFinish four id col = 1 ↔
      ∃ d : Dir, FourBits (four.boards d id (d.placement.pos (row, col)).1) := by
  have hdirs : (∃ d : Dir, FourBits (four.boards d id (d.placement.pos (row, col)).1)) ↔
      FourBits (four.fieldH id row) ∨ FourBits (four.fieldV id col) ∨
      FourBits (four.fieldS id (fieldSyMap row col)) ∨
      FourBits (four.fieldBs id (fieldBsyMap row col)) := by
    constructor
    · intro ⟨d, hd⟩
      cases d with
      | row => exact .inl hd
      | column => exact .inr (.inl hd)
      | slash => exact .inr (.inr (.inl hd))
      | backslash => exact .inr (.inr (.inr hd))
    · rintro (hd | hd | hd | hd)
      · exact ⟨.row, hd⟩
      · exact ⟨.column, hd⟩
      · exact ⟨.slash, hd⟩
      · exact ⟨.backslash, hd⟩
  rw [hdirs, fourIsFinish, h.nextPosMap_column, hrow]
  simp only [← finishMap_ne_zero_iff]
  split_ifs <;> simp_all

/-- **The lookup of the last disc is exact**: if the player had no four in line before, it
finds one exactly if there is one. -/
theorem isFinish_push {col : ℕ} {ho : b.Open col} {id : Player}
    (h : four.Shows (b.push id col ho)) (hno : ¬ FourInLine (b.cells id)) :
    fourIsFinish four id col = 1 ↔ FourInLine ((b.push id col ho).cells id) := by
  rw [h.isFinish_iff_lines id (Board.length_push ho)]
  simp only [h.fourBits_iff]
  constructor
  · rintro ⟨d, r, c, hcell⟩
    exact ⟨d, r, c, fun k hk => (hcell k hk).1⟩
  · rintro ⟨d, r, c, hcell⟩
    -- one of the four cells is new
    obtain ⟨j, hj, hnew⟩ : ∃ j < 4, d.cell r c j ∉ b.cells id := by
      by_contra hall
      push Not at hall
      exact hno ⟨d, r, c, hall⟩
    have htop : d.cell r c j = b.top col := by
      have hmem := hcell j hj
      rw [Board.cells_push_self] at hmem
      exact hmem.resolve_right hnew
    obtain ⟨y, x, hpos⟩ := Dir.pos_cell fun k hk => Board.bounds_of_mem (hcell k hk)
    have hy : (d.placement.pos (b.top col)).1 = y := by rw [← htop, hpos j hj]
    refine ⟨d, r, c, fun k hk => ⟨hcell k hk, ?_⟩⟩
    rw [hpos k hk]
    exact hy.symm

end Four.Shows

/-! ## Boards reached by additions -/

/-- The cells of a player on the 6 by 7 board. -/
def Four.discs (four : Four) (id : Player) : Set (ℕ × ℕ) :=
  {c | c.1 < fourRow ∧ c.2 < fourCol ∧ four.Has id c.1 c.2}

theorem Four.Shows.discs_eq {four : Four} {b : Board} (h : four.Shows b) (id : Player) :
    four.discs id = b.cells id := by
  ext c
  constructor
  · intro hc
    exact h.has_iff.mp hc.2.2
  · intro hc
    have hb := Board.bounds_of_mem hc
    exact ⟨hb.1, hb.2, h.has_iff.mpr hc⟩

/-- A line of four on the board starts on it. -/
theorem fourInLine_iff {S : Set (ℕ × ℕ)} (hS : ∀ c ∈ S, c.1 < fourRow ∧ c.2 < fourCol) :
    FourInLine S ↔
      ∃ d ∈ [Dir.row, .column, .slash, .backslash], ∃ r ∈ List.range fourRow,
        ∃ c ∈ List.range fourCol, ∀ k < 4, d.cell r c k ∈ S := by
  constructor
  · intro ⟨d, r, c, h⟩
    have h₀ := hS _ (h 0 (by omega))
    have h₃ := hS _ (h 3 (by omega))
    refine ⟨d, by cases d <;> simp, r, ?_, c, ?_, h⟩
    · cases d <;> simp_all [Dir.cell]
    · cases d <;> simp_all [Dir.cell]
  · intro ⟨d, _, r, _, c, _, h⟩
    exact ⟨d, r, c, h⟩

theorem fourInLine_discs_iff (four : Four) (id : Player) :
    FourInLine (four.discs id) ↔
      ∃ d ∈ [Dir.row, .column, .slash, .backslash], ∃ r ∈ List.range fourRow,
        ∃ c ∈ List.range fourCol, ∀ k < 4, (d.cell r c k).1 < fourRow ∧
          (d.cell r c k).2 < fourCol ∧
          (four.fieldH id (d.cell r c k).1).getLsbD (d.cell r c k).2 = true :=
  fourInLine_iff fun _ hc => ⟨hc.1, hc.2.1⟩

theorem fourInLine_cells_iff (b : Board) (id : Player) :
    FourInLine (b.cells id) ↔
      ∃ d ∈ [Dir.row, .column, .slash, .backslash], ∃ r ∈ List.range fourRow,
        ∃ c ∈ List.range fourCol, ∀ k < 4,
          (b.stack (d.cell r c k).2)[(d.cell r c k).1]? = some id :=
  fourInLine_iff fun _ hc => Board.bounds_of_mem hc

instance (b : Board) (id : Player) : Decidable (FourInLine (b.cells id)) :=
  decidable_of_iff' _ (fourInLine_cells_iff b id)

instance (four : Four) (id : Player) : Decidable (FourInLine (four.discs id)) :=
  decidable_of_iff' _ (fourInLine_discs_iff four id)

/-- The state after calls of `four_add`, of which some may have failed. -/
def addAll (calls : List (Player × ℕ)) : Four :=
  calls.foldl (fun four call => (fourAdd four call.1 call.2).2) fourReset

/-- Additions lead from a board to a board. -/
theorem addAll_consistent (calls : List (Player × ℕ)) : (addAll calls).Consistent := by
  have hstep : ∀ (four : Four) (call : Player × ℕ), four.Consistent →
      (fourAdd four call.1 call.2).2.Consistent := by
    intro four call ⟨b, h⟩
    by_cases ho : b.Open call.2
    · exact ⟨_, (h.add call.1 ho).2⟩
    · rw [h.add_of_not_open call.1 ho]
      exact ⟨b, h⟩
  rw [addAll]
  apply List.foldlRecOn calls
  · exact ⟨_, fourReset_shows⟩
  · intro four h call _
    exact hstep four call h

/-- **The win detection is exact.** After a disc on a board that additions led to and on
which nobody had four in line, `four_isFinish` says 1 exactly if its player has four in
line. -/
theorem isFinish_exact (calls : List (Player × ℕ)) (id : Player) (col : ℕ)
    (hno : ∀ p, ¬ FourInLine ((addAll calls).discs p))
    (hadd : (fourAdd (addAll calls) id col).1 = 0) :
    fourIsFinish (fourAdd (addAll calls) id col).2 id col = 1 ↔
      FourInLine ((fourAdd (addAll calls) id col).2.discs id) := by
  obtain ⟨b, h⟩ := addAll_consistent calls
  have ho := (h.add_eq_zero_iff id col).mp hadd
  have hnew := (h.add id ho).2
  rw [hnew.discs_eq]
  apply hnew.isFinish_push
  rw [← h.discs_eq]
  exact hno id

/-- A fourth disc on three of the same player. -/
theorem isFinish_exact_column :
    fourIsFinish (fourAdd (addAll [(.p1, 3), (.p1, 3), (.p1, 3)]) .p1 3).2 .p1 3 = 1 ↔
      FourInLine ((fourAdd (addAll [(.p1, 3), (.p1, 3), (.p1, 3)]) .p1 3).2.discs .p1) := by
  apply isFinish_exact
  · intro p
    cases p <;> decide
  · decide

end CCode.ConnectFour
