import CCode.ConnectFour.Exact

/-!
# The values and the column of a search

What a search says whatever its table answers: its value is one that a column with a disc
can have, it is a tie only where the board fills up within the depth, and the column it
answers with takes a disc unless none does. None of this needs the table to be right, only
that it has no other values.

## Main definitions

* `Values` — values that are closed under what a search does to them.
* `Search.Holds` — the table has such values only.
* `Gives` — a part of a search gives such a value and keeps the table.
* `Scanned` — the positions of a loop over some columns.
-/

namespace CCode.ConnectFour

open CCode.Lib

/-- Some values that are closed under what a search does to them. -/
structure Values (P : Int → Prop) : Prop where
  win : P win
  normal : ∀ r ≤ 0x40 - 1, P (normalMim + (r : ℕ))
  neg : ∀ v, P v → P (-v)
  range : ∀ v, P v → InRange v

/-- The values of columns with a disc. -/
theorem inRange_values : Values InRange where
  win := by simp [InRange]
  normal r hr := by
    simp only [InRange, full, ConnectFour.win, normalMim]
    omega
  neg v hv := by
    simp only [InRange, full, ConnectFour.win] at hv ⊢
    omega
  range _ hv := hv

/-- A value of a column with a disc that is not a tie. -/
def Untied (v : Int) : Prop := InRange v ∧ v ≠ tied ∧ v ≠ -tied

theorem untied_values : Values Untied where
  win := ⟨inRange_values.win, by decide, by decide⟩
  normal r hr := by
    simp only [Untied, InRange, full, ConnectFour.win, normalMim, tied]
    omega
  neg v hv := by
    simp only [Untied, InRange, full, ConnectFour.win, tied] at hv ⊢
    omega
  range _ hv := hv.1

/-- Every entry of the table is such a value. -/
def Search.Holds (s : Search) (P : Int → Prop) : Prop :=
  ∀ i, (s.h i).toInt ≠ 0 → P (s.h i).toInt

/-- A part of a search, on a board, gives such a value, and puts no other into the table. -/
def Gives (P : Int → Prop) (b : Board) (f : Search → Position × Search) : Prop :=
  ∀ s, s.four.Shows b → s.Holds P → (f s).2.Holds P ∧ P (f s).1.value

section Gives

variable {P : Int → Prop} {b : Board} {child : Search → Position × Search} {id : Player}
  {i n : ℕ} {ho : b.Open i}

theorem Search.Holds.setHash (hP : Values P) {s : Search} (h : s.Holds P) (steps : ℕ) {v : Int}
    (hv : P v) : (setHash s steps v).Holds P := by
  intro i hi
  by_cases heq : i = getHashIdx (s.key steps)
  · have hround : (Int8.ofInt v).toInt = v := by
      have hrange := hP.range v hv
      simp only [InRange, ConnectFour.win] at hrange
      exact Int8.toInt_ofInt_of_le (by omega) (by omega)
    simpa only [ConnectFour.setHash, heq, Function.update_self, hround] using hv
  · simp only [ConnectFour.setHash, Function.update_of_ne heq] at hi ⊢
    exact h i hi

theorem compute_gives (hP : Values P)
    (hchild : n ≠ 0 → Gives P (b.push id i ho) child) :
    Gives P (b.push id i ho) (compute child id (n + 1) i) := by
  intro s hs hh
  by_cases hf : fourIsFinish s.four id i ≠ 0
  · simp only [compute, if_pos hf]
    exact ⟨hh, hP.win⟩
  · by_cases hn : n + 1 = 1
    · simp only [compute, if_neg hf, if_pos hn, Search.draw]
      exact ⟨hh, hP.normal _ Nat.and_le_right⟩
    · simp only [compute, if_neg hf, if_neg hn]
      exact hchild (by omega) s hs hh

theorem evaluate_gives (hP : Values P)
    (hchild : n ≠ 0 → Gives P (b.push id i ho) child) :
    Gives P (b.push id i ho) (evaluate child id (n + 1) i) := by
  intro s hs hh
  have hcomp := compute_gives hP hchild
  by_cases hdeep : n + 1 ≤ minHashDeep
  · rw [evaluate, if_pos hdeep]
    exact hcomp s hs hh
  · by_cases hhit : (getHash s (n + 1)).1 ≠ 0
    · rw [evaluate_hit hdeep hhit]
      exact ⟨hh, hh _ hhit⟩
    · rw [evaluate_miss hdeep hhit]
      obtain ⟨hh', hv⟩ := hcomp (getHash s (n + 1)).2 hs hh
      exact ⟨hh'.setHash hP (n + 1) hv, hv⟩

/-- The position of a column keeps its number. -/
theorem evaluate_colume (child : Search → Position × Search) (id : Player) (steps i : ℕ)
    (s : Search) : (evaluate child id steps i s).1.colume = i := by
  have hcomp : ∀ s, (compute child id steps i s).1.colume = i := by
    intro s
    simp only [compute]
    split_ifs
    · rfl
    · rfl
    · rfl
  by_cases hdeep : steps ≤ minHashDeep
  · rw [evaluate, if_pos hdeep]
    exact hcomp s
  · by_cases hhit : (getHash s steps).1 ≠ 0
    · rw [evaluate_hit hdeep hhit]
      rfl
    · rw [evaluate_miss hdeep hhit]
      exact hcomp _

/-- The positions of a loop over some columns: those that take a disc have such a value, up to
the first win, and all others are full. -/
structure Scanned (P : Int → Prop) (b : Board) (is : List ℕ) (ps : List Position) : Prop where
  pos : ∀ p ∈ ps, p.value ≠ full → P p.value ∧ ∃ i ∈ is, b.Open i ∧ p.colume = i
  some : (∃ i ∈ is, b.Open i) → ∃ p ∈ ps, p.value ≠ full

theorem scanned_blank (is : List ℕ) {p : Position} (hp : p ∈ is.map blank) : p.value = full := by
  obtain ⟨i, -, rfl⟩ := List.mem_map.mp hp
  rfl

theorem scan_gives (hP : Values P) (htidy : Tidy child)
    (hchild : ∀ i ho, n ≠ 0 → Gives P (b.push id i ho) child) (is : List ℕ) {s : Search}
    (hs : s.four.Shows b) (hh : s.Holds P) :
    (scan child id (n + 1) is s).2.Holds P ∧
      Scanned P b is (scan child id (n + 1) is s).1 := by
  induction is generalizing s with
  | nil => exact ⟨hh, by simp [scan], by simp⟩
  | cons i is ih =>
      have hfour := (tryColumn_tidy htidy id (n + 1) i).four s ⟨b, hs⟩
      by_cases ho : b.Open i
      · have htry : (tryColumn child id (n + 1) i s).2.Holds P ∧
            P (tryColumn child id (n + 1) i s).1.value ∧
            (tryColumn child id (n + 1) i s).1.colume = i := by
          rw [tryColumn_open hs ho]
          obtain ⟨hh', hv⟩ := evaluate_gives hP (hchild i ho) (s.drop id i)
            (hs.add id ho).2 hh
          exact ⟨hh', hv, evaluate_colume child id (n + 1) i _⟩
        rw [scan]
        split
        case _ pos s' heq =>
          rw [heq] at htry hfour
          obtain ⟨hh', hv, hcol⟩ := htry
          have hne : pos.value ≠ full := (hP.range _ hv).1
          split
          · refine ⟨hh', ?_, fun _ => ⟨pos, List.mem_cons_self, hne⟩⟩
            intro p hp hpne
            rcases List.mem_cons.mp hp with rfl | hp
            · exact ⟨hv, i, List.mem_cons_self, ho, hcol⟩
            · exact absurd (scanned_blank is hp) hpne
          · obtain ⟨hh'', hscan⟩ := ih (hfour ▸ hs) hh'
            refine ⟨hh'', ?_, fun _ => ⟨pos, List.mem_cons_self, hne⟩⟩
            intro p hp hpne
            rcases List.mem_cons.mp hp with rfl | hp
            · exact ⟨hv, i, List.mem_cons_self, ho, hcol⟩
            · obtain ⟨hpv, j, hj, hpos⟩ := hscan.pos p hp hpne
              exact ⟨hpv, j, List.mem_cons_of_mem _ hj, hpos⟩
      · have hstep : scan child id (n + 1) (i :: is) s =
            (blank i :: (scan child id (n + 1) is s).1, (scan child id (n + 1) is s).2) := by
          rw [scan, tryColumn_not_open hs ho]
          rfl
        obtain ⟨hh', hscan⟩ := ih hs hh
        rw [hstep]
        refine ⟨hh', ?_, ?_⟩
        · intro p hp hpne
          rcases List.mem_cons.mp hp with rfl | hp
          · exact absurd rfl hpne
          · obtain ⟨hpv, j, hj, hpos⟩ := hscan.pos p hp hpne
            exact ⟨hpv, j, List.mem_cons_of_mem _ hj, hpos⟩
        · rintro ⟨j, hj, hoj⟩
          rcases List.mem_cons.mp hj with rfl | hj
          · exact absurd hoj ho
          · obtain ⟨p, hp, hpne⟩ := hscan.some ⟨j, hj, hoj⟩
            exact ⟨p, List.mem_cons_of_mem _ hp, hpne⟩

end Gives

/-- The loops of one ply over all columns. -/
theorem maxScore_scanned {P : Int → Prop} (hP : Values P) {n : ℕ} {b : Board} {id : Player}
    (hchild : ∀ i ho, n ≠ 0 → Gives P (b.push id i ho) (maxScore n id.opId)) {s : Search}
    (hs : s.four.Shows b) (hh : s.Holds P) :
    (maxScore (n + 1) id s).2.Holds P ∧
      (((¬ ∃ i, b.Open i) ∧ (maxScore (n + 1) id s).1.value = -tied) ∨
        P (maxScore (n + 1) id s).1.value ∧
          ∃ i, b.Open i ∧ (maxScore (n + 1) id s).1.colume = i) := by
  obtain ⟨hh', hscan⟩ := scan_gives hP (maxScore_tidy n id.opId) hchild (List.range fourCol)
    (s := { s with stack := fun k => s.stack (k + 1) }) hs hh
  rw [maxScore]
  refine ⟨hh', ?_⟩
  have hlen := scan_length (maxScore n id.opId) id (n + 1) (List.range fourCol)
    { s with stack := fun k => s.stack (k + 1) }
  rw [List.length_range] at hlen
  rcases choose_cases (s.stack 0) hlen.le with ⟨hfull, hv⟩ | ⟨p, hp, hne, -, heq⟩
  · left
    refine ⟨?_, hv⟩
    rintro ⟨i, ho⟩
    obtain ⟨p, hp, hne⟩ := hscan.some ⟨i, List.mem_range.mpr ho.1, ho⟩
    exact hne (hfull p hp)
  · right
    obtain ⟨hv, i, -, ho, hcol⟩ := hscan.pos p hp hne
    rw [heq]
    exact ⟨hP.neg _ hv, i, ho, hcol⟩

/-- The values of a search are of the kind, if a tie is or the board does not fill up within
the depth. -/
theorem maxScore_gives {P : Int → Prop} (hP : Values P) (n : ℕ) {b : Board} (id : Player)
    (hb : P (-tied) ∨ n + 1 ≤ b.empties) : Gives P b (maxScore (n + 1) id) := by
  induction n generalizing b id with
  | zero =>
      intro s hs hh
      obtain ⟨hh', hres⟩ := maxScore_scanned hP (fun _ _ hn => absurd rfl hn) hs hh
      refine ⟨hh', ?_⟩
      rcases hres with ⟨hfull, hv⟩ | ⟨hv, -⟩
      · rw [hv]
        exact hb.resolve_right fun hlt => hfull (Board.empties_pos_iff.mp (by omega))
      · exact hv
  | succ n ih =>
      intro s hs hh
      have hchild : ∀ i ho, n + 1 ≠ 0 → Gives P (b.push id i ho) (maxScore (n + 1) id.opId) := by
        intro i ho _
        refine ih id.opId (hb.imp_right ?_)
        intro hle
        have := Board.empties_push id ho
        omega
      obtain ⟨hh', hres⟩ := maxScore_scanned hP hchild hs hh
      refine ⟨hh', ?_⟩
      rcases hres with ⟨hfull, hv⟩ | ⟨hv, -⟩
      · rw [hv]
        exact hb.resolve_right fun hlt => hfull (Board.empties_pos_iff.mp (by omega))
      · exact hv

theorem start_holds (P : Int → Prop) (four : Four) (rand : ℕ → ℕ) (stack : ℕ → Position) :
    (Search.start four rand stack).Holds P := by
  intro i hi
  simp [Search.start] at hi

end CCode.ConnectFour
