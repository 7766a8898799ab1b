import CCode.ConnectFour.Lines
import CCode.ConnectFour.Search

/-!
# The search is exact up to collisions of the hash

The table of the search answers for whatever position was stored under the same index. If
no two different keys that were looked up have the same index, then an answer is about the
position that was asked for; and it is about the same player, because the depth tells who
is to move. So what the table says is what the search would have computed, as far as the
two ends of the scale are concerned: the other values depend on `rand`.

`search_exact` compares the search with the game itself, within the plies of its depth.

## Main definitions

* `fourGame` — Connect Four as a game of two players.
* `NoCollision` — different keys have different indices.
* `TableOk` — every entry of the table is right for a key that was looked up.
-/

namespace CCode.ConnectFour

open CCode.Lib

/-! ## The game -/

/-- Connect Four: a board and the player to move, who drops a disc into a column that takes
it and wins with four in line. -/
def fourGame : Game (Board × Player) where
  next s t := ∃ (col : ℕ) (ho : s.1.Open col), t = (s.1.push s.2 col ho, s.2.opId)
  won t := FourInLine (t.1.cells t.2.opId)

/-- Every move of the game fills a cell. -/
theorem fourGame_empties (s t : Board × Player) (h : fourGame.next s t) :
    t.1.empties < s.1.empties := by
  obtain ⟨col, ho, rfl⟩ := h
  exact Nat.lt_of_succ_le (Board.empties_push _ ho).le

/-- Nobody has four in line. -/
def Board.NoFour (b : Board) : Prop := ∀ id, ¬ FourInLine (b.cells id)

/-- A disc that does not win leaves a board without four in line. -/
theorem Board.NoFour.push {b : Board} {id : Player} {col : ℕ} {ho : b.Open col}
    (h : b.NoFour) (hno : ¬ FourInLine ((b.push id col ho).cells id)) :
    (b.push id col ho).NoFour := by
  intro id'
  rcases id.eq_or_eq_opId id' with rfl | rfl
  · exact hno
  · rw [Board.cells_push_opId]
    exact h id.opId

theorem noFour_empty : Board.empty.NoFour := by
  intro id ⟨d, row, col, hcell⟩
  have hmem := hcell 0 (by decide)
  simp [Board.cells, Board.empty] at hmem

/-- Additions lead to a board without four in line if the bitboards have none. -/
theorem addAll_noFour (calls : List (Player × ℕ))
    (h : ∀ id, ¬ FourInLine ((addAll calls).discs id)) :
    ∃ b, (addAll calls).Shows b ∧ b.NoFour := by
  obtain ⟨b, hb⟩ := addAll_consistent calls
  refine ⟨b, hb, ?_⟩
  intro id
  rw [← hb.discs_eq]
  exact h id

/-- The rows determine the board. -/
theorem board_of_rows {a : Boards} {b b' : Board} (h : a.Shows byRow b)
    (h' : a.Shows byRow b') : b = b' := by
  have hcell : ∀ (b : Board), a.Shows byRow b → ∀ id row col,
      (a id row).getLsbD col = true ↔ (b.stack col)[row]? = some id := by
    intro b hb id row col
    rw [hb id]
    constructor
    · intro ⟨c, hc, heq⟩
      simp only [byRow, Prod.mk.injEq] at heq
      rw [← heq.1, ← heq.2]
      exact hc
    · intro hc
      exact ⟨(row, col), hc, rfl⟩
  ext1
  funext col
  apply List.ext_getElem?
  intro row
  apply Option.ext
  intro id
  rw [← hcell b h, ← hcell b' h']

/-! ## The state of a search -/

/-- The values that a column with a disc can have. -/
def InRange (v : Int) : Prop := v ≠ full ∧ -win ≤ v ∧ v ≤ win

/-- No two different keys have the same index. -/
def NoCollision (keys : List Key) : Prop :=
  ∀ k ∈ keys, ∀ k' ∈ keys, getHashIdx k = getHashIdx k' → k = k'

theorem NoCollision.mono {keys keys' : List Key} (h : NoCollision keys') (hsub : keys ⊆ keys') :
    NoCollision keys :=
  fun k hk k' hk' => h k (hsub hk) k' (hsub hk')

/-- The value is right for the position of the key, in which the player has moved who is to
move at that depth. -/
def KeyMeans (mover : ℕ → Player) (k : Key) (v : Int) : Prop :=
  InRange v ∧ ∀ b, k.fieldH.Shows byRow b →
    fourGame.Entry win (k.step - 1) (b, (mover k.step).opId) v

/-- Every entry of the table is right for a key that was looked up. -/
def TableOk (mover : ℕ → Player) (s : Search) : Prop :=
  ∀ i, (s.h i).toInt ≠ 0 → ∃ k ∈ s.examined, getHashIdx k = i ∧ KeyMeans mover k (s.h i).toInt

/-- A part of a search leaves the board as it is and forgets no key. -/
structure Tidy (f : Search → Position × Search) : Prop where
  four : ∀ s, s.four.Consistent → (f s).2.four = s.four
  examined : ∀ s, s.examined ⊆ (f s).2.examined

/-- A part of a search, on a board, gives a value that is right and keeps the table right,
unless two keys collide. -/
def Exact (mover : ℕ → Player) (b : Board) (Right : Int → Prop) (f : Search → Position × Search) :
    Prop :=
  ∀ s, s.four.Shows b → TableOk mover s → NoCollision (f s).2.examined →
    TableOk mover (f s).2 ∧ InRange (f s).1.value ∧ Right (f s).1.value

/-! ## Tidiness -/

section Tidy

variable {child : Search → Position × Search}

theorem compute_tidy (hchild : Tidy child) (id : Player) (steps i : ℕ) :
    Tidy (compute child id steps i) where
  four s hs := by
    simp only [compute]
    split_ifs
    · rfl
    · rfl
    · exact hchild.four s hs
  examined s := by
    simp only [compute]
    split_ifs
    · exact List.Subset.refl _
    · exact List.Subset.refl _
    · exact hchild.examined s

/-- A value in the table is the answer. -/
theorem evaluate_hit {id : Player} {steps i : ℕ} {s : Search} (hdeep : ¬ steps ≤ minHashDeep)
    (hhit : (getHash s steps).1 ≠ 0) : evaluate child id steps i s =
      ({ blank i with value := (getHash s steps).1 }, (getHash s steps).2) := by
  simp only [evaluate, if_neg hdeep, if_pos hhit]

/-- Otherwise the value is computed and put into the table. -/
theorem evaluate_miss {id : Player} {steps i : ℕ} {s : Search} (hdeep : ¬ steps ≤ minHashDeep)
    (hmiss : ¬ (getHash s steps).1 ≠ 0) :
    let res := compute child id steps i (getHash s steps).2
    evaluate child id steps i s = (res.1, setHash res.2 steps res.1.value) := by
  simp only [evaluate, if_neg hdeep, if_neg hmiss]

theorem evaluate_tidy (hchild : Tidy child) (id : Player) (steps i : ℕ) :
    Tidy (evaluate child id steps i) where
  four s hs := by
    have hcomp := compute_tidy hchild id steps i
    by_cases hdeep : steps ≤ minHashDeep
    · rw [evaluate, if_pos hdeep]
      exact hcomp.four s hs
    · by_cases hhit : (getHash s steps).1 ≠ 0
      · rw [evaluate_hit hdeep hhit]
        rfl
      · rw [evaluate_miss hdeep hhit]
        exact hcomp.four (getHash s steps).2 hs
  examined s := by
    have hcomp := compute_tidy hchild id steps i
    have hcons : s.examined ⊆ (getHash s steps).2.examined := List.subset_cons_self _ _
    by_cases hdeep : steps ≤ minHashDeep
    · rw [evaluate, if_pos hdeep]
      exact hcomp.examined s
    · by_cases hhit : (getHash s steps).1 ≠ 0
      · rw [evaluate_hit hdeep hhit]
        exact hcons
      · rw [evaluate_miss hdeep hhit]
        exact List.Subset.trans hcons (hcomp.examined _)

/-- The state with a disc of the player in the column. -/
def Search.drop (s : Search) (id : Player) (i : ℕ) : Search :=
  { s with four := (fourAdd s.four id i).2 }

theorem tryColumn_open {s : Search} {b : Board} (hb : s.four.Shows b) {i : ℕ} (ho : b.Open i)
    (id : Player) (steps : ℕ) :
    let res := evaluate child id steps i (s.drop id i)
    tryColumn child id steps i s =
      (res.1, { res.2 with four := fourRemove res.2.four id i }) := by
  have hret : ¬ (fourAdd s.four id i).1 < 0 := by
    rw [(hb.add id ho).1]
    decide
  simp only [tryColumn, if_neg hret, Search.drop]

theorem tryColumn_not_open {s : Search} {b : Board} (hb : s.four.Shows b) {i : ℕ}
    (ho : ¬ b.Open i) (id : Player) (steps : ℕ) :
    tryColumn child id steps i s = (blank i, s) := by
  have hret : (fourAdd s.four id i).1 < 0 := by
    rw [hb.add_of_not_open id ho]
    exact neg_one_lt_zero
  simp only [tryColumn, if_pos hret]

theorem tryColumn_tidy (hchild : Tidy child) (id : Player) (steps i : ℕ) :
    Tidy (tryColumn child id steps i) where
  four s hs := by
    obtain ⟨b, hb⟩ := hs
    by_cases ho : b.Open i
    · have heval := (evaluate_tidy hchild id steps i).four (s.drop id i) ⟨_, (hb.add id ho).2⟩
      simp only [tryColumn_open hb ho, heval]
      exact hb.remove_add id ho
    · rw [tryColumn_not_open hb ho]
  examined s := by
    rw [tryColumn]
    split
    case _ ret four heq =>
      split
      · exact List.Subset.refl _
      · exact (evaluate_tidy hchild id steps i).examined { s with four }

theorem scan_four (hchild : Tidy child) (id : Player) (steps : ℕ) (is : List ℕ) {s : Search}
    (hs : s.four.Consistent) : (scan child id steps is s).2.four = s.four := by
  induction is generalizing s with
  | nil => rfl
  | cons i is ih =>
      have htry := (tryColumn_tidy hchild id steps i).four s hs
      rw [scan]
      split
      case _ pos s' heq =>
        rw [heq] at htry
        split
        · exact htry
        · exact (ih (htry ▸ hs)).trans htry

theorem scan_examined (hchild : Tidy child) (id : Player) (steps : ℕ) (is : List ℕ)
    (s : Search) : s.examined ⊆ (scan child id steps is s).2.examined := by
  induction is generalizing s with
  | nil => exact List.Subset.refl _
  | cons i is ih =>
      have htry := (tryColumn_tidy hchild id steps i).examined s
      rw [scan]
      split
      case _ pos s' heq =>
        rw [heq] at htry
        split
        · exact htry
        · exact List.Subset.trans htry (ih s')

/-- The search leaves the board as it was. -/
theorem maxScore_tidy (steps : ℕ) (id : Player) : Tidy (maxScore steps id) := by
  induction steps generalizing id with
  | zero => exact ⟨fun s _ => rfl, fun s => List.Subset.refl _⟩
  | succ steps ih =>
      constructor
      · intro s hs
        rw [maxScore, choose_four]
        exact scan_four (ih id.opId) id (steps + 1) (List.range fourCol) hs
      · intro s
        rw [maxScore, choose_examined]
        exact scan_examined (ih id.opId) id (steps + 1) (List.range fourCol)
          { s with stack := fun n => s.stack (n + 1) }

end Tidy

/-! ## Exactness of a column -/

/-- The table is right as well after a key was looked up. -/
theorem TableOk.getHash {mover : ℕ → Player} {s : Search} (h : TableOk mover s) (steps : ℕ) :
    TableOk mover (getHash s steps).2 := by
  intro i hi
  obtain ⟨k, hk, hidx, hmeans⟩ := h i hi
  exact ⟨k, List.mem_cons_of_mem _ hk, hidx, hmeans⟩

/-- The table is right as well after a right value was put under a key that was looked up. -/
theorem TableOk.setHash {mover : ℕ → Player} {s : Search} (h : TableOk mover s) {steps : ℕ}
    {v : Int} (hkey : s.key steps ∈ s.examined) (hmeans : KeyMeans mover (s.key steps) v) :
    TableOk mover (setHash s steps v) := by
  intro i hi
  by_cases heq : i = getHashIdx (s.key steps)
  · have hround : (Int8.ofInt v).toInt = v := by
      have hrange := hmeans.1
      simp only [InRange, win] at hrange
      exact Int8.toInt_ofInt_of_le (by omega) (by omega)
    refine ⟨s.key steps, hkey, heq.symm, ?_⟩
    simpa only [ConnectFour.setHash, heq, Function.update_self, hround] using hmeans
  · simp only [ConnectFour.setHash, Function.update_of_ne heq] at hi ⊢
    exact h i hi

/-- The lookup of a win answers 0 or 1. -/
theorem fourIsFinish_eq (four : Four) (id : Player) (lastCol : ℕ) :
    fourIsFinish four id lastCol = 0 ∨ fourIsFinish four id lastCol = 1 := by
  rw [fourIsFinish]
  split
  · exact .inl rfl
  · split_ifs
    all_goals simp

section Column

variable {child : Search → Position × Search} {mover : ℕ → Player} {b : Board} {id : Player}
  {i : ℕ} {ho : b.Open i} {n : ℕ}

/-- The value of a disc, from the lookup of a win and the search below. -/
theorem compute_exact (hno : b.NoFour)
    (hchild : n ≠ 0 → (b.push id i ho).NoFour → Exact mover (b.push id i ho)
      (fourGame.Scores win n (b.push id i ho, id.opId)) child) :
    Exact mover (b.push id i ho) (fourGame.Entry win n (b.push id i ho, id.opId))
      (compute child id (n + 1) i) := by
  intro s hs htable hcol
  have hfin := hs.isFinish_push (hno id)
  have hwon : fourGame.won (b.push id i ho, id.opId) ↔
      FourInLine ((b.push id i ho).cells id) := by
    simp [fourGame]
  by_cases hf : fourIsFinish s.four id i ≠ 0
  · simp only [compute, if_pos hf]
    refine ⟨htable, ?_, Game.entry_of_won (by decide) (hwon.mpr (hfin.mp ?_))⟩
    swap
    · exact (fourIsFinish_eq s.four id i).resolve_left hf
    simp [InRange]
  · have hnot : ¬ FourInLine ((b.push id i ho).cells id) := by
      rw [← hfin]
      omega
    rw [← hwon] at hnot
    by_cases hn : n + 1 = 1
    · obtain rfl : n = 0 := by omega
      have hand : s.rand 0 &&& (0x40 - 1) ≤ 0x40 - 1 := Nat.and_le_right
      simp only [compute, if_neg hf, if_true, Search.draw]
      refine ⟨htable, ?_, (Game.scores_zero.mpr ?_).entry hnot⟩
      · simp only [InRange, full, win, normalMim]
        omega
      · simp only [win, normalMim]
        omega
    · simp only [compute, if_neg hf, if_neg hn] at hcol ⊢
      obtain ⟨htable', hrange, hscore⟩ := hchild (by omega) (hno.push (by rwa [← hwon])) s hs
        htable hcol
      exact ⟨htable', hrange, hscore.entry hnot⟩

/-- The value of a disc, from the table or put there. -/
theorem evaluate_exact (hmover : mover (n + 1) = id) (htidy : Tidy child)
    (hcomp : Exact mover (b.push id i ho) (fourGame.Entry win n (b.push id i ho, id.opId))
      (compute child id (n + 1) i)) :
    Exact mover (b.push id i ho) (fourGame.Entry win n (b.push id i ho, id.opId))
      (evaluate child id (n + 1) i) := by
  intro s hs htable hcol
  by_cases hdeep : n + 1 ≤ minHashDeep
  · have heq : evaluate child id (n + 1) i s = compute child id (n + 1) i s := by
      rw [evaluate, if_pos hdeep]
    rw [heq] at hcol ⊢
    exact hcomp s hs htable hcol
  · by_cases hhit : (getHash s (n + 1)).1 ≠ 0
    · rw [evaluate_hit hdeep hhit] at hcol ⊢
      obtain ⟨k, hk, hidx, hmeans⟩ := htable (getHashIdx (s.key (n + 1))) hhit
      -- what was found was stored for this key
      obtain rfl : k = s.key (n + 1) :=
        hcol k (List.mem_cons_of_mem _ hk) _ List.mem_cons_self hidx
      refine ⟨htable.getHash (n + 1), hmeans.1, ?_⟩
      have hentry := hmeans.2 (b.push id i ho) hs.h
      simpa only [getHash, Search.key, Nat.add_sub_cancel, hmover] using hentry
    · rw [evaluate_miss hdeep hhit] at hcol ⊢
      obtain ⟨htable', hrange, hentry⟩ := hcomp (getHash s (n + 1)).2 hs
        (htable.getHash (n + 1)) hcol
      have hfour := (compute_tidy htidy id (n + 1) i).four (getHash s (n + 1)).2 ⟨_, hs⟩
      have hkey : (compute child id (n + 1) i (getHash s (n + 1)).2).2.key (n + 1) =
          s.key (n + 1) := by
        rw [Search.key, hfour]
        rfl
      refine ⟨htable'.setHash ?_ ⟨hrange, ?_⟩, hrange, hentry⟩
      · rw [hkey]
        exact (compute_tidy htidy id (n + 1) i).examined _ List.mem_cons_self
      · intro b' hb'
        rw [hkey] at hb' ⊢
        obtain rfl := board_of_rows hs.h hb'
        simpa only [Search.key, Nat.add_sub_cancel, hmover] using hentry

/-- A round of the loop at a column that takes a disc. -/
theorem tryColumn_exact (hmover : mover (n + 1) = id) (htidy : Tidy child) (hno : b.NoFour)
    (hchild : n ≠ 0 → (b.push id i ho).NoFour → Exact mover (b.push id i ho)
      (fourGame.Scores win n (b.push id i ho, id.opId)) child) :
    Exact mover b (fourGame.Entry win n (b.push id i ho, id.opId))
      (tryColumn child id (n + 1) i) := by
  intro s hs htable hcol
  rw [tryColumn_open hs ho] at hcol ⊢
  exact evaluate_exact hmover htidy (compute_exact hno hchild) (s.drop id i) (hs.add id ho).2
    htable hcol

end Column

/-! ## Exactness of the search -/

theorem scan_length (child : Search → Position × Search) (id : Player) (steps : ℕ) (is : List ℕ)
    (s : Search) : (scan child id steps is s).1.length = is.length := by
  induction is generalizing s with
  | nil => rfl
  | cons i is ih =>
      rw [scan]
      split
      case _ pos s' heq =>
        split
        · simp
        · simp [ih]

theorem tried_blank (is : List ℕ) : tried (is.map blank) = [] := by
  simp [tried, blank]

/-- What the values of the columns are about: the boards after a disc, right values for
them, and all of the boards if none of the values is a win. -/
structure Columns (b : Board) (id : Player) (n : ℕ) (is : List ℕ) (vs : List Int)
    (entries : List ((Board × Player) × Int)) : Prop where
  values : entries.map Prod.snd = vs
  range : ∀ v ∈ vs, InRange v
  sound : ∀ e ∈ entries, fourGame.next (b, id) e.1 ∧ fourGame.Entry win n e.1 e.2
  complete : (∃ e ∈ entries, e.2 = win) ∨
    ∀ i ∈ is, ∀ ho : b.Open i, ∃ e ∈ entries, e.1 = (b.push id i ho, id.opId)

section Scan

variable {child : Search → Position × Search} {mover : ℕ → Player} {b : Board} {id : Player}
  {n : ℕ}

namespace Columns

variable {is : List ℕ} {vs : List Int} {entries : List ((Board × Player) × Int)} {i : ℕ} {v : Int}

/-- A column that wins, behind which no other one is tried. -/
theorem single (ho : b.Open i) (hrange : InRange v)
    (hentry : fourGame.Entry win n (b.push id i ho, id.opId) v) (hv : v = win) :
    Columns b id n (i :: is) [v] [((b.push id i ho, id.opId), v)] := by
  refine ⟨rfl, ?_, ?_, .inl ?_⟩
  · simpa using hrange
  · simpa using ⟨⟨i, ho, rfl⟩, hentry⟩
  · simpa using hv

/-- A column in front of the others. -/
theorem cons (h : Columns b id n is vs entries) (ho : b.Open i) (hrange : InRange v)
    (hentry : fourGame.Entry win n (b.push id i ho, id.opId) v) :
    Columns b id n (i :: is) (v :: vs) (((b.push id i ho, id.opId), v) :: entries) where
  values := by rw [List.map_cons, h.values]
  range := List.forall_mem_cons.mpr ⟨hrange, h.range⟩
  sound := List.forall_mem_cons.mpr ⟨⟨⟨i, ho, rfl⟩, hentry⟩, h.sound⟩
  complete := by
    rcases h.complete with ⟨e, he, hw⟩ | hall
    · exact .inl ⟨e, List.mem_cons_of_mem _ he, hw⟩
    · refine .inr (List.forall_mem_cons.mpr ⟨?_, ?_⟩)
      · exact fun _ => ⟨_, List.mem_cons_self, rfl⟩
      · intro j hj hoj
        obtain ⟨e, he, heq⟩ := hall j hj hoj
        exact ⟨e, List.mem_cons_of_mem _ he, heq⟩

/-- A column that takes no disc says nothing. -/
theorem cons_not_open (h : Columns b id n is vs entries) (ho : ¬ b.Open i) :
    Columns b id n (i :: is) vs entries where
  values := h.values
  range := h.range
  sound := h.sound
  complete := by
    refine h.complete.imp_right fun hall => List.forall_mem_cons.mpr ⟨?_, hall⟩
    exact fun ho' => absurd ho' ho

end Columns

/-- The loop over the columns. -/
theorem scan_exact (hmover : mover (n + 1) = id) (htidy : Tidy child) (hno : b.NoFour)
    (hchild : ∀ i ho, n ≠ 0 → (b.push id i ho).NoFour → Exact mover (b.push id i ho)
      (fourGame.Scores win n (b.push id i ho, id.opId)) child)
    (is : List ℕ) {s : Search} (hs : s.four.Shows b) (htable : TableOk mover s)
    (hcol : NoCollision (scan child id (n + 1) is s).2.examined) :
    TableOk mover (scan child id (n + 1) is s).2 ∧
      ∃ entries, Columns b id n is (tried (scan child id (n + 1) is s).1) entries := by
  induction is generalizing s with
  | nil =>
      refine ⟨htable, [], rfl, ?_, ?_, .inr ?_⟩
      · simp [scan, tried]
      · simp
      · simp
  | cons i is ih =>
      have hfour := (tryColumn_tidy htidy id (n + 1) i).four s ⟨b, hs⟩
      by_cases ho : b.Open i
      · have htry := tryColumn_exact hmover htidy hno (hchild i ho) s hs htable
        revert hcol
        rw [scan]
        split
        case _ pos s' heq =>
          rw [heq] at htry hfour
          by_cases hv : pos.value = win
          · rw [if_pos hv]
            intro hcol
            obtain ⟨htable', hrange, hentry⟩ := htry hcol
            have hvs : tried (pos :: is.map blank) = [pos.value] := by
              have := tried_blank is
              simp_all [tried, InRange]
            refine ⟨htable', [((b.push id i ho, id.opId), pos.value)], ?_⟩
            rw [hvs]
            exact .single ho hrange hentry hv
          · rw [if_neg hv]
            intro hcol
            have hsub := scan_examined htidy id (n + 1) is s'
            obtain ⟨htable', hrange, hentry⟩ := htry (hcol.mono hsub)
            obtain ⟨htable'', entries, hent⟩ := ih (hfour ▸ hs) htable' hcol
            have hvs : tried (pos :: (scan child id (n + 1) is s').1) =
                pos.value :: tried (scan child id (n + 1) is s').1 := by
              simp [tried, hrange.1]
            refine ⟨htable'', ((b.push id i ho, id.opId), pos.value) :: entries, ?_⟩
            rw [hvs]
            exact hent.cons ho hrange hentry
      · have hstep : scan child id (n + 1) (i :: is) s =
            (blank i :: (scan child id (n + 1) is s).1, (scan child id (n + 1) is s).2) := by
          rw [scan, tryColumn_not_open hs ho]
          rfl
        rw [hstep] at hcol ⊢
        obtain ⟨htable', entries, hent⟩ := ih hs htable hcol
        have hvs : tried (blank i :: (scan child id (n + 1) is s).1) =
            tried (scan child id (n + 1) is s).1 := by
          simp [tried, blank]
        refine ⟨htable', entries, ?_⟩
        rw [hvs]
        exact hent.cons_not_open ho

/-- The number of a position from those of its columns. -/
theorem Columns.scores {vs : List Int} {entries : List ((Board × Player) × Int)} {v : Int}
    (h : Columns b id n (List.range fourCol) vs entries)
    (hv : (vs = [] ∧ v = -tied) ∨ ∃ m, IsBest vs m ∧ v = -m) :
    InRange v ∧ fourGame.Scores win (n + 1) (b, id) v := by
  have hall : (∃ e ∈ entries, e.2 = win) ∨
      ∀ t, fourGame.next (b, id) t → ∃ e ∈ entries, e.1 = t := by
    refine h.complete.imp_right fun hall => ?_
    intro t ⟨i, ho, ht⟩
    rw [ht]
    exact hall i (List.mem_range.mpr ho.1) ho
  have hrange : ∀ e ∈ entries, InRange e.2 := by
    intro e he
    apply h.range
    rw [← h.values]
    exact List.mem_map_of_mem he
  constructor
  · rcases hv with ⟨-, rfl⟩ | ⟨m, hbest, rfl⟩
    · simp [InRange]
    · have hm := h.range m hbest.1
      simp only [InRange, full, win] at hm ⊢
      omega
  · refine .of_best (by decide) entries h.sound hall (fun e he => (hrange e he).2) ?_
    rw [h.values]
    refine hv.imp_left fun hnil => ⟨?_, by rw [hnil.2]; decide⟩
    rw [← List.map_eq_nil_iff, h.values]
    exact hnil.1

/-- The rest of the state does not matter for the table. -/
theorem TableOk.of_eq {s t : Search} (h : TableOk mover s) (hh : t.h = s.h)
    (hex : t.examined = s.examined) : TableOk mover t := by
  rw [TableOk, hh, hex]
  exact h

/-- One ply of the search. -/
theorem maxScore_succ_exact (hmover : mover (n + 1) = id) (hno : b.NoFour)
    (hchild : ∀ i ho, n ≠ 0 → (b.push id i ho).NoFour → Exact mover (b.push id i ho)
      (fourGame.Scores win n (b.push id i ho, id.opId)) (maxScore n id.opId)) :
    Exact mover b (fourGame.Scores win (n + 1) (b, id)) (maxScore (n + 1) id) := by
  intro s hs htable hcol
  rw [maxScore] at hcol ⊢
  let s' : Search := { s with stack := fun k => s.stack (k + 1) }
  obtain ⟨htable', entries, hent⟩ := scan_exact hmover (maxScore_tidy n id.opId) hno hchild
    (List.range fourCol) (s := s') hs htable hcol
  have hlen := scan_length (maxScore n id.opId) id (n + 1) (List.range fourCol) s'
  rw [List.length_range] at hlen
  exact ⟨htable'.of_eq (choose_h _ _) (choose_examined _ _),
    hent.scores (choose_value hlen.le)⟩

end Scan

/-- The search is exact as long as the table is right. -/
theorem maxScore_exact {mover : ℕ → Player} (hmover : ∀ n, mover n = (mover (n + 1)).opId)
    (n : ℕ) {b : Board} (hno : b.NoFour) :
    Exact mover b (fourGame.Scores win (n + 1) (b, mover (n + 1)))
      (maxScore (n + 1) (mover (n + 1))) := by
  induction n generalizing b with
  | zero => exact maxScore_succ_exact rfl hno fun _ _ hn => absurd rfl hn
  | succ n ih =>
      apply maxScore_succ_exact rfl hno
      intro i ho _ hno'
      rw [← hmover (n + 1)]
      exact ih hno'

/-- Who is to move at which depth, if the player is to move at the depth `steps`. -/
def moverFrom (steps : ℕ) (id : Player) (n : ℕ) : Player :=
  if n % 2 = steps % 2 then id else id.opId

theorem moverFrom_self (steps : ℕ) (id : Player) : moverFrom steps id steps = id := if_pos rfl

theorem moverFrom_succ (steps : ℕ) (id : Player) (n : ℕ) :
    moverFrom steps id n = (moverFrom steps id (n + 1)).opId := by
  by_cases h : n % 2 = steps % 2
  · rw [moverFrom, if_pos h, moverFrom, if_neg (by omega), Player.opId_opId]
  · rw [moverFrom, if_neg h, moverFrom, if_pos (by omega)]

/-- A search that starts with an empty table. -/
def Search.start (four : Four) (rand : ℕ → ℕ) (stack : ℕ → Position) : Search :=
  ⟨four, fun _ => 0, rand, stack, []⟩

theorem start_tableOk (mover : ℕ → Player) (four : Four) (rand : ℕ → ℕ) (stack : ℕ → Position) :
    TableOk mover (.start four rand stack) := by
  intro i hi
  simp [Search.start] at hi

/-- **The search is exact up to collisions of the hash.** On a board without four in line,
at any depth and whatever `rand` returns, either two different keys that were looked up have
the same index, or the search says `-WIN` exactly if the player to move can force four in
line within the depth and `WIN` exactly if he has a move and the other player can force
four in line after each of them; and it leaves the bitboards as they were. -/
theorem search_exact {four : Four} {b : Board} (hb : four.Shows b) (hno : b.NoFour)
    (id : Player) {steps : ℕ} (hsteps : 1 ≤ steps) (rand : ℕ → ℕ) (stack : ℕ → Position) :
    let res := maxScore steps id (.start four rand stack)
    (∃ k ∈ res.2.examined, ∃ k' ∈ res.2.examined, k ≠ k' ∧ getHashIdx k = getHashIdx k') ∨
      (res.1.value = -win ↔ fourGame.Forces steps (b, id)) ∧
      (res.1.value = win ↔ (∃ t, fourGame.next (b, id) t) ∧
        ∀ t, fourGame.next (b, id) t → ¬ fourGame.won t ∧ fourGame.Forces (steps - 1) t) ∧
      res.2.four = four := by
  intro res
  by_cases hcol : NoCollision res.2.examined
  · right
    obtain ⟨n, rfl⟩ : ∃ n, steps = n + 1 := ⟨steps - 1, by omega⟩
    have hexact := maxScore_exact (moverFrom_succ (n + 1) id) n hno
    rw [moverFrom_self] at hexact
    obtain ⟨-, -, hforces, hloses⟩ := hexact _ hb (start_tableOk _ four rand stack) hcol
    refine ⟨hforces, ?_, (maxScore_tidy (n + 1) id).four _ ⟨b, hb⟩⟩
    rw [hloses, Game.Loses]
    rfl
  · left
    simp only [NoCollision] at hcol
    push Not at hcol
    obtain ⟨k, hk, k', hk', hidx, hne⟩ := hcol
    exact ⟨k, hk, k', hk', hne, hidx⟩

/-- Two plies from the empty board. -/
theorem search_exact_empty :
    let res := maxScore 2 .p1 (.start fourReset (fun n => 5 * n) fun _ => ⟨0, 0, 0⟩)
    (∃ k ∈ res.2.examined, ∃ k' ∈ res.2.examined, k ≠ k' ∧ getHashIdx k = getHashIdx k') ∨
      (res.1.value = -win ↔ fourGame.Forces 2 (.empty, .p1)) ∧
      (res.1.value = win ↔ (∃ t, fourGame.next (.empty, .p1) t) ∧
        ∀ t, fourGame.next (.empty, .p1) t → ¬ fourGame.won t ∧ fourGame.Forces (2 - 1) t) ∧
      res.2.four = fourReset := by
  exact search_exact fourReset_shows noFour_empty .p1 (by decide) _ _

end CCode.ConnectFour
