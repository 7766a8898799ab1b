import CCode.FourInARow.Search

/-!
# What the first search says

One ply of the search, for anything that the ply below keeps of the slots and says in its own
(`maxScore_ply`); what follows for the whole search is an induction on the depth each time. The
slots are on the scale from `-VALUE_INF` to `VALUE_INF`, because `cal_col` starts with zeros and
every search keeps them there.

* A player who forces four in line within the depth gets the end of the scale
  (`maxScore_exact`), and as long as the board does not fill up within the depth nobody else
  does, and the slots are not looked at (`maxScore_blind`).
* If the board may fill up, all boards that are full are met at one depth, whose slot nothing
  assigns. What it holds is the value of these boards, and shows through to the top
  (`maxScore_leak`).

## Main definitions

* `DataShows` — the board of the match.
* `Child`, `Ply` — what a part of a search and a ply leave.
* `OnScale`, `Says` — the slots and the value of a search.
* `Blind` — a part of a search does not look at the slots.
* `ValueOk` — what is asked of a search.
-/

namespace CCode.FourInARow

open CCode.Lib CCode.ConnectFour

/-- The board of the match, of its usual size. -/
structure DataShows (data : Data) (b : Board) : Prop where
  columns : data.fieldColumns = fourCol
  rows : data.fieldRows = fourRow
  fields : data.fields.Shows b

/-! ## One column -/

section Column

variable {data : Data} {b : Board} {id : Player} {i : ℕ}

/-- A column is full exactly if it takes no disc. -/
theorem isColFull_iff (h : DataShows data b) (hi : i < fourCol) :
    isColFull data i = true ↔ ¬ b.Open i := by
  rw [isColFull, h.fields.nextPosMap_column, decide_eq_true_eq, Board.Open, fieldRow]
  simp only [fourRow, hi, true_and]
  omega

/-- A disc falls on a column that takes it. -/
theorem addField_shows (h : DataShows data b) (id : Player) (ho : b.Open i) :
    DataShows (addField data id i).2 (b.push id i ho) := by
  have hadd := (h.fields.add id ho).2
  rw [fourAdd] at hadd
  refine ⟨h.columns, h.rows, ?_⟩
  rw [addField, h.columns, h.rows]
  exact hadd

/-- Taking back what was added restores the board. -/
theorem removeField_add (h : DataShows data b) (id : Player) (ho : b.Open i) :
    removeField (addField data id i).2 id i = data := by
  obtain ⟨columns, rows, fields⟩ := data
  obtain rfl : columns = fourCol := h.columns
  obtain rfl : rows = fourRow := h.rows
  exact congrArg (Data.mk fourCol fourRow) (h.fields.remove_add id ho)

/-- The win detection, on a board without four in line. -/
theorem isFinish_ne_zero_iff (h : DataShows data b) (hno : b.NoFour) (ho : b.Open i) :
    isFinish (addField data id i).2 id i ≠ 0 ↔ FourInLine ((b.push id i ho).cells id) := by
  rw [← (addField_shows h id ho).fields.isFinish_push (hno id), isFinish]
  have hcases := fourIsFinish_eq (addField data id i).2.fields id i
  omega

end Column

/-- A part of a search on a board keeps what it finds of the board and of the values, and gives
a right value in its slot. -/
def Child (Inv : (ℕ → Int) → Prop) (Right : Int → Prop) (b : Board) (steps : ℕ)
    (f : Search → Int × Search) : Prop :=
  ∀ s, DataShows s.data b → Inv s.value →
    (f s).2.data = s.data ∧ Inv (f s).2.value ∧ 0 ≤ (f s).1 ∧ Right ((f s).2.value steps)

section Ply

variable {child : Search → Int × Search} {Inv : (ℕ → Int) → Prop} {Right : Board → Int → Prop}
  {b : Board} {id : Player} {i n : ℕ} {s : Search}

theorem tryCol_full (hs : DataShows s.data b) (hi : i < fourCol) (ho : ¬ b.Open i) (steps : ℕ) :
    tryCol child id steps i s = (some ⟨i, -valueInf, -1⟩, s) := by
  rw [tryCol, if_pos ((isColFull_iff hs hi).mpr ho)]

theorem tryCol_win (hs : DataShows s.data b) (hno : b.NoFour) (ho : b.Open i)
    (hwin : FourInLine ((b.push id i ho).cells id)) (steps : ℕ) :
    tryCol child id steps i s = (none, s.assign steps (-valueInf) i) := by
  have hopen : ¬ isColFull s.data i = true := fun h => (isColFull_iff hs ho.1).mp h ho
  have hfin := (isFinish_ne_zero_iff hs hno ho).mpr hwin
  simp only [tryCol, if_neg hopen, if_pos hfin, Search.assign, removeField_add hs id ho]

/-- A disc that completes no line. -/
theorem tryCol_quiet (Inv : (ℕ → Int) → Prop) (Right : Board → Int → Prop)
    (hs : DataShows s.data b) (hno : b.NoFour) (ho : b.Open i)
    (hquiet : ¬ FourInLine ((b.push id i ho).cells id)) (hinv : Inv s.value)
    (hleaf : n = 0 → ∀ r ≤ 0xFFFF, Right (b.push id i ho) (r : ℕ))
    (hchild : n ≠ 0 → Child Inv (Right (b.push id i ho)) (b.push id i ho) n child) :
    ∃ v state, (tryCol child id (n + 1) i s).1 = some ⟨i, v, state⟩ ∧ 0 ≤ state ∧
      Right (b.push id i ho) v ∧ (tryCol child id (n + 1) i s).2.data = s.data ∧
      Inv (tryCol child id (n + 1) i s).2.value := by
  have hopen : ¬ isColFull s.data i = true := fun h => (isColFull_iff hs ho.1).mp h ho
  have hfin : ¬ isFinish (addField s.data id i).2 id i ≠ 0 :=
    fun h => hquiet ((isFinish_ne_zero_iff hs hno ho).mp h)
  by_cases hn : n + 1 = 1
  · simp only [tryCol, if_neg hopen, if_neg hfin, if_pos hn, judgement]
    exact ⟨_, _, rfl, le_rfl, hleaf (by omega) _ Nat.and_le_right, removeField_add hs id ho, hinv⟩
  · obtain ⟨hdata, hinv', hstate, hright⟩ := hchild (by omega)
      { s with data := (addField s.data id i).2 } (addField_shows hs id ho) hinv
    simp only [tryCol, if_neg hopen, if_neg hfin, if_neg hn]
    refine ⟨_, _, rfl, hstate, hright, ?_, hinv'⟩
    rw [hdata]
    exact removeField_add hs id ho

/-- The columns that the loop went over: one that was not full has a right value, and every
column that takes a disc is among them. -/
structure Cols (Right : Board → Int → Prop) (b : Board) (id : Player) (is : List ℕ)
    (ps : List Pos) : Prop where
  length : ps.length = is.length
  sound : ∀ p ∈ ps, 0 ≤ p.state → ∃ i, ∃ ho : b.Open i, Right (b.push id i ho) p.value
  complete : ∀ i ∈ is, ∀ ho : b.Open i, ∃ p ∈ ps, 0 ≤ p.state ∧ Right (b.push id i ho) p.value

/-- What the loop over some columns leaves. -/
def Scanned (Inv : (ℕ → Int) → Prop) (Right : Board → Int → Prop) (b : Board) (id : Player)
    (steps : ℕ) (is : List ℕ) (s : Search) : Option (List Pos) × Search → Prop
  | (none, t) => t.data = s.data ∧ (∃ i, ∃ ho : b.Open i, FourInLine ((b.push id i ho).cells id)) ∧
      ∃ w, Inv w ∧ t.value = Function.update w steps (-valueInf)
  | (some ps, t) => t.data = s.data ∧ Inv t.value ∧ Cols Right b id is ps ∧
      ∀ i ∈ is, ∀ ho : b.Open i, ¬ FourInLine ((b.push id i ho).cells id)

/-- One more column in front that is full, or whose disc completes no line. -/
theorem Cols.cons {is : List ℕ} {ps : List Pos} (h : Cols Right b id is ps) {pos : Pos}
    (hpos : ∀ ho : b.Open i, 0 ≤ pos.state ∧ Right (b.push id i ho) pos.value)
    (hfull : ¬ b.Open i → pos.state < 0) : Cols Right b id (i :: is) (pos :: ps) where
  length := by rw [List.length_cons, List.length_cons, h.length]
  sound p hp hstate := by
    rcases List.mem_cons.mp hp with rfl | hp
    · by_cases ho : b.Open i
      · exact ⟨i, ho, (hpos ho).2⟩
      · have := hfull ho
        omega
    · exact h.sound p hp hstate
  complete j hj ho := by
    rcases List.mem_cons.mp hj with rfl | hj
    · exact ⟨pos, List.mem_cons_self, hpos ho⟩
    · obtain ⟨p, hp, hright⟩ := h.complete j hj ho
      exact ⟨p, List.mem_cons_of_mem _ hp, hright⟩

/-- One round of the loop in front of the others. -/
theorem Scanned.cons {is : List ℕ} {t : Search} (hdata : t.data = s.data) {pos : Pos}
    (hquiet : ∀ ho : b.Open i, ¬ FourInLine ((b.push id i ho).cells id))
    (hpos : ∀ ho : b.Open i, 0 ≤ pos.state ∧ Right (b.push id i ho) pos.value)
    (hfull : ¬ b.Open i → pos.state < 0) {steps : ℕ}
    (h : Scanned Inv Right b id steps is t (scan child id steps is t)) :
    Scanned Inv Right b id steps (i :: is) s
      (match scan child id steps is t with
      | (none, u) => (none, u)
      | (some ps, u) => (some (pos :: ps), u)) := by
  match scan child id steps is t, h with
  | (none, u), ⟨hu, hwin, hvalue⟩ => exact ⟨hu.trans hdata, hwin, hvalue⟩
  | (some ps, u), ⟨hu, hinv, hcols, hno⟩ =>
      exact ⟨hu.trans hdata, hinv, hcols.cons hpos hfull, List.forall_mem_cons.mpr ⟨hquiet, hno⟩⟩

/-- The loop over the columns. -/
theorem scan_spec (Inv : (ℕ → Int) → Prop) (Right : Board → Int → Prop) (hno : b.NoFour)
    (hleaf : ∀ i ho, n = 0 → ∀ r ≤ 0xFFFF, Right (b.push id i ho) (r : ℕ))
    (hchild : ∀ i ho, (b.push id i ho).NoFour → n ≠ 0 →
      Child Inv (Right (b.push id i ho)) (b.push id i ho) n child)
    {is : List ℕ} (his : ∀ i ∈ is, i < fourCol) (hs : DataShows s.data b) (hinv : Inv s.value) :
    Scanned Inv Right b id (n + 1) is s (scan child id (n + 1) is s) := by
  induction is generalizing s with
  | nil => exact ⟨rfl, hinv, ⟨rfl, by simp, by simp⟩, by simp⟩
  | cons i is ih =>
      obtain ⟨hi, his⟩ := List.forall_mem_cons.mp his
      rw [scan]
      by_cases ho : b.Open i
      · by_cases hwin : FourInLine ((b.push id i ho).cells id)
        · rw [tryCol_win hs hno ho hwin]
          exact ⟨rfl, ⟨i, ho, hwin⟩, s.value, hinv, rfl⟩
        · obtain ⟨v, state, hpos, hstate, hright, hdata, hinv'⟩ :=
            tryCol_quiet Inv Right hs hno ho hwin hinv
            (hleaf i ho) (hchild i ho (hno.push hwin))
          rcases htry : tryCol child id (n + 1) i s with ⟨pos, t⟩
          rw [htry] at hpos hdata hinv'
          subst hpos
          exact .cons hdata (fun _ => hwin) (fun _ => ⟨hstate, hright⟩) (fun h => absurd ho h)
            (ih his (hdata ▸ hs) hinv')
      · rw [tryCol_full hs hi ho]
        exact .cons rfl (fun h => absurd h ho) (fun h => absurd h ho) (fun _ => neg_one_lt_zero)
          (ih his hs hinv)

/-- What a ply leaves: a win if a disc completes a line; else, for the other player, a largest
one of right values for the columns that take a disc; and the slot as it was if there is no
such column. -/
def Ply (Inv : (ℕ → Int) → Prop) (Right : Board → Int → Prop) (b : Board) (id : Player)
    (steps : ℕ) (value : ℕ → Int) : Prop :=
  ∃ w, Inv w ∧
    ((∃ i, ∃ ho : b.Open i, FourInLine ((b.push id i ho).cells id)) ∧
        value = Function.update w steps (-valueInf) ∨
      (∀ i, ∀ ho : b.Open i, ¬ FourInLine ((b.push id i ho).cells id)) ∧
        ((¬ ∃ i, b.Open i) ∧ value = w ∨
          ∃ v, (∃ i, ∃ ho : b.Open i, Right (b.push id i ho) v) ∧
            (∀ i, ∀ ho : b.Open i, ∃ v' ≤ v, Right (b.push id i ho) v') ∧
            value = Function.update w steps (-v)))

theorem choose_spec (steps : ℕ) {ps : List Pos} {t : Search} (ht : t.data.fieldColumns = fourCol)
    (hinv : Inv t.value) (hcols : Cols Right b id (List.range fourCol) ps)
    (hno : ∀ i, ∀ ho : b.Open i, ¬ FourInLine ((b.push id i ho).cells id)) :
    (choose steps ps t).data = t.data ∧ Ply Inv Right b id steps (choose steps ps t).value := by
  have hlen : ps.length ≤ t.data.fieldColumns - 1 + 1 := by
    rw [hcols.length, List.length_range, ht]
    decide
  rw [choose]
  dsimp only
  split
  case h_1 pos hfind =>
    obtain ⟨hstate, hpos, hbest⟩ := bubbleSort_find hlen t.rand hfind
    obtain ⟨i, ho, hright⟩ := hcols.sound pos hpos (by simpa using hstate)
    refine ⟨rfl, t.value, hinv, .inr ⟨hno, .inr ⟨pos.value, ⟨i, ho, hright⟩, ?_, rfl⟩⟩⟩
    intro j ho'
    obtain ⟨p, hp, hpstate, hpright⟩ := hcols.complete j (List.mem_range.mpr ho'.1) ho'
    exact ⟨p.value, hbest p hp (by simpa using hpstate), hpright⟩
  case h_2 hfind =>
    refine ⟨rfl, t.value, hinv, .inr ⟨hno, .inl ⟨?_, rfl⟩⟩⟩
    intro ⟨i, ho⟩
    obtain ⟨p, hp, hstate, -⟩ := hcols.complete i (List.mem_range.mpr ho.1) ho
    exact bubbleSort_find_none hfind p hp (by simpa using hstate)

/-- **One ply of the search**, from what holds of the ply below. -/
theorem maxScore_ply (Right : Board → Int → Prop) (hno : b.NoFour)
    (hleaf : ∀ i ho, n = 0 → ∀ r ≤ 0xFFFF, Right (b.push id i ho) (r : ℕ))
    (hchild : ∀ i ho, (b.push id i ho).NoFour → n ≠ 0 →
      Child Inv (Right (b.push id i ho)) (b.push id i ho) n (maxScore n id.opId))
    (hs : DataShows s.data b) (hinv : Inv s.value) :
    (maxScore (n + 1) id s).2.data = s.data ∧ 0 ≤ (maxScore (n + 1) id s).1 ∧
      Ply Inv Right b id (n + 1) (maxScore (n + 1) id s).2.value := by
  have hcols : ∀ i ∈ List.range s.data.fieldColumns, i < fourCol := by simp [hs.columns]
  have hscan := scan_spec Inv Right hno hleaf hchild hcols hs hinv
  rw [maxScore]
  match scan (maxScore n id.opId) id (n + 1) (List.range s.data.fieldColumns) s, hscan with
  | (none, t), ⟨hdata, hwin, w, hw, hvalue⟩ =>
      exact ⟨hdata, zero_le_one, w, hw, .inl ⟨hwin, hvalue⟩⟩
  | (some ps, t), ⟨hdata, hinv', hcols, hquiet⟩ =>
      rw [hs.columns] at hcols hquiet
      obtain ⟨hdata', hply⟩ := choose_spec (n + 1) (by rw [hdata, hs.columns]) hinv' hcols
        fun i ho => hquiet i (List.mem_range.mpr ho.1) ho
      exact ⟨hdata'.trans hdata, le_rfl, hply⟩

end Ply

/-! ## Forced lines -/

/-- All slots are on the scale. -/
def OnScale (w : ℕ → Int) : Prop := ∀ i, -valueInf ≤ w i ∧ w i ≤ valueInf

theorem onScale_const {v : Int} (h : -valueInf ≤ v ∧ v ≤ valueInf) : OnScale fun _ => v :=
  fun _ => h

/-- The value says who forces four in line, and nothing else at the ends of the scale as long
as the board does not fill up within the depth. -/
structure Says (n : ℕ) (t : Board × Player) (v : Int) : Prop where
  scale : -valueInf ≤ v ∧ v ≤ valueInf
  forces : fourGame.Forces n t → v = -valueInf
  loses : fourGame.Loses n t → v = valueInf
  exact : n ≤ t.1.empties → fourGame.Scores valueInf n t v

theorem says_leaf (t : Board × Player) {r : ℕ} (hr : r ≤ 0xFFFF) : Says 0 t r where
  scale := by
    simp only [valueInf]
    omega
  forces h := h.elim
  loses h := h.elim
  exact _ := Game.scores_zero.mpr (by simp only [valueInf]; omega)

section Says

variable {b : Board} {id : Player} {n : ℕ} {value : ℕ → Int}

/-- A move of the game. -/
theorem next_push (i : ℕ) (ho : b.Open i) : fourGame.next (b, id) (b.push id i ho, id.opId) :=
  ⟨i, ho, rfl⟩

theorem won_push (i : ℕ) (ho : b.Open i) :
    fourGame.won (b.push id i ho, id.opId) ↔ FourInLine ((b.push id i ho).cells id) := by
  simp [fourGame]

/-- Without a column that takes a disc nobody forces anything. -/
theorem not_forced_of_full (n : ℕ) (id : Player) (hfull : ¬ ∃ i, b.Open i) :
    ¬ fourGame.Forces (n + 1) (b, id) ∧ ¬ fourGame.Loses (n + 1) (b, id) := by
  constructor
  · intro ⟨_, ⟨i, ho, _⟩, _⟩
    exact hfull ⟨i, ho⟩
  · intro ⟨⟨_, i, ho, _⟩, _⟩
    exact hfull ⟨i, ho⟩

/-- A disc that completes a line. -/
theorem says_win (hwin : ∃ i, ∃ ho : b.Open i, FourInLine ((b.push id i ho).cells id)) :
    Says (n + 1) (b, id) (-valueInf) := by
  obtain ⟨i, ho, hline⟩ := hwin
  have hforces : fourGame.Forces (n + 1) (b, id) :=
    ⟨_, next_push i ho, .inl ((won_push i ho).mpr hline)⟩
  have hloses : ¬ fourGame.Loses (n + 1) (b, id) := by
    intro ⟨_, hall⟩
    exact (hall _ (next_push i ho)).1 ((won_push i ho).mpr hline)
  exact ⟨by decide, fun _ => rfl, fun h => absurd h hloses,
    fun _ => ⟨iff_of_true rfl hforces, iff_of_false (by decide) hloses⟩⟩

/-- A largest one of the values of the columns, where no disc completes a line. -/
theorem says_best (hquiet : ∀ i, ∀ ho : b.Open i, ¬ FourInLine ((b.push id i ho).cells id))
    {v : Int} (hv : ∃ i, ∃ ho : b.Open i, Says n (b.push id i ho, id.opId) v)
    (hbest : ∀ i, ∀ ho : b.Open i, ∃ v' ≤ v, Says n (b.push id i ho, id.opId) v') :
    Says (n + 1) (b, id) (-v) := by
  obtain ⟨i, ho, hbelow⟩ := hv
  have hscale := hbelow.scale
  refine ⟨by omega, ?_, ?_, ?_⟩
  · intro ⟨t, ⟨j, hj, ht⟩, hout⟩
    subst ht
    obtain ⟨v', hle, hbelow'⟩ := hbest j hj
    have hlost := hbelow'.loses (hout.resolve_left fun hw => hquiet j hj ((won_push j hj).mp hw))
    omega
  · intro ⟨_, hall⟩
    have hforced := hbelow.forces (hall _ (next_push i ho)).2
    omega
  · intro hn
    have hn' : ∀ j, ∀ hj : b.Open j, n ≤ (b.push id j hj).empties := by
      intro j hj
      have := Board.empties_push id hj
      simp only at hn
      omega
    constructor
    · constructor
      · intro heq
        refine ⟨_, next_push i ho, .inr (((hbelow.exact (hn' i ho)).2).mp (by omega))⟩
      · intro ⟨t, ⟨j, hj, ht⟩, hout⟩
        subst ht
        obtain ⟨v', hle, hbelow'⟩ := hbest j hj
        have hlost :=
          hbelow'.loses (hout.resolve_left fun hw => hquiet j hj ((won_push j hj).mp hw))
        omega
    · constructor
      · intro heq
        refine ⟨⟨_, next_push i ho⟩, ?_⟩
        intro t ⟨j, hj, ht⟩
        subst ht
        refine ⟨fun hw => hquiet j hj ((won_push j hj).mp hw), ?_⟩
        obtain ⟨v', hle, hbelow'⟩ := hbest j hj
        have hscale' := hbelow'.scale
        exact ((hbelow'.exact (hn' j hj)).1).mp (by omega)
      · intro ⟨_, hall⟩
        have hforced := hbelow.forces (hall _ (next_push i ho)).2
        omega

/-- What a ply leaves says who forces four in line. -/
theorem says_ply (h : Ply OnScale (fun b' => Says n (b', id.opId)) b id (n + 1) value) :
    OnScale value ∧ Says (n + 1) (b, id) (value (n + 1)) := by
  obtain ⟨w, hw, hply⟩ := h
  have hupdate : ∀ v, Says (n + 1) (b, id) v → value = Function.update w (n + 1) v →
      OnScale value ∧ Says (n + 1) (b, id) (value (n + 1)) := by
    intro v hbelow heq
    rw [heq, Function.update_self]
    refine ⟨?_, hbelow⟩
    intro j
    by_cases hj : j = n + 1
    · rw [hj, Function.update_self]
      exact hbelow.scale
    · rw [Function.update_of_ne hj]
      exact hw j
  rcases hply with ⟨hwin, heq⟩ | ⟨hquiet, ⟨hfull, rfl⟩ | ⟨v, hv, hbest, heq⟩⟩
  · exact hupdate _ (says_win hwin) heq
  · have hnot := not_forced_of_full n id hfull
    refine ⟨hw, hw (n + 1), fun h => absurd h hnot.1, fun h => absurd h hnot.2, ?_⟩
    intro hn
    exact absurd (Board.empties_pos_iff.mp (Nat.lt_of_lt_of_le n.succ_pos hn)) hfull
  · exact hupdate _ (says_best hquiet hv hbest) heq

end Says

/-- **The search says who forces four in line**, whatever the slots held. -/
theorem maxScore_exact (n : ℕ) {b : Board} (id : Player) (hno : b.NoFour) :
    Child OnScale (Says (n + 1) (b, id)) b (n + 1) (maxScore (n + 1) id) := by
  induction n generalizing b id with
  | zero =>
      intro s hs hinv
      obtain ⟨hdata, hret, hply⟩ := maxScore_ply (fun b' => Says 0 (b', id.opId)) hno
        (fun _ _ _ _ hr => says_leaf _ hr) (fun _ _ _ hn => absurd rfl hn) hs hinv
      obtain ⟨hscale, hbelow⟩ := says_ply hply
      exact ⟨hdata, hscale, hret, hbelow⟩
  | succ n ih =>
      intro s hs hinv
      obtain ⟨hdata, hret, hply⟩ := maxScore_ply (fun b' => Says (n + 1) (b', id.opId)) hno
        (fun _ _ hn => absurd hn n.succ_ne_zero) (fun _ _ hno' _ => ih id.opId hno') hs hinv
      obtain ⟨hscale, hbelow⟩ := says_ply hply
      exact ⟨hdata, hscale, hret, hbelow⟩

/-- In every search that `cal_col` makes the slots are on the scale, and the board is the one of
the call. -/
theorem iter_onScale {data : Data} {b : Board} (hb : DataShows data b) (hno : b.NoFour)
    (id : Player) (rand : ℕ → ℕ) (n : ℕ) :
    (Deepening.iter (stepScore id) n (depthStart data rand)).state.data = data ∧
      OnScale (Deepening.iter (stepScore id) n (depthStart data rand)).state.value := by
  refine Deepening.iter_rule (I := fun t : Search => t.data = data ∧ OnScale t.value)
    ⟨rfl, onScale_const (by decide)⟩ ?_ n
  intro step t ⟨hdata, hscale⟩
  cases step with
  | zero => exact ⟨hdata, hscale⟩
  | succ n =>
      obtain ⟨hdata', hscale', -⟩ := maxScore_exact n id hno { t with idx := clearIdx t.idx }
        (hdata.symm ▸ hb) hscale
      exact ⟨hdata'.trans hdata, hscale'⟩

/-! ## What is left of the slots -/

/-- The board is restored, whatever the slots hold. -/
theorem maxScore_kept (n : ℕ) {b : Board} (id : Player) (hno : b.NoFour) :
    Child (fun _ => True) (fun _ => True) b (n + 1) (maxScore (n + 1) id) := by
  have hply : ∀ {n : ℕ} {b : Board} {id : Player}, b.NoFour →
      (∀ i ho, (b.push id i ho).NoFour → n ≠ 0 →
        Child (fun _ => True) (fun _ => True) (b.push id i ho) n (maxScore n id.opId)) →
      Child (fun _ => True) (fun _ => True) b (n + 1) (maxScore (n + 1) id) := by
    intro n b id hno hchild s hs hinv
    obtain ⟨hdata, hret, -⟩ := maxScore_ply (fun _ _ => True) hno
      (fun _ _ _ _ _ => trivial) hchild hs hinv
    exact ⟨hdata, trivial, hret, trivial⟩
  induction n generalizing b id with
  | zero => exact hply hno fun _ _ _ hn => absurd rfl hn
  | succ n ih => exact hply hno fun _ _ hno' _ => ih id.opId hno'

/-- Two states have the same board and the same random numbers to come. -/
def Same (s s' : Search) : Prop := s'.data = s.data ∧ s'.rand = s.rand

/-- On a board, a part of a search neither looks at the slots nor leaves its own as it is. -/
def Blind (b : Board) (steps : ℕ) (f : Search → Int × Search) : Prop :=
  ∀ s s', DataShows s.data b → Same s s' →
    (f s').1 = (f s).1 ∧ Same (f s).2 (f s').2 ∧ (f s').2.value steps = (f s).2.value steps

/-- Two results agree: both are of the loop that goes on, or both ended it with one value. -/
def Agree {α : Type} (steps : ℕ) (x x' : Option α × Search) : Prop :=
  x'.1 = x.1 ∧ Same x.2 x'.2 ∧ (x.1 = none → x'.2.value steps = x.2.value steps)

/-- A column in front of both. -/
theorem Agree.cons {steps : ℕ} {x x' : Option (List Pos) × Search} (pos : Pos) :
    Agree steps x x' → Agree steps
      (match x with
      | (none, u) => (none, u)
      | (some ps, u) => (some (pos :: ps), u))
      (match x' with
      | (none, u) => (none, u)
      | (some ps, u) => (some (pos :: ps), u)) := by
  intro ⟨ho, hsame, hvalue⟩
  obtain ⟨o, t⟩ := x
  obtain ⟨o', t'⟩ := x'
  obtain rfl : o' = o := ho
  cases o' with
  | none => exact ⟨rfl, hsame, hvalue⟩
  | some ps => exact ⟨rfl, hsame, by simp⟩

section Blind

variable {child : Search → Int × Search} {b : Board} {id : Player} {i n : ℕ} {s s' : Search}

theorem tryCol_data (hno : b.NoFour)
    (hkept : ∀ ho : b.Open i, (b.push id i ho).NoFour → n ≠ 0 →
      Child (fun _ => True) (fun _ => True) (b.push id i ho) n child)
    (hi : i < fourCol) (hs : DataShows s.data b) :
    (tryCol child id (n + 1) i s).2.data = s.data := by
  by_cases ho : b.Open i
  · by_cases hwin : FourInLine ((b.push id i ho).cells id)
    · rw [tryCol_win hs hno ho hwin]
      rfl
    · obtain ⟨-, -, -, -, -, hdata, -⟩ := tryCol_quiet (fun _ => True)
        (fun _ _ => True) hs hno ho hwin trivial (fun _ _ _ => trivial)
        (hkept ho (hno.push hwin))
      exact hdata
  · rw [tryCol_full hs hi ho]

theorem tryCol_blind (hno : b.NoFour)
    (hchild : ∀ ho : b.Open i, (b.push id i ho).NoFour → n ≠ 0 → Blind (b.push id i ho) n child)
    (hi : i < fourCol) (hs : DataShows s.data b) (hsame : Same s s') :
    Agree (n + 1) (tryCol child id (n + 1) i s) (tryCol child id (n + 1) i s') := by
  obtain ⟨hdata, hrand⟩ := hsame
  by_cases hfull : isColFull s.data i = true
  · simp only [Agree, tryCol, hdata, if_pos hfull]
    exact ⟨trivial, ⟨hdata, hrand⟩, by simp⟩
  · have ho : b.Open i := by
      by_contra hno
      exact hfull ((isColFull_iff hs hi).mpr hno)
    by_cases hfin : isFinish (addField s.data id i).2 id i ≠ 0
    · simp only [Agree, tryCol, hdata, if_neg hfull, if_pos hfin, Search.assign]
      exact ⟨trivial, ⟨rfl, hrand⟩, fun _ => by simp⟩
    · by_cases hn : n + 1 = 1
      · simp only [Agree, tryCol, hdata, if_neg hfull, if_neg hfin, if_pos hn, judgement, hrand]
        exact ⟨trivial, ⟨rfl, rfl⟩, by simp⟩
      · have hpush : (b.push id i ho).NoFour :=
          hno.push fun hline => hfin ((isFinish_ne_zero_iff hs hno ho).mpr hline)
        obtain ⟨hret, ⟨hdata', hrand'⟩, hvalue⟩ := hchild ho hpush (by omega)
          { s with data := (addField s.data id i).2 } { s' with data := (addField s.data id i).2 }
          (addField_shows hs id ho) ⟨rfl, hrand⟩
        simp only [Agree, tryCol, hdata, if_neg hfull, if_neg hfin, if_neg hn, Nat.add_sub_cancel]
        exact ⟨by rw [hret, hvalue], ⟨by simp only [hdata'], hrand'⟩, by simp⟩

theorem scan_blind (hno : b.NoFour)
    (hchild : ∀ i ho, (b.push id i ho).NoFour → n ≠ 0 → Blind (b.push id i ho) n child)
    (hkept : ∀ i ho, (b.push id i ho).NoFour → n ≠ 0 →
      Child (fun _ => True) (fun _ => True) (b.push id i ho) n child)
    {is : List ℕ} (his : ∀ i ∈ is, i < fourCol) (hs : DataShows s.data b) (hsame : Same s s') :
    Agree (n + 1) (scan child id (n + 1) is s) (scan child id (n + 1) is s') := by
  induction is generalizing s s' with
  | nil => exact ⟨rfl, hsame, by simp [scan]⟩
  | cons i is ih =>
      obtain ⟨hi, his⟩ := List.forall_mem_cons.mp his
      have hdata := tryCol_data hno (hkept i) hi hs
      have htry := tryCol_blind hno (hchild i) hi hs hsame
      rw [scan, scan]
      generalize tryCol child id (n + 1) i s = x at htry hdata ⊢
      generalize tryCol child id (n + 1) i s' = x' at htry ⊢
      obtain ⟨o, t⟩ := x
      obtain ⟨o', t'⟩ := x'
      obtain ⟨ho, hsame', hvalue⟩ := htry
      obtain rfl : o' = o := ho
      cases o' with
      | none => exact ⟨rfl, hsame', fun _ => hvalue rfl⟩
      | some pos => exact .cons pos (ih his (hdata ▸ hs) hsame')

/-- The choice assigns its slot if a column takes a disc. -/
theorem choose_blind {ps : List Pos} {t t' : Search} (hsame : Same t t')
    (hcols : ∃ p ∈ ps, 0 ≤ p.state) (steps : ℕ) :
    Same (choose steps ps t) (choose steps ps t') ∧
      (choose steps ps t').value steps = (choose steps ps t).value steps := by
  obtain ⟨hdata, hrand⟩ := hsame
  rw [choose, choose, hdata, hrand]
  dsimp only
  split
  case h_1 pos hfind => exact ⟨⟨rfl, rfl⟩, by simp [Search.assign]⟩
  case h_2 hfind =>
    obtain ⟨p, hp, hstate⟩ := hcols
    exact absurd (by simpa using hstate) (bubbleSort_find_none hfind p hp)

end Blind

/-- **The search does not look at the slots** as long as the board does not fill up within the
depth. -/
theorem maxScore_blind (n : ℕ) {b : Board} (id : Player) (hno : b.NoFour)
    (hn : n + 1 ≤ b.empties) : Blind b (n + 1) (maxScore (n + 1) id) := by
  have hply : ∀ {n : ℕ} {b : Board} {id : Player}, b.NoFour → n + 1 ≤ b.empties →
      (∀ i ho, (b.push id i ho).NoFour → n ≠ 0 →
        Blind (b.push id i ho) n (maxScore n id.opId)) →
      Blind b (n + 1) (maxScore (n + 1) id) := by
    intro n b id hno hn hchild s s' hs hsame
    have hkept : ∀ i ho, (b.push id i ho).NoFour → n ≠ 0 →
        Child (fun _ => True) (fun _ => True) (b.push id i ho) n (maxScore n id.opId) := by
      intro i ho hno' hn
      obtain ⟨m, rfl⟩ := Nat.exists_eq_succ_of_ne_zero hn
      exact maxScore_kept m id.opId hno'
    have hrange : ∀ i ∈ List.range s.data.fieldColumns, i < fourCol := by
      simp [hs.columns]
    have hblind := scan_blind hno hchild hkept hrange hs hsame
    have hscan := scan_spec (fun _ => True) (fun _ _ => True) hno
      (fun _ _ _ _ _ => trivial) hkept hrange hs trivial
    rw [maxScore, maxScore, hsame.1]
    generalize scan (maxScore n id.opId) id (n + 1) (List.range s.data.fieldColumns) s = x
      at hblind hscan ⊢
    generalize scan (maxScore n id.opId) id (n + 1) (List.range s.data.fieldColumns) s' = x'
      at hblind ⊢
    obtain ⟨o, t⟩ := x
    obtain ⟨o', t'⟩ := x'
    obtain ⟨ho, hsame', hvalue⟩ := hblind
    obtain rfl : o' = o := ho
    cases o' with
    | none => exact ⟨rfl, hsame', hvalue rfl⟩
    | some ps =>
        obtain ⟨-, -, hcols, -⟩ := hscan
        obtain ⟨i, ho⟩ := Board.empties_pos_iff.mp (Nat.lt_of_lt_of_le n.succ_pos hn)
        obtain ⟨p, hp, hstate, -⟩ := hcols.complete i (by simpa [hs.columns] using ho.1) ho
        exact ⟨rfl, choose_blind hsame' ⟨p, hp, hstate⟩ (n + 1)⟩
  induction n generalizing b id with
  | zero => exact hply hno hn fun _ _ _ hn => absurd rfl hn
  | succ n ih =>
      refine hply hno hn fun i ho hno' _ => ih id.opId hno' ?_
      have := Board.empties_push id ho
      omega

/-- **Otherwise the slot of the depth at which the board is full shows through**: if it holds an
end of the scale, so does the answer. -/
theorem maxScore_leak {d : ℕ} (hd : 1 ≤ d) (n : ℕ) {b : Board} (id : Player) (hno : b.NoFour)
    (hn : n + 1 = d + b.empties) :
    Child (fun w => w d = valueInf) (fun v => v = valueInf ∨ v = -valueInf) b (n + 1)
      (maxScore (n + 1) id) := by
  have hply : ∀ {n : ℕ} {b : Board} {id : Player}, b.NoFour → n + 1 = d + b.empties →
      (∀ i ho, (b.push id i ho).NoFour → n ≠ 0 →
        Child (fun w => w d = valueInf) (fun v => v = valueInf ∨ v = -valueInf)
          (b.push id i ho) n (maxScore n id.opId)) →
      Child (fun w => w d = valueInf) (fun v => v = valueInf ∨ v = -valueInf) b (n + 1)
        (maxScore (n + 1) id) := by
    intro n b id hno hn hchild s hs hinv
    have hleaf : ∀ i, ∀ ho : b.Open i, n = 0 → ∀ r ≤ 0xFFFF,
        ((r : ℕ) : Int) = valueInf ∨ ((r : ℕ) : Int) = -valueInf := by
      intro i ho hzero
      have := Board.empties_push id ho
      omega
    obtain ⟨hdata, hret, w, hw, hply⟩ := maxScore_ply
      (fun _ v => v = valueInf ∨ v = -valueInf) hno hleaf hchild hs hinv
    have hupdate : ∀ v : Int, (∃ i, b.Open i) → (v = valueInf ∨ v = -valueInf) →
        (maxScore (n + 1) id s).2.value = Function.update w (n + 1) v →
        (maxScore (n + 1) id s).2.value d = valueInf ∧
          ((maxScore (n + 1) id s).2.value (n + 1) = valueInf ∨
            (maxScore (n + 1) id s).2.value (n + 1) = -valueInf) := by
      intro v ho hv heq
      have := Board.empties_pos_iff.mpr ho
      rw [heq, Function.update_self, Function.update_of_ne (by omega)]
      exact ⟨hw, hv⟩
    have hres : (maxScore (n + 1) id s).2.value d = valueInf ∧
        ((maxScore (n + 1) id s).2.value (n + 1) = valueInf ∨
          (maxScore (n + 1) id s).2.value (n + 1) = -valueInf) := by
      rcases hply with ⟨⟨i, ho, -⟩, heq⟩ | ⟨-, ⟨hfull, heq⟩ | ⟨v, ⟨i, ho, hv⟩, -, heq⟩⟩
      · exact hupdate _ ⟨i, ho⟩ (.inr rfl) heq
      · have hzero : b.empties = 0 := by
          by_contra hne
          exact hfull (Board.empties_pos_iff.mp (Nat.pos_of_ne_zero hne))
        rw [heq, hn, hzero, Nat.add_zero]
        exact ⟨hw, .inl hw⟩
      · exact hupdate _ ⟨i, ho⟩ (by omega) heq
    exact ⟨hdata, hres.1, hret, hres.2⟩
  induction n generalizing b id with
  | zero => exact hply hno hn fun _ _ _ hn => absurd rfl hn
  | succ n ih =>
      refine hply hno hn fun i ho hno' _ => ih id.opId hno' ?_
      have := Board.empties_push id ho
      omega

/-! ## Exactness -/

/-- What is asked of `value[steps]` after a search, whichever values of some kind the slots held
before: it tells exactly who forces four in line, the board is restored, and other values of
that kind would have made no difference. -/
def ValueOk (Held : (ℕ → Int) → Prop) (data : Data) (b : Board) (id : Player) (steps : ℕ)
    (rand : ℕ → ℕ) : Prop :=
  ∀ value idx, Held value →
    let res := (maxScore steps id ⟨data, value, idx, rand⟩).2
    (res.value steps = -valueInf ↔ fourGame.Forces steps (b, id)) ∧
    (res.value steps = valueInf ↔ (∃ t, fourGame.next (b, id) t) ∧
      ∀ t, fourGame.next (b, id) t → ¬ fourGame.won t ∧ fourGame.Forces (steps - 1) t) ∧
    res.data = data ∧
    ∀ value' idx', Held value' →
      (maxScore steps id ⟨data, value', idx', rand⟩).2.value steps = res.value steps

section Exact

variable {data : Data} {b : Board} {id : Player} {n : ℕ}

/-- A board that does not fill up within the depth, whatever the slots held. -/
theorem valueOk_of_le (hb : DataShows data b) (hno : b.NoFour) (hn : n + 1 ≤ b.empties)
    (rand : ℕ → ℕ) : ValueOk (fun _ => True) data b id (n + 1) rand := by
  -- compared with a search that starts with zeros
  have hzero : OnScale fun _ => 0 := onScale_const (by decide)
  obtain ⟨-, -, -, hbelow⟩ := maxScore_exact n id hno ⟨data, fun _ => 0, fun _ => 0, rand⟩ hb hzero
  have hblind : ∀ value idx, (maxScore (n + 1) id ⟨data, value, idx, rand⟩).2.value (n + 1) =
      (maxScore (n + 1) id ⟨data, fun _ => 0, fun _ => 0, rand⟩).2.value (n + 1) := by
    intro value idx
    exact (maxScore_blind n id hno hn ⟨data, fun _ => 0, fun _ => 0, rand⟩
      ⟨data, value, idx, rand⟩ hb ⟨rfl, rfl⟩).2.2
  have hscores := hbelow.exact hn
  intro value idx _ res
  have hdata := (maxScore_kept n id hno ⟨data, value, idx, rand⟩ hb trivial).1
  refine ⟨?_, ?_, hdata, fun value' idx' _ => (hblind value' idx').trans (hblind value idx).symm⟩
  · rw [hblind value idx]
    exact hscores.1
  · rw [hblind value idx]
    exact hscores.2

/-- A board on which somebody forces four in line, with slots on the scale. -/
theorem valueOk_of_forced (hb : DataShows data b) (hno : b.NoFour)
    (hforced : fourGame.Forces (n + 1) (b, id) ∨ fourGame.Loses (n + 1) (b, id))
    (rand : ℕ → ℕ) : ValueOk OnScale data b id (n + 1) rand := by
  have hbelow : ∀ value idx, OnScale value →
      Says (n + 1) (b, id) ((maxScore (n + 1) id ⟨data, value, idx, rand⟩).2.value (n + 1)) :=
    fun value idx hvalue => (maxScore_exact n id hno ⟨data, value, idx, rand⟩ hb hvalue).2.2.2
  intro value idx hvalue res
  have hres := hbelow value idx hvalue
  have hdata := (maxScore_kept n id hno ⟨data, value, idx, rand⟩ hb trivial).1
  rcases hforced with hf | hl
  · have hloss := hres.forces hf
    have hnot : ¬ fourGame.Loses (n + 1) (b, id) := by
      intro hl
      exact absurd (hloss.symm.trans (hres.loses hl)) (by decide)
    refine ⟨iff_of_true hloss hf, iff_of_false (by rw [hloss]; decide) hnot, hdata, ?_⟩
    intro value' idx' hvalue'
    rw [hloss]
    exact (hbelow value' idx' hvalue').forces hf
  · have hwin := hres.loses hl
    have hnot : ¬ fourGame.Forces (n + 1) (b, id) := by
      intro hf
      exact absurd (hwin.symm.trans (hres.forces hf)) (by decide)
    refine ⟨iff_of_false (by rw [hwin]; decide) hnot, iff_of_true hwin hl, hdata, ?_⟩
    intro value' idx' hvalue'
    rw [hwin]
    exact (hbelow value' idx' hvalue').loses hl

/-- **Exactly when `value[steps]` is right.** On every board without four in line, for every
player to move, every depth and any results of `rand`: after `max_score` the slot tells
exactly who forces four in line, whichever values on the scale the slots held before, if and
only if the board does not fill up within the depth or one of the players does force four in
line. In the first case it makes no difference what the slots held at all. -/
theorem first_search_iff (hb : DataShows data b) (hno : b.NoFour) (id : Player) {steps : ℕ}
    (hsteps : 1 ≤ steps) (rand : ℕ → ℕ) :
    (ValueOk OnScale data b id steps rand ↔
      steps ≤ b.empties ∨ fourGame.Forces steps (b, id) ∨ fourGame.Loses steps (b, id)) ∧
    (steps ≤ b.empties → ValueOk (fun _ => True) data b id steps rand) := by
  obtain ⟨n, rfl⟩ : ∃ n, steps = n + 1 := ⟨steps - 1, by omega⟩
  refine ⟨⟨?_, ?_⟩, fun hn => valueOk_of_le hb hno hn rand⟩
  · intro hok
    by_contra hnot
    obtain ⟨hlt, hforces, hloses⟩ : ¬ n + 1 ≤ b.empties ∧ ¬ fourGame.Forces (n + 1) (b, id) ∧
        ¬ fourGame.Loses (n + 1) (b, id) := by
      rwa [not_or, not_or] at hnot
    -- the slot of the depth at which the board is full
    obtain ⟨d, hd, hn⟩ : ∃ d, 1 ≤ d ∧ n + 1 = d + b.empties :=
      ⟨n + 1 - b.empties, by omega, by omega⟩
    obtain ⟨-, -, -, hleak⟩ := maxScore_leak hd n id hno hn
      ⟨data, fun _ => valueInf, fun _ => 0, rand⟩ hb rfl
    obtain ⟨hf, hl, -⟩ := hok (fun _ => valueInf) (fun _ => 0) (onScale_const (by decide))
    rcases hleak with hv | hv
    · exact hloses (hl.mp hv)
    · exact hforces (hf.mp hv)
  · rintro (hn | hforced)
    · intro value idx _
      obtain ⟨hf, hl, hdata, hblind⟩ := valueOk_of_le hb hno hn rand value idx trivial
      exact ⟨hf, hl, hdata, fun value' idx' _ => hblind value' idx' trivial⟩
    · exact valueOk_of_forced hb hno hforced rand

end Exact

/-- Two plies from the start of a match. -/
theorem first_search_iff_start :
    ValueOk (fun _ => True) .start .empty .p1 2 fun n => 5 * n :=
  (first_search_iff ⟨rfl, rfl, fourReset_shows⟩ noFour_empty .p1 (by decide) fun n => 5 * n).2
    (by decide)

/-- A board with one empty cell, on the right of the top row. -/
def lastCell : Board where
  stack c := ((List.range fourRow).map fun r => if (r + c / 2) % 2 = 0 then Player.p1 else .p2).take
    (if c < 6 then fourRow else if c = 6 then fourRow - 1 else 0)
  le c := by simp
  outside c hc := by
    simp only [fourCol] at hc
    rw [if_neg (by omega), if_neg (by omega), List.take_zero]

/-- Nobody gets four in line there, but a search to depth 2 says so if the slot of depth 1 holds
the value of a win. -/
theorem first_search_leaks :
    lastCell.NoFour ∧ ∃ data, DataShows data lastCell ∧
      ¬ ValueOk OnScale data lastCell .p1 2 fun _ => 0 := by
  have hno : lastCell.NoFour := by
    intro id
    cases id <;> decide
  have hempties : lastCell.empties = 1 := by decide
  obtain ⟨four, hfour⟩ := exists_shows lastCell
  have hb : DataShows ⟨fourCol, fourRow, four⟩ lastCell := ⟨rfl, rfl, hfour⟩
  refine ⟨hno, _, hb, ?_⟩
  intro hok
  obtain ⟨-, -, -, hleak⟩ := maxScore_leak (d := 1) le_rfl 1 .p1 hno (by rw [hempties])
    ⟨⟨fourCol, fourRow, four⟩, fun _ => valueInf, fun _ => 0, fun _ => 0⟩ hb rfl
  obtain ⟨hf, hl, -⟩ := hok (fun _ => valueInf) (fun _ => 0) (onScale_const (by decide))
  rcases hleak with hv | hv
  · have hloses : fourGame.Loses 2 (lastCell, .p1) := hl.mp hv
    obtain ⟨⟨t, hnext⟩, hall⟩ := hloses.of_left (m := 1) fourGame_empties hempties.le
    exact (hall t hnext).2
  · have hforces : fourGame.Forces 2 (lastCell, .p1) := hf.mp hv
    obtain ⟨t, ⟨i, ho, ht⟩, hwon⟩ := hforces.of_left (m := 1) fourGame_empties hempties.le
    subst ht
    have hline := (won_push i ho).mp (hwon.resolve_right False.elim)
    have hcol : i = 6 := by
      have hlt := ho.1
      have hall : ∀ c < fourCol, lastCell.Open c → c = 6 := by decide
      exact hall i hlt ho
    subst hcol
    have hquiet : ∀ ho, ¬ FourInLine ((lastCell.push .p1 6 ho).cells .p1) := by decide
    exact hquiet ho hline

end CCode.FourInARow
