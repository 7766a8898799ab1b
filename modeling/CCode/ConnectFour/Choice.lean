import CCode.Lib.Deepening
import CCode.ConnectFour.Values

/-!
# The choice of a column

`cal_col` of `ai_core.c` searches the board to one depth after the other, with an emptied
table each time, until a search finds a forced line or a tie, or took too long. If the
opponent forces a line it answers with the column of the depth before, otherwise with that of
the last one. The search takes back every disc it drops.

Where the last search has found a forced line, `dbg_steps` prints how the game goes on: it
drops the discs of that line on the board itself, and nothing takes them back. The columns of
the line are kept as `char`, one of them may be the `-1` of a position that has no next
column, and whether the line is complete is asked for column `i` where it means the column
of disc `i`; that index may be beside the board or belong to an empty column, and then the
answer comes from whatever lies there.

## Main definitions

* `fourAddInt`, `strayFinish` — the board asked with indices that may lie outside.
* `dbgSteps` — the line on the board.
* `selectStep`, `calCol` — the choice.
* `FindsLine` — a depth is reached whose search finds a forced line.
* `Forced` — what somebody forces within some plies.
-/

namespace CCode.ConnectFour

open CCode.Lib

/-- `MIN_STEP`. -/
abbrev minStep : ℕ := 1

/-- `MAX_STEP`. -/
abbrev maxStep : ℕ := 42

/-- `TOTAL_TIME_MS`. -/
abbrev totalTimeMs : Int := 2500

/-! ## The line on the board -/

/-- `four_add` with an `int`, whose test for a negative column refuses it. -/
def fourAddInt (four : Four) (id : Player) (col : Int) : Int × Four :=
  if col < 0 then (-1, four) else fourAdd four id col.toNat

/-- `four_isFinish` with an index that need not be a column with a disc: what lies outside the
board says what it says. -/
def strayFinish (stray : Int → Bool) (four : Four) (id : Player) (lastCol : Int) : Bool :=
  if 0 ≤ lastCol ∧ lastCol < fourCol ∧ nextPosMap (four.column id lastCol.toNat) ≠ 0 then
    decide (fourIsFinish four id lastCol.toNat ≠ 0)
  else stray lastCol

/-- A column as an entry of `col_list`. -/
def toChar (col : Int) : Int := (Int8.ofInt col).toInt

/-- A disc of the line. -/
def Search.replay (s : Search) (id : Player) (col : Int) : Search :=
  { s with four := (fourAddInt s.four id col).2 }

/-- The loop of `dbg_steps`, with the number of rounds to go and the column of disc `i`. -/
def dbgLoop (stray : Int → Bool) (id : Player) (step : ℕ) : ℕ → ℕ → Int → Search → Search
  | 0, _, _, s => s
  | k + 1, i, col, s =>
      let curId := if i &&& 1 = 0 then id else id.opId
      let s := s.replay curId col
      if strayFinish stray s.four curId i then s
      else
        let (tmp, s) := maxScore (step - 1 - i) curId.opId s
        dbgLoop stray id step k (i + 1)
          (toChar (if tmp.colume = -win then tmp.nextCol else tmp.colume)) s

/-- `dbg_steps`. -/
def dbgSteps (stray : Int → Bool) (id : Player) (step : ℕ) (pos : Position) (s : Search) :
    Search :=
  let col := toChar pos.colume
  let s := s.replay id col
  if strayFinish stray s.four id col then s
  else dbgLoop stray id step (step - 2) 1 (toChar pos.nextCol) s

/-! ## The choice -/

/-- The search of a depth, with the table emptied and no key looked up yet. -/
def freshScore (id : Player) (step : ℕ) (s : Search) : Position × Search :=
  maxScore step id (.start s.four s.rand s.stack)

/-- The test that ends the loop over the depths. -/
def endsDepths (clock : ℕ → Timeval × Timeval) (step : ℕ) (curPos : Position) : Bool :=
  curPos.value = win || curPos.value = -win || curPos.value = tied || curPos.value = -tied ||
    overTime 8 totalTimeMs (clock step)

/-- The variables in front of the loop; `last_pos` is assigned before it is read. -/
def depthStart (s : Search) : Deepening Position Search := ⟨minStep, ⟨0, 0, 0⟩, ⟨0, 0, 0⟩, s⟩

/-- The end of `cal_col`: the column of the last depth or of the one before, and the line. -/
def selectStep (stray : Int → Bool) (id : Player) (d : Deepening Position Search) :
    Int × Search :=
  if -d.cur.value = -win ∧ d.step ≠ minStep then
    (d.last.colume, dbgSteps stray id d.step d.last d.state)
  else if -d.cur.value = win then (d.cur.colume, dbgSteps stray id d.step d.cur d.state)
  else (d.cur.colume, d.state)

/-- `cal_col`: the column, and the state that is left. -/
def calCol (stray : Int → Bool) (clock : ℕ → Timeval × Timeval) (id : Player) (s : Search) :
    Int × Search :=
  selectStep stray id
    (deepen (freshScore id) (endsDepths clock) (maxStep - minStep) (depthStart s))

/-! ## The searches of the loop -/

section Fresh

variable {s : Search} {b : Board} {id : Player}

/-- Every search of the loop leaves the board as it is. -/
theorem freshScore_four (hs : s.four.Consistent) (step : ℕ) :
    (freshScore id step s).2.four = s.four :=
  (maxScore_tidy step id).four (.start s.four s.rand s.stack) hs

/-- On a board that takes a disc a search answers with a column that does. -/
theorem freshScore_open (hb : s.four.Shows b) (ho : ∃ i, b.Open i) (n : ℕ) :
    ∃ i, b.Open i ∧ (freshScore id (minStep + n) s).1.colume = i := by
  rw [freshScore, minStep, Nat.add_comm]
  have hchild : ∀ i ho, n ≠ 0 → Gives InRange (b.push id i ho) (maxScore n id.opId) := by
    intro i ho hn
    obtain ⟨m, rfl⟩ := Nat.exists_eq_succ_of_ne_zero hn
    exact maxScore_gives inRange_values m id.opId (.inl (inRange_values.neg _ (by simp [InRange])))
  obtain ⟨-, hres⟩ := maxScore_scanned inRange_values hchild
    (s := .start s.four s.rand s.stack) hb (start_holds _ _ _ _)
  rcases hres with ⟨hfull, -⟩ | ⟨-, hcol⟩
  · exact absurd ho hfull
  · exact hcol

/-- A search that does not reach the end of the game finds no tie. -/
theorem freshScore_untied (id : Player) (hb : s.four.Shows b) {n : ℕ}
    (hn : minStep + n ≤ b.empties) :
    Untied (freshScore id (minStep + n) s).1.value := by
  rw [Nat.add_comm] at hn ⊢
  exact (maxScore_gives untied_values n id (.inr hn) (.start s.four s.rand s.stack) hb
    (start_holds _ _ _ _)).2

/-- Without collisions a search is exact. -/
theorem freshScore_exact (hb : s.four.Shows b) (hno : b.NoFour) (n : ℕ)
    (hcol : NoCollision (freshScore id (minStep + n) s).2.examined) :
    fourGame.Scores win (minStep + n) (b, id) (freshScore id (minStep + n) s).1.value := by
  rw [Nat.add_comm] at hcol ⊢
  have hexact := maxScore_exact (moverFrom_succ (n + 1) id) n hno
  rw [moverFrom_self] at hexact
  exact (hexact (.start s.four s.rand s.stack) hb (start_tableOk _ _ _ _) hcol).2.2

end Fresh

/-- What `cal_col` has after the search of depth `n + 1`, if it gets there. -/
def depth (id : Player) (s : Search) (n : ℕ) : Deepening Position Search :=
  Deepening.round (freshScore id) n (depthStart s)

/-- It gets there: no depth before ends the loop. -/
def Reaches (clock : ℕ → Timeval × Timeval) (id : Player) (s : Search) (n : ℕ) : Prop :=
  ∀ m < n, endsDepths clock (minStep + m) (depth id s m).cur = false

/-- Some depth is reached whose search finds a forced line: that of the player, or, from depth
2 on, that of the opponent. -/
def FindsLine (clock : ℕ → Timeval × Timeval) (id : Player) (s : Search) : Prop :=
  ∃ n < maxStep - minStep, Reaches clock id s n ∧
    ((depth id s n).cur.value = -win ∨ (depth id s n).cur.value = win ∧ n ≠ 0)

theorem endsDepths_win (clock : ℕ → Timeval × Timeval) (step : ℕ) {pos : Position}
    (h : pos.value = -win ∨ pos.value = win) : endsDepths clock step pos = true := by
  rcases h with h | h
  · simp [endsDepths, h]
  · simp [endsDepths, h]

section Depth

variable {s : Search} {b : Board} {id : Player} {clock : ℕ → Timeval × Timeval}

/-- The rounds before leave the board as it is. -/
theorem iter_four (hs : s.four.Consistent) (n : ℕ) :
    (Deepening.iter (freshScore id) n (depthStart s)).state.four = s.four := by
  refine Deepening.iter_rule (I := fun t : Search => t.four = s.four) rfl ?_ n
  intro step (t : Search) (ht : t.four = s.four)
  rw [freshScore_four (ht ▸ hs), ht]

/-- The search of a depth starts on the board of the call. -/
theorem exists_freshScore (id : Player) (hs : s.four.Consistent) (n : ℕ) :
    ∃ t : Search, t.four = s.four ∧ (depth id s n).cur = (freshScore id (minStep + n) t).1 ∧
      (depth id s n).state = (freshScore id (minStep + n) t).2 :=
  ⟨_, iter_four hs n, Deepening.round_cur n, Deepening.round_state n⟩

theorem depth_four (hs : s.four.Consistent) (n : ℕ) : (depth id s n).state.four = s.four := by
  obtain ⟨t, ht, -, hstate⟩ := exists_freshScore id hs n
  rw [hstate, freshScore_four (ht ▸ hs), ht]

theorem depth_open (hb : s.four.Shows b) (ho : ∃ i, b.Open i) (n : ℕ) :
    ∃ i, b.Open i ∧ (depth id s n).cur.colume = i := by
  obtain ⟨t, ht, hcur, -⟩ := exists_freshScore id ⟨b, hb⟩ n
  rw [hcur]
  exact freshScore_open (ht ▸ hb) ho n

/-- So does the search of the depth before. -/
theorem depth_last_open (hb : s.four.Shows b) (ho : ∃ i, b.Open i) (n : ℕ) :
    ∃ i, b.Open i ∧ (depth id s (n + 1)).last.colume = i := by
  rw [depth, Deepening.round_succ_last]
  exact depth_open hb ho n

end Depth

/-! ## The line that stays on the board -/

/-- The bitboards show a board with at most so many empty cells. -/
def Four.RoomLe (four : Four) (e : ℕ) : Prop := ∃ b, four.Shows b ∧ b.empties ≤ e

theorem Four.RoomLe.add {four : Four} {e : ℕ} (h : four.RoomLe e) (id : Player) (col : Int) :
    (fourAddInt four id col).2.RoomLe e := by
  obtain ⟨b, hb, hle⟩ := h
  rw [fourAddInt]
  split
  · exact ⟨b, hb, hle⟩
  · by_cases ho : b.Open col.toNat
    · have hpush := Board.empties_push id ho
      exact ⟨_, (hb.add id ho).2, by omega⟩
    · rw [hb.add_of_not_open id ho]
      exact ⟨b, hb, hle⟩

theorem Four.RoomLe.consistent {four : Four} {e : ℕ} (h : four.RoomLe e) : four.Consistent := by
  obtain ⟨b, hb, -⟩ := h
  exact ⟨b, hb⟩

/-- The loop takes nothing back. -/
theorem dbgLoop_roomLe (stray : Int → Bool) (id : Player) (step k i : ℕ) (col : Int) {s : Search}
    {e : ℕ} (h : s.four.RoomLe e) : (dbgLoop stray id step k i col s).four.RoomLe e := by
  induction k generalizing i col s with
  | zero => exact h
  | succ k ih =>
      rw [dbgLoop]
      generalize (if i &&& 1 = 0 then id else id.opId) = curId
      have hadd := h.add curId col
      dsimp only
      split
      · exact hadd
      · apply ih
        rw [(maxScore_tidy _ _).four _ hadd.consistent]
        exact hadd

theorem toChar_column {i : ℕ} (hi : i < fourCol) : toChar i = i := by
  simp only [fourCol] at hi
  rw [toChar]
  exact Int8.toInt_ofInt_of_le (by omega) (by omega)

/-- **The line leaves its discs on the board.** -/
theorem dbgSteps_four_ne (stray : Int → Bool) (id : Player) (step : ℕ) {pos : Position}
    {s : Search} {b : Board} (hb : s.four.Shows b) {i : ℕ} (ho : b.Open i)
    (hpos : pos.colume = i) : (dbgSteps stray id step pos s).four ≠ s.four := by
  have hroom : (s.replay id (toChar pos.colume)).four.RoomLe (b.empties - 1) := by
    have hpush := Board.empties_push id ho
    rw [hpos, toChar_column ho.1, Search.replay, fourAddInt, if_neg (by omega), Int.toNat_natCast]
    exact ⟨_, (hb.add id ho).2, by omega⟩
  have hend : (dbgSteps stray id step pos s).four.RoomLe (b.empties - 1) := by
    rw [dbgSteps]
    split
    · exact hroom
    · exact dbgLoop_roomLe stray id step _ _ _ hroom
  intro heq
  obtain ⟨b', hb', hle⟩ := hend
  rw [heq] at hb'
  obtain rfl := board_of_rows hb.h hb'.h
  have hpos := Board.empties_pos_iff.mpr ⟨i, ho⟩
  omega

/-! ## The choice of a column -/

/-- What is asked of a choice: a column that takes a disc, and the bitboards as they were. -/
def ChoiceOk (id : Player) (s : Search) (res : Int × Search) : Prop :=
  (∃ col : ℕ, res.1 = col ∧ (fourAdd s.four id col).1 = 0) ∧ res.2.four = s.four

/-- The end of `cal_col` changes the bitboards exactly if the last search has found a forced
line. -/
theorem selectStep_spec (stray : Int → Bool) (id : Player) {d : Deepening Position Search}
    {b : Board} (hb : d.state.four.Shows b) (hcur : ∃ i, b.Open i ∧ d.cur.colume = i)
    (hlast : d.step ≠ minStep → ∃ i, b.Open i ∧ d.last.colume = i) :
    (∃ i, b.Open i ∧ (selectStep stray id d).1 = i) ∧
      ((selectStep stray id d).2.four = d.state.four ↔
        ¬ (d.cur.value = -win ∨ d.cur.value = win ∧ d.step ≠ minStep)) := by
  rw [selectStep]
  split_ifs with hloses hwins
  · obtain ⟨i, ho, hcol⟩ := hlast hloses.2
    refine ⟨⟨i, ho, hcol⟩, iff_of_false (dbgSteps_four_ne stray id d.step hb ho hcol) ?_⟩
    rw [not_not]
    exact .inr ⟨by omega, hloses.2⟩
  · obtain ⟨i, ho, hcol⟩ := hcur
    refine ⟨⟨i, ho, hcol⟩, iff_of_false (dbgSteps_four_ne stray id d.step hb ho hcol) ?_⟩
    rw [not_not]
    exact .inl (by omega)
  · refine ⟨hcur, iff_of_true rfl ?_⟩
    rintro (hv | ⟨hv, hstep⟩)
    · exact hwins (by omega)
    · exact hloses ⟨by omega, hstep⟩

section Choice

variable {clock : ℕ → Timeval × Timeval} {id : Player} {s : Search} {b : Board}

/-- The depth that ends the loop is the only one that may have found a forced line. -/
theorem findsLine_iff {n : ℕ} (hn : n < maxStep - minStep) (hreach : Reaches clock id s n)
    (hstop : endsDepths clock (minStep + n) (depth id s n).cur = true) :
    FindsLine clock id s ↔
      (depth id s n).cur.value = -win ∨ (depth id s n).cur.value = win ∧ n ≠ 0 := by
  constructor
  · intro ⟨m, hm, hreach', hvalue⟩
    have hends := endsDepths_win clock (minStep + m) (hvalue.imp_right And.left)
    rcases lt_trichotomy m n with hlt | rfl | hgt
    · rw [hreach m hlt] at hends
      exact absurd hends Bool.false_ne_true
    · exact hvalue
    · rw [hreach' n hgt] at hstop
      exact absurd hstop Bool.false_ne_true
  · intro hvalue
    exact ⟨n, hn, hreach, hvalue⟩

/-- Without a depth that ends the loop no forced line is found. -/
theorem not_findsLine (hreach : Reaches clock id s (maxStep - minStep)) :
    ¬ FindsLine clock id s := by
  intro ⟨m, hm, _, hvalue⟩
  have hends := endsDepths_win clock (minStep + m) (hvalue.imp_right And.left)
  rw [hreach m hm] at hends
  exact Bool.false_ne_true hends

/-- The column is always one that takes a disc, and the bitboards change exactly if a forced
line is found. -/
theorem calCol_spec (stray : Int → Bool) (clock : ℕ → Timeval × Timeval) (id : Player)
    (hb : s.four.Shows b) (ho : ∃ i, b.Open i) :
    (∃ i, b.Open i ∧ (calCol stray clock id s).1 = i) ∧
      ((calCol stray clock id s).2.four = s.four ↔ ¬ FindsLine clock id s) := by
  have hfour : ∀ n, (depth id s n).state.four = s.four := fun n => depth_four ⟨b, hb⟩ n
  have hshows : ∀ n, (depth id s n).state.four.Shows b := by
    intro n
    rw [hfour n]
    exact hb
  rw [calCol]
  rcases deepen_cases (freshScore id) (endsDepths clock) (maxStep - minStep) (depthStart s) with
    ⟨n, hn, hreach, hstop, heq⟩ | ⟨hreach, heq⟩
  · have hstep : (depth id s n).step = minStep + n := Deepening.round_step n
    have hlast : (depth id s n).step ≠ minStep →
        ∃ i, b.Open i ∧ (depth id s n).last.colume = i := by
      intro hne
      obtain ⟨m, rfl⟩ : ∃ m, n = m + 1 := Nat.exists_eq_succ_of_ne_zero (by omega)
      exact depth_last_open hb ho m
    have hsel := selectStep_spec stray id (hshows n) (depth_open hb ho n) hlast
    rw [heq, findsLine_iff hn hreach hstop, ← hfour n]
    rw [hstep] at hsel
    have hiff : minStep + n ≠ minStep ↔ n ≠ 0 := by omega
    rw [hiff] at hsel
    exact hsel
  · have hnone := not_findsLine hreach
    -- two depths at least were searched
    obtain ⟨k, hk⟩ : ∃ k, maxStep - minStep = k + 2 := ⟨39, rfl⟩
    rw [hk] at hreach heq
    rw [hk, heq, Deepening.iter_succ]
    have hsel := selectStep_spec stray id (d := (depth id s (k + 1)).next) (hshows (k + 1))
      (depth_open hb ho (k + 1)) fun _ => depth_last_open hb ho k
    refine ⟨hsel.1, ?_⟩
    rw [← hfour (k + 1)]
    refine hsel.2.trans (iff_of_true ?_ hnone)
    intro hv
    have hends := endsDepths_win clock (minStep + (k + 1)) (hv.imp_right And.left)
    exact absurd (hends.symm.trans (hreach (k + 1) (by omega))) Bool.false_ne_true.symm

end Choice

/-! ## Forced lines -/

/-- The first of some numbers from 0 on that has a property, the last one if none has it. -/
def firstOr (p : ℕ → Bool) (k : ℕ) : ℕ := ((List.range k).find? p).getD k

theorem firstOr_spec (p : ℕ → Bool) (k : ℕ) :
    firstOr p k ≤ k ∧ (∀ m < firstOr p k, p m = false) ∧
      (p (firstOr p k) = true ∨ firstOr p k = k) := by
  rw [firstOr]
  cases hfind : (List.range k).find? p with
  | none =>
      refine ⟨le_rfl, ?_, .inr rfl⟩
      intro m hm
      simpa using List.find?_eq_none.mp hfind m (List.mem_range.mpr hm)
  | some n =>
      obtain ⟨hp, hn, hbefore⟩ := List.find?_range_eq_some.mp hfind
      refine ⟨(List.mem_range.mp hn).le, ?_, .inl hp⟩
      intro m hm
      simpa using hbefore m hm

/-- The depth at which the clock ends the loop, the largest one if it does not. -/
def lastDepth (clock : ℕ → Timeval × Timeval) : ℕ :=
  minStep + firstOr (fun n => overTime 8 totalTimeMs (clock (minStep + n))) (maxStep - minStep - 1)

section Forced

variable {clock : ℕ → Timeval × Timeval} {id : Player} {s : Search} {b : Board}

/-- What a search of the loop says, without collisions. -/
theorem depth_exact (hb : s.four.Shows b) (hno : b.NoFour) {n : ℕ}
    (hcol : NoCollision (depth id s n).state.examined) :
    fourGame.Scores win (minStep + n) (b, id) (depth id s n).cur.value := by
  obtain ⟨t, ht, hcur, hstate⟩ := exists_freshScore id ⟨b, hb⟩ n
  rw [hstate] at hcol
  rw [hcur]
  exact freshScore_exact (ht ▸ hb) hno n hcol

/-- A search that finds a tie reaches the end of the game. -/
theorem empties_lt_of_tied (hb : s.four.Shows b) {n : ℕ}
    (htied : (depth id s n).cur.value = tied ∨ (depth id s n).cur.value = -tied) :
    b.empties < minStep + n := by
  obtain ⟨t, ht, hcur, -⟩ := exists_freshScore id ⟨b, hb⟩ n
  rw [hcur] at htied
  by_contra hle
  have huntied := freshScore_untied id (ht ▸ hb) (Nat.le_of_not_lt hle)
  rcases htied with h | h
  · exact huntied.2.1 h
  · exact huntied.2.2 h

/-- What somebody forces at all within some plies. -/
def Forced (b : Board) (id : Player) (plies : ℕ) : Prop :=
  fourGame.Forces plies (b, id) ∨ fourGame.Loses plies (b, id)

theorem Forced.mono {m n : ℕ} (h : Forced b id m) (hle : m ≤ n) : Forced b id n :=
  h.imp (fun hf => hf.mono hle) fun hl => hl.mono hle

theorem Forced.of_empties {m n : ℕ} (h : Forced b id n) (hm : b.empties ≤ m) : Forced b id m :=
  h.imp (fun hf => hf.of_left fourGame_empties hm) fun hl => hl.of_left fourGame_empties hm

/-- Within one ply nobody loses. -/
theorem forced_one (h : Forced b id (minStep + 0)) : fourGame.Forces (minStep + 0) (b, id) := by
  refine h.resolve_right ?_
  intro ⟨⟨t, hnext⟩, hall⟩
  exact (hall t hnext).2

/-- **Without collisions** a forced line is found exactly if there is one within the depth at
which the clock ends the loop. -/
theorem findsLine_iff_forced (hb : s.four.Shows b) (hno : b.NoFour)
    (hcol : ∀ n, minStep + n ≤ lastDepth clock → Reaches clock id s n →
      NoCollision (depth id s n).state.examined) :
    FindsLine clock id s ↔ Forced b id (lastDepth clock) := by
  have hspec := firstOr_spec (fun n => overTime 8 totalTimeMs (clock (minStep + n)))
    (maxStep - minStep - 1)
  rw [lastDepth] at hcol ⊢
  generalize firstOr (fun n => overTime 8 totalTimeMs (clock (minStep + n)))
    (maxStep - minStep - 1) = k at hspec hcol ⊢
  obtain ⟨hk, hbefore, hover⟩ := hspec
  have hexact : ∀ n ≤ k, Reaches clock id s n →
      fourGame.Scores win (minStep + n) (b, id) (depth id s n).cur.value :=
    fun n hn hreach => depth_exact hb hno (hcol n (by omega) hreach)
  constructor
  · intro ⟨n, hn, hreach, hvalue⟩
    have hle : n ≤ k := by
      by_contra hgt
      have hgo := hreach k (by omega)
      rcases hover with hover | hend
      · simp [endsDepths, hover] at hgo
      · omega
    have hscore := hexact n hle hreach
    have hforced : Forced b id (minStep + n) :=
      hvalue.imp hscore.1.mp fun hv => hscore.2.mp hv.1
    exact hforced.mono (by omega)
  · intro hforced
    -- the first depth at which something is forced
    have hex : ∃ n, Forced b id (minStep + n) := ⟨k, hforced⟩
    classical
    have hfirst := Nat.find_spec hex
    have hle : Nat.find hex ≤ k := Nat.find_min' hex hforced
    have hreach : ∀ n ≤ Nat.find hex, Reaches clock id s n := by
      intro n
      induction n with
      | zero =>
          intro _ m hm
          omega
      | succ n ih =>
          intro hn
          have hreach := ih (by omega)
          have hscore := hexact n (by omega) hreach
          have hnot : ¬ Forced b id (minStep + n) := Nat.find_min hex (by omega)
          have hwin : (depth id s n).cur.value ≠ win := fun hv => hnot (.inr (hscore.2.mp hv))
          have hloss : (depth id s n).cur.value ≠ -win := fun hv => hnot (.inl (hscore.1.mp hv))
          have htied : ¬ ((depth id s n).cur.value = tied ∨ (depth id s n).cur.value = -tied) := by
            intro htied
            have hempties := empties_lt_of_tied hb htied
            exact hnot (hfirst.of_empties hempties.le)
          intro m hm
          rcases Nat.lt_succ_iff_lt_or_eq.mp hm with hlt | rfl
          · exact hreach m hlt
          · rw [not_or] at htied
            simp [endsDepths, hwin, hloss, htied.1, htied.2, hbefore m (by omega)]
    have hscore := hexact _ hle (hreach _ le_rfl)
    refine ⟨Nat.find hex, lt_of_le_of_lt (hle.trans hk) (by decide), hreach _ le_rfl, ?_⟩
    by_cases hzero : Nat.find hex = 0
    · rw [hzero] at hfirst hscore ⊢
      exact .inl (hscore.1.mpr (forced_one hfirst))
    · exact hfirst.imp hscore.1.mpr fun hl => ⟨hscore.2.mpr hl, hzero⟩

end Forced

/-- **Exactly when `cal_col` leaves the board alone.** On any board without four in line that
takes a disc, for any clock readings and any results of `rand`: `cal_col` answers with a
column that takes a disc and leaves the bitboards as they were if and only if no depth that
it reaches finds a forced line. Where no two positions that its searches look up share an
index of the table, that is to say that within the depth at which the clock ends the loop
neither the player can force four in line nor the opponent against every move. -/
theorem col_choice_iff (stray : Int → Bool) (clock : ℕ → Timeval × Timeval) (id : Player)
    {s : Search} {b : Board} (hb : s.four.Shows b) (hno : b.NoFour) (ho : ∃ col, b.Open col) :
    (ChoiceOk id s (calCol stray clock id s) ↔ ¬ FindsLine clock id s) ∧
      ((∀ n, minStep + n ≤ lastDepth clock → Reaches clock id s n →
          NoCollision (depth id s n).state.examined) →
        (FindsLine clock id s ↔ fourGame.Forces (lastDepth clock) (b, id) ∨
          fourGame.Loses (lastDepth clock) (b, id))) := by
  obtain ⟨⟨i, hi, hcol⟩, hfour⟩ := calCol_spec stray clock id hb ho
  refine ⟨?_, fun hcol => findsLine_iff_forced hb hno hcol⟩
  rw [← hfour, ChoiceOk]
  exact and_iff_right ⟨i, hcol, (hb.add_eq_zero_iff id i).mpr hi⟩

/-- The clock runs out at once, on the empty board. -/
theorem col_choice_iff_empty :
    ChoiceOk .p1 (.start fourReset (fun n => 5 * n) fun _ => ⟨0, 0, 0⟩)
      (calCol (fun _ => true) (fun _ => (⟨0, 0⟩, ⟨2, 0⟩)) .p1
        (.start fourReset (fun n => 5 * n) fun _ => ⟨0, 0, 0⟩)) := by
  refine (col_choice_iff (fun _ => true) (fun _ => (⟨0, 0⟩, ⟨2, 0⟩)) .p1
    (s := .start fourReset (fun n => 5 * n) fun _ => ⟨0, 0, 0⟩) fourReset_shows noFour_empty
    ⟨0, by decide⟩).1.mpr ?_
  rw [findsLine_iff (n := 0) (by decide) (by simp [Reaches]) (by decide)]
  decide

/-- Three discs of the player lie on each other: the search of depth 1 finds the fourth, and
`cal_col` leaves it on the board. -/
theorem col_choice_replayed :
    let s : Search := .start (addAll [(.p1, 0), (.p2, 1), (.p1, 0), (.p2, 1), (.p1, 0), (.p2, 1)])
      (fun _ => 0) fun _ => ⟨0, 0, 0⟩
    (∃ b, s.four.Shows b ∧ b.NoFour ∧ ∃ col, b.Open col) ∧
      ¬ ChoiceOk .p1 s (calCol (fun _ => false) (fun _ => (⟨0, 0⟩, ⟨0, 0⟩)) .p1 s) := by
  intro s
  constructor
  · obtain ⟨b, hb, hno⟩ := addAll_noFour
      [(.p1, 0), (.p2, 1), (.p1, 0), (.p2, 1), (.p1, 0), (.p2, 1)]
      (by intro id; cases id <;> decide)
    exact ⟨b, hb, hno, 0, (hb.add_eq_zero_iff .p1 0).mp (by decide)⟩
  · intro ⟨_, hfour⟩
    have hcol := congrArg (fun four => four.fieldV .p1 0) hfour
    revert hcol
    decide +kernel

end CCode.ConnectFour
