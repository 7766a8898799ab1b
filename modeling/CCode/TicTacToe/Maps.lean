import CCode.Lib.Game
import CCode.Lib.Packed

/-!
# The tables of the tic-tac-toe board

The board has nine blocks of nine cells. A block is one word with two bits for each cell,
and so is the macro board with two bits for each block: who has won it, or that nobody
can. Points are packed into a byte, and tables take a point to its block and to its cell in
the block.

`finishMap` has the verdict for each of the `2 ^ 18` words. The loops of `init_maps` first
look for lines, and then, in the same array, fill the empty cells of an undecided word for
each player in turn to see whether he could still complete one. The loops are modelled as
they are, over the whole array; `finishMap_eq` says what is in it.

## Main definitions

* `gb1`, `sb1`, `cb1`, `gb2`, `sb2` — the macros of `ttt.h`.
* `point`, `blockMap`, `posMap`, `bo2poMap` — points.
* `finishMap` — the verdicts, by the loops of the source.
* `Line`, `CanWin` — what the verdicts are about.
-/

namespace CCode.TicTacToe

open CCode.Lib

/-- `TTT_BLK_NUM`. -/
abbrev tttBlkNum : ℕ := 9

/-- `EMPTY`, a cell without a stone. -/
abbrev empty : ℕ := 0

/-- `NORMAL`, the verdict of an undecided block. -/
abbrev normal : ℕ := 0

/-- `DRAW`. -/
abbrev draw : ℕ := 3

/-! ## Two bits of a word -/

/-- `GB1`. -/
def gb1 (n bit : ℕ) : ℕ := (n >>> bit) &&& 3

/-- `SB1`. -/
def sb1 (n s bit : ℕ) : ℕ := n ||| (s <<< bit)

/-- `CB1`. -/
def cb1 (n bit : ℕ) : ℕ := Nat.ldiff n (3 <<< bit)

/-- `GB2`. -/
def gb2 (n bit : ℕ) : ℕ := gb1 n (bit * 2)

/-- `SB2`. -/
def sb2 (n s bit : ℕ) : ℕ := sb1 n s (bit * 2)

theorem gb2_eq (n k : ℕ) : gb2 n k = Packed.get 2 n k := rfl

theorem cb1_eq (n k : ℕ) : cb1 n (k * 2) = Packed.clear 2 n k := rfl

/-! ## Points -/

/-- `POINT`, a `point_t`. -/
def point (x y : ℕ) : ℕ := ((x <<< 4) ||| y) % 256

/-- `POINT_X`. -/
def pointX (p : ℕ) : ℕ := p >>> 4

/-- `POINT_Y`. -/
def pointY (p : ℕ) : ℕ := p &&& 0x0F

/-- `blockMap`, the block of a point. -/
def blockMap (p : ℕ) : ℕ := pointX p / 3 + (pointY p / 3) * 3

/-- `blockOffMap`. -/
def blockOffMap (p : ℕ) : ℕ := blockMap p * 2

/-- `posMap`, the cell of a point in its block. -/
def posMap (p : ℕ) : ℕ := pointX p % 3 + (pointY p % 3) * 3

/-- `posOffMap`. -/
def posOffMap (p : ℕ) : ℕ := posMap p * 2

/-- `bo2poMap`, the point of a cell of a block. -/
def bo2poMap (b o : ℕ) : ℕ := point (3 * (b % 3) + o % 3) (3 * (b / 3) + o / 3)

/-- A point of the board. -/
def OnBoard (p : ℕ) : Prop := ∃ x < 9, ∃ y < 9, p = point x y

theorem bo2poMap_spec : ∀ b < tttBlkNum, ∀ o < tttBlkNum,
    blockMap (bo2poMap b o) = b ∧ posMap (bo2poMap b o) = o := by
  decide

theorem bo2poMap_onBoard {b o : ℕ} (hb : b < tttBlkNum) (ho : o < tttBlkNum) :
    OnBoard (bo2poMap b o) := by
  simp only [tttBlkNum] at hb ho
  exact ⟨3 * (b % 3) + o % 3, by omega, 3 * (b / 3) + o / 3, by omega, rfl⟩

theorem point_spec : ∀ x < 9, ∀ y < 9, blockMap (point x y) < tttBlkNum ∧
    posMap (point x y) < tttBlkNum := by
  decide

namespace OnBoard

variable {p : ℕ}

theorem block_lt (h : OnBoard p) : blockMap p < tttBlkNum := by
  obtain ⟨x, hx, y, hy, rfl⟩ := h
  exact (point_spec x hx y hy).1

theorem pos_lt (h : OnBoard p) : posMap p < tttBlkNum := by
  obtain ⟨x, hx, y, hy, rfl⟩ := h
  exact (point_spec x hx y hy).2

end OnBoard

/-! ## The verdicts -/

/-- The player has the three cells. -/
def three (i id a b c : ℕ) : Bool := gb2 i a == id && gb2 i b == id && gb2 i c == id

/-- The body of the loop over the players, in the loop that looks for lines. -/
def winFor (i : ℕ) (map : ℕ → ℕ) (id : ℕ) : ℕ → ℕ :=
  if three i id 2 4 6 then Function.update map i id
  else if three i id 0 4 8 then Function.update map i id
  else
    let map := if [0, 1, 2].any fun j => three i id (j + 0) (j + 3) (j + 6) then
      Function.update map i id else map
    if map i = 1 then map
    else if [0, 3, 6].any fun j => three i id (j + 0) (j + 1) (j + 2) then
      Function.update map i id
    else map

/-- The loop that looks for lines, at one word. -/
def winStep (map : ℕ → ℕ) (i : ℕ) : ℕ → ℕ := [1, 2].foldl (winFor i) map

/-- The word with the player's stones in all empty cells. -/
def fill (i id : ℕ) : ℕ :=
  (List.range tttBlkNum).foldl (fun tmp j => if gb2 tmp j = empty then sb2 tmp id j else tmp) i

/-- The loop that looks for draws, at one word. -/
def drawStep (map : ℕ → ℕ) (i : ℕ) : ℕ → ℕ :=
  if map i ≠ normal then map
  else
    let map := Function.update map i draw
    if [1, 2].any fun id => map (fill i id) == id then Function.update map i normal else map

/-- `1<<(TTT_BLK_NUM*2)`, the number of words. -/
def mapSize : ℕ := 2 ^ (tttBlkNum * 2)

/-- The array after the first loop. -/
@[irreducible] def winMap : ℕ → ℕ := (List.range mapSize).foldl winStep fun _ => 0

/-- `finishMap`, the array after both loops. -/
@[irreducible] def finishMap : ℕ → ℕ := (List.range mapSize).foldl drawStep winMap

/-! ## The first loop -/

/-- What the body of the first loop leaves at a word. -/
def winVal (i id old : ℕ) : ℕ :=
  if three i id 2 4 6 then id
  else if three i id 0 4 8 then id
  else
    let old := if [0, 1, 2].any fun j => three i id (j + 0) (j + 3) (j + 6) then id else old
    if old = 1 then old
    else if [0, 3, 6].any fun j => three i id (j + 0) (j + 1) (j + 2) then id
    else old

theorem winFor_eq (i : ℕ) (map : ℕ → ℕ) (id : ℕ) :
    winFor i map id = Function.update map i (winVal i id (map i)) := by
  simp only [winFor, winVal]
  split_ifs <;> simp_all

/-- The first loop decides each word by itself. -/
theorem winStep_eq (map : ℕ → ℕ) (i : ℕ) :
    winStep map i = Function.update map i (winVal i 2 (winVal i 1 (map i))) := by
  simp [winStep, winFor_eq]

/-- The verdict of the first loop on a word. -/
def winOf (i : ℕ) : ℕ := winVal i 2 (winVal i 1 0)

theorem foldl_winStep (n k : ℕ) :
    (List.range n).foldl winStep (fun _ => 0) k = if k < n then winOf k else 0 := by
  induction n with
  | zero => rfl
  | succ n ih =>
      rw [List.range_succ, List.foldl_append, List.foldl_cons, List.foldl_nil, winStep_eq]
      by_cases hk : k = n
      · rw [hk] at ih ⊢
        rw [Function.update_self, ih]
        simp [winOf]
      · have hlt : k < n + 1 ↔ k < n := by omega
        simp only [Function.update_of_ne hk, ih, hlt]

/-! ## The second loop -/

/-- The verdict on a word: a line decides it, and without one it is a draw unless a player
who fills all empty cells has a line. -/
def verdict (i : ℕ) : ℕ :=
  if winOf i ≠ normal then winOf i
  else if [1, 2].any fun id => winOf (fill i id) == id then normal else draw

/-- The second loop keeps the words with a line, and makes none of the others one. -/
theorem verdict_eq_id_iff {i id : ℕ} (hid : id ∈ [1, 2]) : verdict i = id ↔ winOf i = id := by
  simp only [List.mem_cons, List.not_mem_nil, or_false] at hid
  simp only [verdict, normal, draw]
  split_ifs <;> omega

/-- The first cells filled. -/
theorem foldl_fill {i id : ℕ} (hi : i < mapSize) (hid : id < 4) {m : ℕ}
    (hm : m ≤ tttBlkNum) :
    let tmp := (List.range m).foldl (fun tmp j => if gb2 tmp j = empty then sb2 tmp id j else tmp) i
    tmp < mapSize ∧
      ∀ j, gb2 tmp j = if j < m ∧ gb2 i j = empty then id else gb2 i j := by
  induction m with
  | zero => exact ⟨hi, fun j => by simp⟩
  | succ m ih =>
      obtain ⟨hlt, hget⟩ := ih (by omega)
      rw [List.range_succ, List.foldl_append, List.foldl_cons, List.foldl_nil]
      generalize (List.range m).foldl _ i = tmp at hlt hget
      have hm' : gb2 tmp m = gb2 i m := by simp [hget]
      split_ifs with hemp
      · refine ⟨Packed.put_lt hlt (by omega) hid, ?_⟩
        intro j
        by_cases hj : j = m
        · rw [hj, if_pos ⟨Nat.lt_succ_self m, hm' ▸ hemp⟩]
          exact Packed.get_put_self hemp hid
        · have hlt : j < m + 1 ↔ j < m := by omega
          simp only [hlt, ← hget]
          exact Packed.get_put_of_ne hj hid
      · refine ⟨hlt, ?_⟩
        intro j
        by_cases hj : j = m
        · rw [hj, hm', if_neg fun h => hemp (hm'.trans h.2)]
        · have hlt : j < m + 1 ↔ j < m := by omega
          simp only [hlt, ← hget]

theorem fill_lt {i id : ℕ} (hi : i < mapSize) (hid : id < 4) :
    fill i id < mapSize :=
  (foldl_fill hi hid le_rfl).1

theorem gb2_fill {i id : ℕ} (hi : i < mapSize) (hid : id < 4) {j : ℕ}
    (hj : j < tttBlkNum) : gb2 (fill i id) j = if gb2 i j = empty then id else gb2 i j := by
  have h := (foldl_fill hi hid le_rfl).2 j
  simp only [hj, true_and] at h
  exact h

theorem winMap_eq {k : ℕ} (hk : k < mapSize) : winMap k = winOf k := by
  unfold winMap
  rw [foldl_winStep, if_pos hk]

/-- The second loop decides the words in order. It looks at words that it has decided and
at others, and at those with a line, which are the ones it asks for, the two agree. -/
theorem foldl_drawStep {n : ℕ} (hn : n ≤ mapSize) (k : ℕ) :
    (List.range n).foldl drawStep winMap k = if k < n then verdict k else winMap k := by
  induction n generalizing k with
  | zero => rw [if_neg (Nat.not_lt_zero k), List.range_zero, List.foldl_nil]
  | succ n ih =>
      rw [List.range_succ, List.foldl_append, List.foldl_cons, List.foldl_nil]
      have hmap := fun k => ih (by omega) k
      generalize (List.range n).foldl drawStep winMap = map at hmap
      have hself : map n = winOf n := by rw [hmap, if_neg (by omega), winMap_eq (by omega)]
      have hask : winOf n = normal → ∀ id ∈ [1, 2],
          (Function.update map n draw (fill n id) = id ↔ winOf (fill n id) = id) := by
        intro hnorm id hid
        have hid' : id = 1 ∨ id = 2 := by simpa using hid
        have hfill : fill n id < mapSize := fill_lt (by omega) (by omega)
        by_cases hf : fill n id = n
        · rw [hf, Function.update_self, hnorm]
          simp only [normal, draw]
          omega
        · rw [Function.update_of_ne hf, hmap, winMap_eq hfill, ← verdict_eq_id_iff hid]
          split_ifs
          · rfl
          · exact (verdict_eq_id_iff hid).symm
      have hstep : drawStep map n = Function.update map n (verdict n) := by
        by_cases hline : winOf n = normal
        · have hany : ([1, 2].any fun id => Function.update map n draw (fill n id) == id) =
              [1, 2].any fun id => winOf (fill n id) == id := by
            rw [Bool.eq_iff_iff, List.any_eq_true, List.any_eq_true]
            simp only [beq_iff_eq]
            exact exists_congr fun id => and_congr_right (hask hline id)
          simp only [drawStep, verdict, hself, hline, ne_eq, not_true_eq_false, if_false, hany]
          split_ifs
          · exact Function.update_idem _ _ _
          · rfl
        · simp only [drawStep, verdict, hself, ne_eq, hline, not_false_eq_true, if_true]
          rw [← hself, Function.update_eq_self]
      rw [hstep]
      by_cases hk : k = n
      · rw [hk, Function.update_self, if_pos (Nat.lt_succ_self n)]
      · have hlt : k < n + 1 ↔ k < n := by omega
        rw [Function.update_of_ne hk, hmap]
        simp only [hlt]

/-- **What the two loops compute.** -/
theorem finishMap_eq {k : ℕ} (hk : k < mapSize) : finishMap k = verdict k := by
  unfold finishMap
  rw [foldl_drawStep le_rfl, if_pos hk]

/-! ## What the verdicts mean -/

/-- The lines of a block: the diagonals, the columns and the rows. -/
def lines : List (List ℕ) :=
  [[2, 4, 6], [0, 4, 8], [0, 3, 6], [1, 4, 7], [2, 5, 8], [0, 1, 2], [3, 4, 5], [6, 7, 8]]

/-- The player has a line. -/
def Line (id : Player) (i : ℕ) : Prop := ∃ l ∈ lines, ∀ c ∈ l, gb2 i c = id.id

/-- The player could still complete a line. -/
def CanWin (id : Player) (i : ℕ) : Prop :=
  ∃ l ∈ lines, ∀ c ∈ l, gb2 i c = empty ∨ gb2 i c = id.id

instance (id : Player) (i : ℕ) : Decidable (Line id i) :=
  inferInstanceAs (Decidable (∃ l ∈ lines, ∀ c ∈ l, gb2 i c = id.id))

instance (id : Player) (i : ℕ) : Decidable (CanWin id i) :=
  inferInstanceAs (Decidable (∃ l ∈ lines, ∀ c ∈ l, gb2 i c = empty ∨ gb2 i c = id.id))

theorem lines_lt : ∀ l ∈ lines, ∀ c ∈ l, c < tttBlkNum := by decide

theorem Line.canWin {id : Player} {i : ℕ} (h : Line id i) : CanWin id i := by
  obtain ⟨l, hl, hc⟩ := h
  exact ⟨l, hl, fun c hcl => .inr (hc c hcl)⟩

/-- The four tests of the first loop find a line together. -/
theorem line_iff (id : Player) (i : ℕ) :
    Line id i ↔ three i id.id 2 4 6 ∨ three i id.id 0 4 8 ∨
      ([0, 1, 2].any fun j => three i id.id (j + 0) (j + 3) (j + 6)) ∨
      [0, 3, 6].any fun j => three i id.id (j + 0) (j + 1) (j + 2) := by
  simp [Line, lines, three, and_assoc]
  grind

theorem player_id_cases (id : Player) : id.id = 1 ∨ id.id = 2 := by
  cases id
  · exact .inl rfl
  · exact .inr rfl

/-- The body of the first loop puts the player in if he has a line, unless the word is the
first player's already: then it may not look at the rows. -/
theorem winVal_cases (id : Player) (i old : ℕ) :
    (winVal i id.id old = id.id ∧ Line id i) ∨
      (winVal i id.id old = old ∧ (Line id i → old = 1)) := by
  rw [line_iff]
  simp only [winVal]
  split_ifs <;> simp_all

/-- The first loop answers with a player who has a line, if there is one. -/
theorem winOf_cases (i : ℕ) :
    (winOf i = normal ∧ ∀ id, ¬ Line id i) ∨ ∃ id : Player, winOf i = id.id ∧ Line id i := by
  have hwin : winOf i = winVal i Player.p2.id (winVal i Player.p1.id 0) := rfl
  rcases winVal_cases .p1 i 0 with ⟨h1, hl1⟩ | ⟨h1, hl1⟩
  · right
    rw [hwin, h1]
    rcases winVal_cases .p2 i Player.p1.id with ⟨h2, hl2⟩ | ⟨h2, -⟩
    · exact ⟨.p2, h2, hl2⟩
    · exact ⟨.p1, h2, hl1⟩
  · rw [hwin, h1]
    rcases winVal_cases .p2 i 0 with ⟨h2, hl2⟩ | ⟨h2, hl2⟩
    · exact .inr ⟨.p2, h2, hl2⟩
    · left
      refine ⟨h2, ?_⟩
      intro id hl
      cases id
      · exact absurd (hl1 hl) (by decide)
      · exact absurd (hl2 hl) (by decide)

/-- The only player with a line has won. -/
theorem winOf_eq_iff {id : Player} {i : ℕ} (hop : ¬ Line id.opId i) :
    winOf i = id.id ↔ Line id i := by
  have hid := player_id_cases id
  rcases winOf_cases i with ⟨hw, hno⟩ | ⟨id', hw, hl⟩
  · rw [hw]
    exact iff_of_false (by simp only [normal]; omega) (hno id)
  · rcases id.eq_or_eq_opId id' with rfl | rfl
    · exact iff_of_true hw hl
    · exact absurd hl hop

theorem winOf_eq_normal_iff (i : ℕ) : winOf i = normal ↔ ∀ id, ¬ Line id i := by
  rcases winOf_cases i with ⟨hw, hno⟩ | ⟨id, hw, hl⟩
  · exact iff_of_true hw hno
  · have hid := player_id_cases id
    refine iff_of_false ?_ fun hno => hno id hl
    rw [hw]
    simp only [normal]
    omega

section Fill

variable {i : ℕ} {id : Player}

/-- A player who fills all empty cells has the lines that he could complete. -/
theorem line_fill_self (hi : i < mapSize) : Line id (fill i id.id) ↔ CanWin id i := by
  have hid := player_id_cases id
  refine exists_congr fun l => and_congr_right fun hl => forall₂_congr fun c hc => ?_
  rw [gb2_fill hi (by omega) (lines_lt l hl c hc)]
  split_ifs with h
  · exact iff_of_true rfl (.inl h)
  · exact ⟨.inr, fun hor => hor.resolve_left h⟩

/-- The other player gets no line by it. -/
theorem line_fill_opId (hi : i < mapSize) : Line id.opId (fill i id.id) ↔ Line id.opId i := by
  have hid := player_id_cases id
  have hop := id.id_opId
  refine exists_congr fun l => and_congr_right fun hl => forall₂_congr fun c hc => ?_
  rw [gb2_fill hi (by omega) (lines_lt l hl c hc)]
  split_ifs with h
  · rw [h]
    simp only [empty]
    omega
  · rfl

end Fill

/-- A word is undecided if nobody has a line and somebody could still complete one. -/
def Undecided (i : ℕ) : Prop := (∀ id, ¬ Line id i) ∧ ∃ id, CanWin id i

theorem verdict_eq_normal_iff {i : ℕ} (hi : i < mapSize) :
    verdict i = normal ↔ Undecided i := by
  rw [Undecided, ← winOf_eq_normal_iff]
  by_cases hw : winOf i = normal
  · have hno := (winOf_eq_normal_iff i).mp hw
    have hfill : ∀ id : Player, winOf (fill i id.id) = id.id ↔ CanWin id i := by
      intro id
      rw [winOf_eq_iff, line_fill_self hi]
      rw [line_fill_opId hi]
      exact hno id.opId
    have hany : ([1, 2].any fun id => winOf (fill i id) == id) = true ↔ ∃ id, CanWin id i := by
      simp only [List.any_cons, List.any_nil, Bool.or_false, Bool.or_eq_true, beq_iff_eq]
      constructor
      · intro h
        rcases h with h | h
        · exact ⟨.p1, (hfill .p1).mp h⟩
        · exact ⟨.p2, (hfill .p2).mp h⟩
      · intro ⟨id, h⟩
        cases id
        · exact .inl ((hfill .p1).mpr h)
        · exact .inr ((hfill .p2).mpr h)
    simp only [verdict, hw, ne_eq, not_true_eq_false, if_false, true_and, ← hany]
    split_ifs with h
    · exact iff_of_true rfl h
    · exact iff_of_false (by decide) h
  · simp [verdict, hw]

/-! ## The verdicts in the table -/

section FinishMap

variable {i : ℕ} {id : Player}

/-- A word is undecided in the table exactly if it is. -/
theorem finishMap_eq_normal_iff (hi : i < mapSize) : finishMap i = normal ↔ Undecided i := by
  rw [finishMap_eq hi, verdict_eq_normal_iff hi]

/-- A player in the table has a line. -/
theorem line_of_finishMap (hi : i < mapSize) (h : finishMap i = id.id) : Line id i := by
  have hid : id.id ∈ [1, 2] := by
    have := player_id_cases id
    simpa using this
  rw [finishMap_eq hi, verdict_eq_id_iff hid] at h
  rcases winOf_cases i with ⟨hw, -⟩ | ⟨id', hw, hl⟩
  · rw [hw] at h
    simp [← h] at hid
  · obtain rfl : id' = id := by
      rw [h] at hw
      cases id <;> cases id' <;> simp [Player.id] at hw ⊢
    exact hl

/-- The only player with a line is in the table. -/
theorem finishMap_of_line (hi : i < mapSize) (hl : Line id i) (hop : ¬ Line id.opId i) :
    finishMap i = id.id := by
  have hid : id.id ∈ [1, 2] := by
    have := player_id_cases id
    simpa using this
  rw [finishMap_eq hi, verdict_eq_id_iff hid, winOf_eq_iff hop]
  exact hl

/-- The values in the table. -/
theorem finishMap_cases (hi : i < mapSize) :
    finishMap i = normal ∨ (∃ id : Player, finishMap i = id.id) ∨ finishMap i = draw := by
  rw [finishMap_eq hi, verdict]
  rcases winOf_cases i with ⟨hw, -⟩ | ⟨id, hw, -⟩
  · simp only [hw, ne_eq, not_true_eq_false, if_false]
    split_ifs
    · exact .inl rfl
    · exact .inr (.inr rfl)
  · split_ifs
    · exact .inr (.inl ⟨id, hw⟩)
    · exact .inl rfl
    · exact .inr (.inr rfl)

/-- A verdict fits into two bits. -/
theorem finishMap_lt (i : ℕ) : finishMap i < 4 := by
  by_cases hi : i < mapSize
  · rcases finishMap_cases hi with h | ⟨id, h⟩ | h
    · rw [h]
      decide
    · have := player_id_cases id
      omega
    · rw [h]
      decide
  · unfold finishMap
    rw [foldl_drawStep le_rfl, if_neg hi]
    unfold winMap
    rw [foldl_winStep, if_neg hi]
    decide

theorem finishMap_zero : finishMap 0 = normal := by
  rw [finishMap_eq_normal_iff (by decide)]
  refine ⟨fun id => ?_, .p1, by decide⟩
  cases id
  · decide
  · decide

/-- A draw in the table is neither won nor can it be. -/
theorem finishMap_eq_draw_iff (hi : i < mapSize) :
    finishMap i = draw ↔ ∀ id, ¬ CanWin id i := by
  constructor
  · intro h
    have hund : ¬ Undecided i := by
      rw [← finishMap_eq_normal_iff hi, h]
      decide
    have hno : ∀ id, ¬ Line id i := by
      rw [← winOf_eq_normal_iff]
      by_contra hw
      obtain ⟨id, hid, -⟩ := (winOf_cases i).resolve_left fun hc => hw hc.1
      rw [finishMap_eq hi, verdict, if_pos hw, hid] at h
      cases id <;> exact absurd h (by decide)
    intro id hcan
    exact hund ⟨hno, id, hcan⟩
  · intro hno
    rcases finishMap_cases hi with h | ⟨id, h⟩ | h
    · obtain ⟨-, id, hcan⟩ := (finishMap_eq_normal_iff hi).mp h
      exact absurd hcan (hno id)
    · exact absurd (line_of_finishMap hi h).canWin (hno id)
    · exact h

/-- An undecided word has an empty cell. -/
theorem exists_empty (hi : i < mapSize) (h : finishMap i = normal) :
    ∃ c < tttBlkNum, gb2 i c = empty := by
  obtain ⟨hno, id, l, hl, hc⟩ := (finishMap_eq_normal_iff hi).mp h
  by_contra hall
  push Not at hall
  refine hno id ⟨l, hl, fun c hcl => ?_⟩
  exact (hc c hcl).resolve_left (hall c (lines_lt l hl c hcl))

end FinishMap

end CCode.TicTacToe
