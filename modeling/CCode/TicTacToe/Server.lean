import CCode.Lib.Scan
import CCode.TicTacToe.Rules

/-!
# The referee

`main` of `server.c` plays one game after another between two bots. For a move it sends the
field, the blocks that are marked in `m_field`, and `action move`, reads the reply into the
buffer that still has these texts, and takes the coordinates from it with `sscanf`. The
stone goes where `ttt_add` lets it, and a bot whose stone it refuses has lost.

Nothing else is looked at. Whether the reply had two numbers is not: the variables then keep
what was in them. Whether the numbers are on the board is not: `POINT` keeps eight bits of
them, and the tables take some of the others outside the board. And `m_field`, which is sent
to the bots, is not compared with the move at all. A turn is refereed as it should be exactly
if the reply does not get a stone placed in one of these ways, or leave the arrays.

## Main definitions

* `Match`, `Input`, `step` — the loops of `main`.
* `Legal`, `TurnOk` — what a referee has to do.
* `Refereed` — the replies for which it is done.

## Main results

* `turnOk_iff` — in a valid state, the one is the other.
* `referee_runs` — over whole runs.
-/

namespace CCode.TicTacToe

open CCode.Lib

/-! ## The texts -/

/-- The size of `str`. -/
abbrev strSize : ℕ := 1024

/-- The size of `tmp`. -/
abbrev tmpSize : ℕ := 80

/-- `get_m_field_str`. -/
def getMFieldStr (mField : ℕ → Int) : List UInt8 :=
  ascii "update game macroboard "
    ++ ((List.range 8).flatMap fun i => printD (mField i) ++ ascii ",")
    ++ printD (mField 8) ++ ascii "\n"

/-- `str` before the reply is read: `action move` with its NUL, written over the text for the
macro board, which had been written to a buffer of zeros. -/
def prompt (mField : ℕ → Int) : List UInt8 :=
  let str := getMFieldStr mField
  let str := str ++ List.replicate (strSize - str.length) 0
  let action := ascii "action move 10000\n" ++ [0]
  action ++ str.drop action.length

/-- A reply: what `stdio_read` gets, and the values that `x` and `y` happen to have where their
scope is entered. -/
structure Reply where
  text : List UInt8
  length_le : text.length ≤ strSize
  junk : UInt32 × UInt32

/-- What `sscanf` with `"%s %d %d"` converts. -/
structure Scan where
  tmp : Option (List UInt8)
  x : Option UInt32
  y : Option UInt32
  deriving DecidableEq

/-- `sscanf` of the reply. -/
def sscanf (str : List UInt8) : Scan :=
  match scanS str with
  | none => ⟨none, none, none⟩
  | some (tmp, str) =>
      match scanD str with
      | none => ⟨some tmp, none, none⟩
      | some (x, str) =>
          match scanD str with
          | none => ⟨some tmp, some x, none⟩
          | some (y, _) => ⟨some tmp, some x, some y⟩

/-! ## The match -/

/-- Where `main` is: before the first game, in a game, or behind one. -/
inductive Pc
  | start
  | playing
  | over (winner : ℕ)
  deriving DecidableEq

/-- The variables of `main`. `id1IsApp1` is `id1 == app1`. -/
structure Match where
  ttt : Ttt
  mField : ℕ → Int
  x : UInt32
  y : UInt32
  id1IsApp1 : Bool
  turn : Player
  record : List UInt32
  score : ℕ → ℕ
  pc : Pc

/-- `main` before its loop. -/
def start : Match :=
  { ttt := resetField, mField := fun _ => 0, x := 0, y := 0, id1IsApp1 := true, turn := .p1,
    record := [], score := fun _ => 0, pc := .start }

/-- What happens next: the toss for a game, or a reply of the bot whose turn it is. -/
inductive Input
  | toss (heads : Bool)
  | reply (r : Reply)

namespace Match

/-- The application, 1 or 2, that plays as `id`. -/
def app (s : Match) (id : Player) : ℕ :=
  match id with
  | .p1 => if s.id1IsApp1 then 1 else 2
  | .p2 => if s.id1IsApp1 then 2 else 1

/-- `break`, and the score. -/
def finish (s : Match) (winner : ℕ) : Match :=
  let entry := if winner = 1 then 0 else if winner = 2 then 2 else 1
  { s with score := Function.update s.score entry (s.score entry + 1), pc := .over winner }

/-- What `sscanf` finds for the reply, `none` if the buffer has no end of the string. -/
def scan (s : Match) (r : Reply) : Option Scan :=
  (cString (r.text ++ (prompt s.mField).drop r.text.length)).map sscanf

/-- The coordinates as they are in the variables then. `x` and `y` live for one round: the
second bot's turn starts with those of the first. -/
def coords (s : Match) (r : Reply) (c : Scan) : UInt32 × UInt32 :=
  let old := match s.turn with
    | .p1 => r.junk
    | .p2 => (s.x, s.y)
  (c.x.getD old.1, c.y.getD old.2)

/-- The point that `ttt_add` gets. -/
def target (s : Match) (r : Reply) (c : Scan) : ℕ :=
  point (s.coords r c).1.toNat (s.coords r c).2.toNat

/-- The conversions stay in `tmp`, and the table entry is a block. -/
def InBounds (s : Match) (r : Reply) (c : Scan) : Prop :=
  (c.tmp.getD []).length < tmpSize ∧ blockMap (s.target r c) < tttBlkNum

instance (s : Match) (r : Reply) (c : Scan) : Decidable (s.InBounds r c) :=
  inferInstanceAs (Decidable (_ ∧ _))

/-- What follows on a stone that was added at `p`. -/
def moveOn (s : Match) (p : ℕ) : Match :=
  let s := { s with record := s.record ++ [(s.x <<< 4) ||| s.y] }
  let r := tttIsMFinish s.ttt
  if r = s.turn.id then s.finish (s.app s.turn)
  else if r = draw then s.finish 0
  else { s with mField := setMField s.ttt p, turn := s.turn.opId }

/-- A turn of the game, `none` where an array is left. -/
def takeTurn (s : Match) (r : Reply) : Option Match := do
  let c ← s.scan r
  if s.InBounds r c then
    let (x, y) := s.coords r c
    let p := s.target r c
    let (ret, ttt) := tttAdd s.ttt s.turn p
    let s := { s with ttt := ttt, x := x, y := y }
    some (if ret < 0 then s.finish (s.app s.turn.opId) else s.moveOn p)
  else none

end Match

/-- One step of `main`. -/
def step (s : Match) : Input → Option Match
  | .toss heads =>
      if s.pc = .playing then none
      else some { s with
        ttt := resetField
        mField := fun _ => -1
        id1IsApp1 := heads
        turn := .p1
        record := []
        pc := .playing }
  | .reply r => if s.pc = .playing then s.takeTurn r else none

/-! ## What a referee has to do -/

/-- The reply is a move that is allowed: it has coordinates on the board, the cell there is
empty, its block is unfinished, and the block is marked. -/
def Legal (s : Match) (r : Reply) (x y : ℕ) : Prop :=
  (∃ c, s.scan r = some c ∧ c.x.map UInt32.toNat = some x ∧ c.y.map UInt32.toNat = some y) ∧
    x < 9 ∧ y < 9 ∧ s.ttt.cell (x / 3 + y / 3 * 3) (x % 3 + y % 3 * 3) = empty ∧
    finishMap (s.ttt.sField (x / 3 + y / 3 * 3)) = normal ∧
    s.mField (x / 3 + y / 3 * 3) = -1

/-- A move that is allowed is placed; any other reply loses the game, with the board as it
was. -/
def TurnOk (s : Match) (r : Reply) : Prop :=
  ∃ s', s.takeTurn r = some s' ∧
    (∀ x y, Legal s r x y → s'.ttt = s.ttt.place s.turn (point x y)) ∧
    ((∀ x y, ¬ Legal s r x y) → s'.ttt = s.ttt ∧ s'.pc = .over (s.app s.turn.opId))

/-- The reply stays in the arrays, and if the point made of the variables is free, then both
of them are from the reply, they are on the board, and the block is marked. -/
def Refereed (s : Match) (r : Reply) : Prop :=
  ∃ c, s.scan r = some c ∧ s.InBounds r c ∧
    (s.ttt.Free (s.target r c) → ∃ x y, c.x = some x ∧ c.y = some y ∧
      x.toNat < 9 ∧ y.toNat < 9 ∧ s.mField (blockMap (s.target r c)) = -1)

/-! ## A turn -/

section Turn

variable {s s' : Match} {r : Reply} {c : Scan}

@[simp] theorem ttt_moveOn (s : Match) (p : ℕ) : (s.moveOn p).ttt = s.ttt := by
  simp only [Match.moveOn]
  split_ifs <;> rfl

/-- Where a stone is refused, the bot has lost. -/
theorem takeTurn_not_free (hc : s.scan r = some c) (hin : s.InBounds r c)
    (hf : ¬ s.ttt.Free (s.target r c)) :
    ∃ s', s.takeTurn r = some s' ∧ s'.ttt = s.ttt ∧ s'.pc = .over (s.app s.turn.opId) := by
  simp only [Match.takeTurn, hc, Option.bind_eq_bind, Option.bind_some, if_pos hin,
    tttAdd_not_free hf, if_pos (show (-1 : Int) < 0 by decide)]
  exact ⟨_, rfl, rfl, rfl⟩

/-- Otherwise it is placed. -/
theorem takeTurn_free (hc : s.scan r = some c) (hin : s.InBounds r c)
    (hf : s.ttt.Free (s.target r c)) :
    ∃ s', s.takeTurn r = some s' ∧ s'.ttt = s.ttt.place s.turn (s.target r c) := by
  simp only [Match.takeTurn, hc, Option.bind_eq_bind, Option.bind_some, if_pos hin,
    tttAdd_free hf, if_neg (show ¬ (0 : Int) < 0 by decide)]
  exact ⟨_, rfl, ttt_moveOn _ _⟩

/-- As long as nobody has won, the other bot is sent the blocks that the stone leads to. -/
theorem takeTurn_going (hc : s.scan r = some c) (hin : s.InBounds r c)
    (hf : s.ttt.Free (s.target r c))
    (hm : tttIsMFinish (s.ttt.place s.turn (s.target r c)) = normal) :
    ∃ s', s.takeTurn r = some s' ∧ s'.ttt = s.ttt.place s.turn (s.target r c) ∧ s'.pc = s.pc ∧
      s'.mField = setMField (s.ttt.place s.turn (s.target r c)) (s.target r c) := by
  have hid : normal ≠ s.turn.id := by cases s.turn <;> decide
  simp only [Match.takeTurn, hc, Option.bind_eq_bind, Option.bind_some, if_pos hin,
    tttAdd_free hf, if_neg (show ¬ (0 : Int) < 0 by decide), Match.moveOn, hm, if_neg hid,
    if_neg (show normal ≠ draw by decide)]
  exact ⟨_, rfl, rfl, rfl, rfl⟩

/-- Outside the arrays nothing is defined. -/
theorem takeTurn_eq_some (h : s.takeTurn r = some s') :
    ∃ c, s.scan r = some c ∧ s.InBounds r c := by
  simp only [Match.takeTurn, Option.bind_eq_bind, Option.bind_eq_some_iff] at h
  obtain ⟨c, hc, h⟩ := h
  refine ⟨c, hc, ?_⟩
  by_contra hin
  rw [if_neg hin] at h
  cases h

/-- The tables on coordinates of the board. -/
theorem point_coords : ∀ x < 9, ∀ y < 9, blockMap (point x y) = x / 3 + y / 3 * 3 ∧
    posMap (point x y) = x % 3 + y % 3 * 3 := by
  decide

/-- The cell of a point is one of the nine, also for a point outside the board. -/
theorem posMap_lt (p : ℕ) : posMap p < tttBlkNum := by
  rw [posMap, tttBlkNum]
  omega

/-- A stone changes the board. -/
theorem place_ne {ttt : Ttt} {p : ℕ} (hf : ttt.Free p) (id : Player) : ttt.place id p ≠ ttt := by
  intro heq
  have hcell := cell_place hf id (blockMap p) (posMap p)
  rw [heq, hf.2, if_pos ⟨rfl, rfl⟩] at hcell
  cases id <;> exact absurd hcell (by decide)

/-- A stone on a point whose block is on the board keeps the invariant. -/
theorem Ttt.Valid.place_of_lt {ttt : Ttt} {p : ℕ} (h : ttt.Valid) (hp : blockMap p < tttBlkNum)
    (hf : ttt.Free p) (id : Player) : (ttt.place id p).Valid := by
  obtain ⟨hblock, hpos⟩ := bo2poMap_spec _ hp _ (posMap_lt p)
  have hplace : ttt.place id p = ttt.place id (bo2poMap (blockMap p) (posMap p)) := by
    simp only [Ttt.place, Ttt.stone, hblock, hpos]
  rw [hplace]
  refine h.place (bo2poMap_onBoard hp (posMap_lt p)) ?_ id
  rwa [Ttt.Free, hblock, hpos]

/-- The coordinates of a move that is allowed are those in the variables, and the point is
free. -/
theorem Legal.free (hv : s.ttt.Valid) {x y : ℕ} (h : Legal s r x y) (hc : s.scan r = some c) :
    s.target r c = point x y ∧ s.ttt.Free (point x y) := by
  obtain ⟨⟨c', hc', hx, hy⟩, hx9, hy9, hcell, hfin, -⟩ := h
  obtain rfl : c = c' := Option.some.inj (hc.symm.trans hc')
  obtain ⟨hblock, hpos⟩ := point_coords x hx9 y hy9
  obtain ⟨x', hx', rfl⟩ := Option.map_eq_some_iff.mp hx
  obtain ⟨y', hy', rfl⟩ := Option.map_eq_some_iff.mp hy
  refine ⟨?_, ?_, ?_⟩
  · simp only [Match.target, Match.coords, hx', hy', Option.getD_some]
  · rw [hv.verdicts _ (point_spec _ hx9 _ hy9).1, hblock, hfin]
  · rw [hblock, hpos, hcell]

/-- **A turn.** On a valid board the referee does what it has to exactly for these replies. -/
theorem turnOk_iff (hv : s.ttt.Valid) (r : Reply) : TurnOk s r ↔ Refereed s r := by
  constructor
  · intro h
    obtain ⟨s', hs', hlegal, hother⟩ := h
    obtain ⟨c, hc, hin⟩ := takeTurn_eq_some hs'
    refine ⟨c, hc, hin, ?_⟩
    intro hf
    obtain ⟨s₁, hs₁, hplaced⟩ := takeTurn_free hc hin hf
    obtain rfl : s' = s₁ := Option.some.inj (hs'.symm.trans hs₁)
    -- a stone was placed, so the reply must have been a move that is allowed
    obtain ⟨x, y, hxy⟩ : ∃ x y, Legal s r x y := by
      by_contra hnone
      have hsame := (hother fun x y hxy => hnone ⟨x, y, hxy⟩).1
      exact place_ne hf s.turn (hplaced.symm.trans hsame)
    have htarget := (hxy.free hv hc).1
    obtain ⟨⟨c', hc', hx, hy⟩, hx9, hy9, -, -, hmark⟩ := hxy
    obtain rfl : c = c' := Option.some.inj (hc.symm.trans hc')
    obtain ⟨x', hx', rfl⟩ := Option.map_eq_some_iff.mp hx
    obtain ⟨y', hy', rfl⟩ := Option.map_eq_some_iff.mp hy
    refine ⟨x', y', hx', hy', hx9, hy9, ?_⟩
    rw [htarget, (point_coords _ hx9 _ hy9).1, hmark]
  · intro h
    obtain ⟨c, hc, hin, hplace⟩ := h
    by_cases hf : s.ttt.Free (s.target r c)
    · obtain ⟨x, y, hx, hy, hx9, hy9, hmark⟩ := hplace hf
      have htarget : s.target r c = point x.toNat y.toNat := by
        simp only [Match.target, Match.coords, hx, hy, Option.getD_some]
      obtain ⟨hblock, hpos⟩ := point_coords _ hx9 _ hy9
      obtain ⟨s', hs', hplaced⟩ := takeTurn_free hc hin hf
      rw [htarget] at hf hplaced hmark
      have hlegal : Legal s r x.toNat y.toNat := by
        refine ⟨⟨c, hc, by rw [hx]; rfl, by rw [hy]; rfl⟩, hx9, hy9, ?_, ?_, ?_⟩
        · rw [← hblock, ← hpos]
          exact hf.2
        · rw [← hblock, ← hv.verdicts _ (point_spec _ hx9 _ hy9).1]
          exact hf.1
        · rw [← hblock, hmark]
      refine ⟨s', hs', ?_, fun hnone => absurd hlegal (hnone _ _)⟩
      intro x' y' h'
      rw [hplaced, ← htarget, (h'.free hv hc).1]
    · obtain ⟨s', hs', hsame, hover⟩ := takeTurn_not_free hc hin hf
      refine ⟨s', hs', ?_, fun _ => ⟨hsame, hover⟩⟩
      intro x y hxy
      obtain ⟨htarget, hfree⟩ := hxy.free hv hc
      rw [htarget] at hf
      exact absurd hfree hf

end Turn

/-! ## Replies as the bots send them -/

/-- The text that `main.c` prints for a move. -/
def moveText (x y : ℕ) : List UInt8 :=
  ascii "place_move" ++ 32 :: digit x :: 32 :: digit y :: [10]

theorem length_moveText (x y : ℕ) : (moveText x y).length = 15 := by
  simp only [moveText, List.length_append, List.length_cons, List.length_nil]
  rfl

theorem moveText_ne_zero : ∀ x < 9, ∀ y < 9,
    ((moveText x y).all fun b => decide (b ≠ 0)) = true := by
  decide

/-- Such a text is read as it was printed, whatever the buffer has behind it. -/
theorem scan_moveText (s : Match) {r : Reply} {x y : ℕ} (hx : x < 9) (hy : y < 9)
    (hr : r.text = moveText x y) :
    s.scan r = some ⟨some (ascii "place_move"), some (UInt32.ofNat x), some (UInt32.ofNat y)⟩ := by
  have hend : (0 : UInt8) ∈ (prompt s.mField).drop 15 := by
    have hdrop : (ascii "action move 10000\n" ++ [0]).drop 15 = [48, 48, 10, 0] := by decide
    rw [prompt, List.drop_append_of_le_length (by decide), hdrop]
    simp
  have hscan : ∀ rest, sscanf (moveText x y ++ rest)
      = ⟨some (ascii "place_move"), some (UInt32.ofNat x), some (UInt32.ofNat y)⟩ := by
    intro rest
    rw [sscanf, moveText, List.append_assoc, List.cons_append,
      scanS_word (by decide) (by decide) (by decide)]
    simp only [List.cons_append, List.nil_append]
    rw [scanD_digit (by omega) (by decide) (by decide)]
    simp only
    rw [scanD_digit (by omega) (by decide) (by decide)]
  rw [Match.scan, cString, hr, length_moveText, if_pos (List.mem_append_right _ hend),
    List.takeWhile_append_of_pos (List.all_eq_true.mp (moveText_ne_zero x hx y hy)),
    Option.map_some, hscan]

/-! ## Whole runs -/

/-- **The step lemma.** Every step keeps the board valid, also one that it should not have
let through. -/
theorem step_valid {s s' : Match} {a : Input} (hv : s.ttt.Valid) (h : step s a = some s') :
    s'.ttt.Valid := by
  cases a with
  | toss heads =>
      simp only [step, Option.ite_none_left_eq_some, Option.some.injEq] at h
      rw [← h.2]
      exact resetField_valid
  | reply r =>
      simp only [step, Option.ite_none_right_eq_some] at h
      obtain ⟨c, hc, hin⟩ := takeTurn_eq_some h.2
      by_cases hf : s.ttt.Free (s.target r c)
      · obtain ⟨s₁, hs₁, hplaced⟩ := takeTurn_free hc hin hf
        obtain rfl : s' = s₁ := Option.some.inj (h.2.symm.trans hs₁)
        rw [hplaced]
        exact hv.place_of_lt hin.2 hf s.turn
      · obtain ⟨s₁, hs₁, hsame, -⟩ := takeTurn_not_free hc hin hf
        obtain rfl : s' = s₁ := Option.some.inj (h.2.symm.trans hs₁)
        rw [hsame]
        exact hv

/-- **The run lemma.** The board is valid in every state of every run. -/
theorem valid_of_runs {ok : Match → Input → Prop} {ins : List Input} {s : Match}
    (h : Runs step ok start ins s) : s.ttt.Valid :=
  h.invariant resetField_valid fun _ _ _ hv _ hs => step_valid hv hs

/-- What is said of a turn holds for all turns of the games that are played with these
inputs. -/
def AllTurns (P : Match → Reply → Prop) (ins : List Input) : Prop :=
  ∀ pre r post s, ins = pre ++ .reply r :: post → Runs step (fun _ _ => True) start pre s →
    s.pc = .playing → P s r

/-- Every turn of a run is as it has to be exactly if every reply of it is one that is
refereed: then a reply that is a move on an empty cell of an unfinished and marked block is
placed, and every other one loses the game with the board as it was. -/
theorem referee_runs (ins : List Input) : AllTurns TurnOk ins ↔ AllTurns Refereed ins := by
  constructor
  · intro h pre r post s hins hrun hpc
    exact (turnOk_iff (valid_of_runs hrun) r).mp (h pre r post s hins hrun hpc)
  · intro h pre r post s hins hrun hpc
    exact (turnOk_iff (valid_of_runs hrun) r).mpr (h pre r post s hins hrun hpc)

/-- A reply with a text as the bots send it. -/
def moveReply (x y : ℕ) : Reply := ⟨moveText x y, by rw [length_moveText]; decide, (0, 0)⟩

/-- The match after the toss. -/
def tossed : Match := { start with mField := fun _ => -1, pc := .playing }

theorem runs_tossed : Runs step (fun _ _ => True) start ([] ++ [.toss true]) tossed :=
  .snoc .refl trivial rfl

/-- The point of a text as the bots send it. -/
theorem target_moveReply (s : Match) {x y : ℕ} (hx : x < 9) (hy : y < 9) :
    ∃ c, s.scan (moveReply x y) = some c ∧ c.x = some (UInt32.ofNat x) ∧
      c.y = some (UInt32.ofNat y) ∧ s.InBounds (moveReply x y) c ∧
      s.target (moveReply x y) c = point x y := by
  have hx32 : (UInt32.ofNat x).toNat = x := UInt32.toNat_ofNat_of_lt' (by rw [UInt32.size]; omega)
  have hy32 : (UInt32.ofNat y).toNat = y := UInt32.toNat_ofNat_of_lt' (by rw [UInt32.size]; omega)
  have htarget : s.target (moveReply x y)
      ⟨some (ascii "place_move"), some (UInt32.ofNat x), some (UInt32.ofNat y)⟩ = point x y := by
    simp only [Match.target, Match.coords, Option.getD_some, hx32, hy32]
  have hword : (ascii "place_move").length < tmpSize := by decide
  refine ⟨_, scan_moveText s hx hy rfl, rfl, rfl, ⟨hword, ?_⟩, htarget⟩
  rw [htarget]
  exact (point_spec x hx y hy).1

/-- A reply with a column that is not on the board. -/
def farReply : Reply := ⟨ascii "place_move 16 0\n", by decide, (0, 0)⟩

theorem scan_farReply :
    tossed.scan farReply = some ⟨some (ascii "place_move"), some 16, some 0⟩ := by
  decide

/-- The stone in the corner decides nothing. -/
theorem corner_normal : finishMap (resetField.stone .p1 (point 0 0)) = normal ∧
    tttIsMFinish (resetField.place .p1 (point 0 0)) = normal := by
  have hstone : finishMap (resetField.stone .p1 (point 0 0)) = normal := by
    rw [finishMap_eq_normal_iff (by decide)]
    refine ⟨fun id => ?_, .p1, by decide⟩
    cases id <;> decide
  refine ⟨hstone, ?_⟩
  rw [tttIsMFinish, Ttt.place, hstone]
  exact finishMap_zero

/-- Column 16 is taken for column 0; and after a stone in the corner, which sends the other
bot to the first block, its stone in the last block is placed. -/
theorem referee_lets_through :
    (∃ s s', Runs step (fun _ _ => True) start [.toss true] s ∧
      s.takeTurn farReply = some s' ∧ s'.ttt ≠ s.ttt ∧ ¬ TurnOk s farReply) ∧
    ∃ s s', Runs step (fun _ _ => True) start [.toss true, .reply (moveReply 0 0)] s ∧
      s.pc = .playing ∧ s.mField 8 = 0 ∧
      s.takeTurn (moveReply 8 8) = some s' ∧ s'.ttt ≠ s.ttt ∧ ¬ TurnOk s (moveReply 8 8) := by
  constructor
  · have hin : tossed.InBounds farReply ⟨some (ascii "place_move"), some 16, some 0⟩ := by decide
    obtain ⟨s', hs', hplaced⟩ := takeTurn_free scan_farReply hin (resetField_free _)
    refine ⟨tossed, s', runs_tossed, hs', ?_, ?_⟩
    · rw [hplaced]
      exact place_ne (resetField_free _) _
    · rw [turnOk_iff resetField_valid]
      intro h
      obtain ⟨c, hc, -, hplace⟩ := h
      obtain rfl := Option.some.inj (scan_farReply.symm.trans hc)
      obtain ⟨x, y, hx, -, hx9, -⟩ := hplace (resetField_free _)
      obtain rfl : (16 : UInt32) = x := Option.some.inj hx
      exact absurd hx9 (by decide)
  · obtain ⟨c, hc, -, -, hin, htarget⟩ := target_moveReply tossed (show 0 < 9 by decide)
      (show 0 < 9 by decide)
    obtain ⟨s, hs, hplaced, hpc, hmark⟩ := takeTurn_going hc hin (resetField_free _)
      (by rw [htarget]; exact corner_normal.2)
    rw [htarget] at hplaced hmark
    have hrun : Runs step (fun _ _ => True) start ([.toss true] ++ [.reply (moveReply 0 0)]) s :=
      .snoc (runs_tossed) trivial hs
    -- the reply is for a free point of block 8, which is not marked
    obtain ⟨d, hd, -, -, hin', htarget'⟩ := target_moveReply s (show 8 < 9 by decide)
      (show 8 < 9 by decide)
    have hf : s.ttt.Free (point 8 8) := by
      rw [hplaced]
      exact (resetField_free _).place_of_ne .p1 (by decide)
    have hblock : setMField (resetField.place .p1 (point 0 0)) (point 0 0) 8 = 0 := by
      have hnorm : gb2 (resetField.place .p1 (point 0 0)).mField (posMap (point 0 0)) = normal :=
        (block_place_self (resetField_free _) .p1).trans corner_normal.1
      rw [setMField, if_pos hnorm, Function.update_of_ne (by decide)]
    have hzero : s.mField 8 = 0 := by rw [hmark]; exact hblock
    rw [← htarget'] at hf
    obtain ⟨s', hs', hplaced'⟩ := takeTurn_free hd hin' hf
    refine ⟨s, s', hrun, hpc, hzero, hs', ?_, ?_⟩
    · rw [hplaced']
      exact place_ne hf _
    · rw [turnOk_iff (valid_of_runs hrun)]
      intro h
      obtain ⟨c', hc', -, hplace⟩ := h
      obtain rfl := Option.some.inj (hd.symm.trans hc')
      obtain ⟨-, -, -, -, -, -, hm⟩ := hplace hf
      rw [htarget', show blockMap (point 8 8) = 8 by decide, hzero] at hm
      exact absurd hm (by decide)

end CCode.TicTacToe
