import CCode.Lib.Bubble
import CCode.ConnectFour.Bitboards

/-!
# The Connect Four search

`max_score` of `ai_core.c`: it tries the columns from left to right, up to one that wins,
and calls itself for the other player after each disc. From five plies on it looks for a
value of the position in a table first, which is indexed by a hash of the rows of both
players and of the depth, and which checks neither. The value of a column is put there as
a `char`, which is signed here; zero means that there is none. Then the columns are sorted
by their values, columns with the same value in an order that `rand` decides, and the first
one that was not full is the answer.

The results of `rand` and what an uninitialised `tmp` holds are part of the state. `tmp` is
only returned where no column takes a disc, and then nothing was assigned to it before the
columns were sorted.

## Main definitions

* `Key`, `hash`, `getHashIdx` — the hash of a position.
* `Search` — the state of a search, with the keys that were looked up.
* `bubble`, `sortPositions`, `select`, `choose` — the choice of a column.
* `maxScore` — the search.
-/

namespace CCode.ConnectFour

open CCode.Lib

/-- `FULL`, the value of a column that no disc was tried in. -/
abbrev full : Int := 0

/-- `TIED`. -/
abbrev tied : Int := 1

/-- `NORMAL_MIM`. -/
abbrev normalMim : Int := 16

/-- `WIN`. -/
abbrev win : Int := 127

/-- `MIN_HASH_DEEP`. -/
abbrev minHashDeep : ℕ := 4

/-- `HASH_BIT_SIZE`. -/
abbrev hashBitSize : ℕ := 26

/-- `struct position`. -/
structure Position where
  colume : Int
  value : Int
  nextCol : Int

/-! ## The table -/

/-- One round of `hash`, with the byte extended as a signed one. -/
def hashStep (h : BitVec 32) (byte : BitVec 8) : BitVec 32 :=
  let h := h + byte.signExtend 32
  let h := h + (h <<< 10)
  h ^^^ (h >>> 6)

/-- `hash`. -/
def hash (key : List (BitVec 8)) : BitVec 32 :=
  let h := key.foldl hashStep 0
  let h := h + (h <<< 3)
  let h := h ^^^ (h >>> 11)
  h + (h <<< 15)

/-- What a position is looked up under: the rows of both players and the depth. -/
structure Key where
  fieldH : Boards
  step : ℕ

/-- `get_hash_idx`: the rows and the depth, each cut to a `char`. -/
def getHashIdx (key : Key) : BitVec 32 :=
  let rows (id : Player) := (List.range fourRow).map fun i => (key.fieldH id i).setWidth 8
  hash (rows .p1 ++ rows .p2 ++ [BitVec.ofNat 8 key.step]) &&&
    BitVec.ofNat 32 (2 ^ hashBitSize - 1)

/-- The board and the table, the results of `rand` and the contents of `tmp` to come, and
the keys that were looked up, the last first. -/
structure Search where
  four : Four
  h : BitVec 32 → Int8
  rand : ℕ → ℕ
  stack : ℕ → Position
  examined : List Key

/-- The key of the board at a depth. -/
def Search.key (s : Search) (step : ℕ) : Key := ⟨s.four.fieldH, step⟩

/-- A call of `rand`. -/
def Search.draw (s : Search) : ℕ × Search := (s.rand 0, { s with rand := fun n => s.rand (n + 1) })

/-- `get_hash`: the value under the key of the board, zero if there is none. -/
def getHash (s : Search) (step : ℕ) : Int × Search :=
  ((s.h (getHashIdx (s.key step))).toInt, { s with examined := s.key step :: s.examined })

/-- `set_hash`. -/
def setHash (s : Search) (step : ℕ) (score : Int) : Search :=
  { s with h := Function.update s.h (getHashIdx (s.key step)) (Int8.ofInt score) }

/-! ## The columns -/

/-- A column before a disc is tried in it. -/
def blank (i : ℕ) : Position := ⟨i, full, -1⟩

/-- The value of a disc that is in column `i`, without the table: `judgement` at depth 1, the
search of the other player below. -/
def compute (child : Search → Position × Search) (id : Player) (steps i : ℕ) (s : Search) :
    Position × Search :=
  if fourIsFinish s.four id i ≠ 0 then ({ blank i with value := win }, s)
  else if steps = 1 then
    let (r, s) := s.draw
    ({ blank i with value := normalMim + (r &&& (0x40 - 1) : ℕ) }, s)
  else
    let (tmp, s) := child s
    (⟨i, tmp.value, tmp.colume⟩, s)

/-- The value of a disc that is in column `i`, from the table or put there. -/
def evaluate (child : Search → Position × Search) (id : Player) (steps i : ℕ) (s : Search) :
    Position × Search :=
  if steps ≤ minHashDeep then compute child id steps i s
  else
    let (score, s) := getHash s steps
    if score ≠ 0 then ({ blank i with value := score }, s)
    else
      let (pos, s) := compute child id steps i s
      (pos, setHash s steps pos.value)

/-- One round of the loop over the columns. -/
def tryColumn (child : Search → Position × Search) (id : Player) (steps i : ℕ) (s : Search) :
    Position × Search :=
  let (ret, four) := fourAdd s.four id i
  if ret < 0 then (blank i, s)
  else
    let (pos, s) := evaluate child id steps i { s with four }
    (pos, { s with four := fourRemove s.four id i })

/-- The loop over the columns, which ends behind one that wins. -/
def scan (child : Search → Position × Search) (id : Player) (steps : ℕ) :
    List ℕ → Search → List Position × Search
  | [], s => ([], s)
  | i :: is, s =>
      let (pos, s) := tryColumn child id steps i s
      if pos.value = win then (pos :: is.map blank, s)
      else
        let (ps, s) := scan child id steps is s
        (pos :: ps, s)

/-! ## The choice -/

/-- The inner loop of the sort: from the right end on, a larger value moves to the left, and
an equal one if `rand` says so. -/
def bubble : List Position → (ℕ → ℕ) → Position → List Position × (ℕ → ℕ) × Position
  | [], r, tmp => ([], r, tmp)
  | p :: ps, r, tmp =>
      match bubble ps r tmp with
      | ([], r, tmp) => ([p], r, tmp)
      | (q :: qs, r, tmp) =>
          if q.value > p.value then (q :: p :: qs, r, q)
          else if q.value = p.value then
            if r 0 &&& 1 ≠ 0 then (q :: p :: qs, fun n => r (n + 1), q)
            else (p :: q :: qs, fun n => r (n + 1), tmp)
          else (p :: q :: qs, r, tmp)

/-- The outer loop of the sort, with the number of rounds to go. -/
def sortPositions : ℕ → List Position → (ℕ → ℕ) → Position →
    List Position × (ℕ → ℕ) × Position
  | 0, ps, r, tmp => (ps, r, tmp)
  | n + 1, ps, r, tmp =>
      match bubble ps r tmp with
      | ([], r, tmp) => ([], r, tmp)
      | (q :: qs, r, tmp) =>
          let (qs, r, tmp) := sortPositions n qs r tmp
          (q :: qs, r, tmp)

/-- The first column that was not full, with its value for the other player. -/
def select (ps : List Position) (tmp : Position) : Position :=
  match ps.find? fun p => p.value ≠ full with
  | some p => { p with value := -p.value }
  | none => { tmp with value := -tied }

/-- The columns after the loop are sorted, and one of them is picked. -/
def choose (tmp : Position) (res : List Position × Search) : Position × Search :=
  let (ps, rand, tmp) := sortPositions (fourCol - 1) res.1 res.2.rand tmp
  (select ps tmp, { res.2 with rand })

/-- `max_score`. Nothing asks for depth 0. -/
def maxScore : ℕ → Player → Search → Position × Search
  | 0, _, s => (s.stack 0, s)
  | steps + 1, id, s =>
      choose (s.stack 0) (scan (maxScore steps id.opId) id (steps + 1) (List.range fourCol)
        { s with stack := fun n => s.stack (n + 1) })

/-! ## What the choice picks -/

/-- The inner loop is a pass of the general sort. -/
theorem bubble_eq (ps : List Position) (r : ℕ → ℕ) (tmp : Position) :
    ((bubble ps r tmp).1, (bubble ps r tmp).2.1) = Lib.bubble Position.value ps r := by
  induction ps generalizing r tmp with
  | nil => rfl
  | cons p ps ih =>
      rw [bubble, Lib.bubble, ← ih r tmp]
      rcases bubble ps r tmp with ⟨_ | ⟨q, qs⟩, r', tmp'⟩
      · rfl
      · dsimp only
        split_ifs
        all_goals rfl

/-- The outer loop is the general sort. -/
theorem sortPositions_eq (n : ℕ) (ps : List Position) (r : ℕ → ℕ) (tmp : Position) :
    ((sortPositions n ps r tmp).1, (sortPositions n ps r tmp).2.1) =
      bubbleSort Position.value n ps r := by
  induction n generalizing ps r tmp with
  | zero => rfl
  | succ n ih =>
      rw [sortPositions, bubbleSort, ← bubble_eq ps r tmp]
      rcases bubble ps r tmp with ⟨_ | ⟨q, qs⟩, r', tmp'⟩
      · rfl
      · dsimp only
        rw [← ih qs r' tmp']

/-- The values of the columns that a disc was tried in. -/
def tried (ps : List Position) : List Int := (ps.map Position.value).filter (· ≠ full)

/-- The choice is one of the columns with a disc, of the largest value, or a tie if there is
none. -/
theorem select_sortPositions {ps : List Position} (hlen : ps.length ≤ fourCol) (r : ℕ → ℕ)
    (tmp : Position) :
    let res := sortPositions (fourCol - 1) ps r tmp
    ((∀ p ∈ ps, p.value = full) ∧ (select res.1 res.2.2).value = -tied) ∨
      ∃ p ∈ ps, p.value ≠ full ∧ (∀ q ∈ ps, q.value ≠ full → q.value ≤ p.value) ∧
        select res.1 res.2.2 = { p with value := -p.value } := by
  intro res
  have hsort : res.1 = (bubbleSort Position.value (fourCol - 1) ps r).1 :=
    congrArg Prod.fst (sortPositions_eq (fourCol - 1) ps r tmp)
  cases hfind : res.1.find? fun p => p.value ≠ full with
  | none =>
      left
      have hfull := bubbleSort_find_none (hsort ▸ hfind)
      exact ⟨fun p hp => by simpa using hfull p hp, by simp only [select, hfind]⟩
  | some p =>
      right
      obtain ⟨hne, hp, hbest⟩ := bubbleSort_find (n := fourCol - 1) hlen r (hsort ▸ hfind)
      refine ⟨p, hp, by simpa using hne, ?_, by simp only [select, hfind]⟩
      intro q hq hqne
      exact hbest q hq (by simpa using hqne)

theorem choose_cases (tmp : Position) {res : List Position × Search}
    (hlen : res.1.length ≤ fourCol) :
    ((∀ p ∈ res.1, p.value = full) ∧ (choose tmp res).1.value = -tied) ∨
      ∃ p ∈ res.1, p.value ≠ full ∧ (∀ q ∈ res.1, q.value ≠ full → q.value ≤ p.value) ∧
        (choose tmp res).1 = { p with value := -p.value } :=
  select_sortPositions hlen res.2.rand tmp

/-- **The choice is a best column**, and a tie if there is none. -/
theorem choose_value {tmp : Position} {res : List Position × Search}
    (hlen : res.1.length ≤ fourCol) :
    (tried res.1 = [] ∧ (choose tmp res).1.value = -tied) ∨
      ∃ m, IsBest (tried res.1) m ∧ (choose tmp res).1.value = -m := by
  rcases choose_cases tmp hlen with ⟨hfull, hv⟩ | ⟨p, hp, hne, hbest, heq⟩
  · left
    refine ⟨?_, hv⟩
    rw [tried, List.filter_eq_nil_iff, List.forall_mem_map]
    intro p hp
    simpa using hfull p hp
  · right
    refine ⟨p.value, ⟨?_, ?_⟩, congrArg Position.value heq⟩
    · exact List.mem_filter.mpr ⟨List.mem_map_of_mem hp, by simpa using hne⟩
    · intro v hv
      obtain ⟨hv, hvne⟩ := List.mem_filter.mp hv
      obtain ⟨q, hq, rfl⟩ := List.mem_map.mp hv
      exact hbest q hq (by simpa using hvne)

@[simp] theorem choose_four (tmp : Position) (res : List Position × Search) :
    (choose tmp res).2.four = res.2.four := rfl

@[simp] theorem choose_h (tmp : Position) (res : List Position × Search) :
    (choose tmp res).2.h = res.2.h := rfl

@[simp] theorem choose_examined (tmp : Position) (res : List Position × Search) :
    (choose tmp res).2.examined = res.2.examined := rfl

end CCode.ConnectFour
