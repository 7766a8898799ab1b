import CCode.Lib.Block
import CCode.Lib.Heap
import CCode.Lib.Scan

/-!
# Lines of comma separated values

`parse_csv` counts the fields first and then goes over the line once more, with a block for the
pointers and one for the field that is being read; each field is then copied to a block of its own.
Any of these blocks may be refused. `free_csv_line` gives back what a call has returned.

A quote switches to text in which a comma is a character like any other, and two quotes in it are
one. Both loops look one character ahead for the second quote; the machine below does not.

## Main definitions

* `parseCsv`, `freeCsvLine` — the functions.
* `fields` — the fields of a line, by a machine that takes one character after the other.

## Main results

* `scan_rule` — the rule for what the machine finds.
* `countFields_eq` — the number of fields.
-/

namespace CCode.Csv

open CCode.Lib

/-! ## The functions of the source -/

/-- What a block holds: nothing yet, a character, or a pointer. -/
inductive Cell
  | junk
  | char (c : UInt8)
  | ptr (p : Option ℕ)

abbrev CsvHeap := Heap (List Cell)

def quote : UInt8 := 34
def comma : UInt8 := 44

/-- The loop of `count_fields`, from `ptr` on; `fQuote` and `cnt`. The line ends with the list. -/
def countLoop : List UInt8 → Bool → ℤ → Option (Bool × ℤ)
  | [], fQuote, cnt => some (fQuote, cnt)
  | c :: rest, true, cnt =>
      if c = quote then
        if rest.head? = some quote then countLoop rest.tail true cnt
        else countLoop rest false cnt
      else countLoop rest true cnt
  | c :: rest, false, cnt =>
      if c = quote then countLoop rest true cnt
      else if c = comma then (int32 (cnt + 1)).bind fun cnt => countLoop rest false cnt
      else countLoop rest false cnt
termination_by line => line.length
decreasing_by all_goals simp only [List.length_tail, List.length_cons]; omega

/-- `count_fields`. -/
def countFields (line : List UInt8) : Option ℤ := do
  let (fQuote, cnt) ← countLoop line false 1
  some (if fQuote then -1 else cnt)

/-- A cell of a block is read. -/
def loadCell (h : CsvHeap) (p : ℕ) (i : ℤ) : Option Cell := do load (← h.block p) i

/-- A cell of a block is written. -/
def storeCell (h : CsvHeap) (p : ℕ) (i : ℤ) (c : Cell) : Option CsvHeap := do
  h.put p (← store (← h.block p) i c)

/-- The string at the start of a block. -/
def readString : List Cell → Option (List UInt8)
  | .char c :: cells => if c = 0 then some [] else (readString cells).map (c :: ·)
  | _ => none

/-- The cells of a string. -/
def stringCells (s : List UInt8) : List Cell := s.map .char ++ [.char 0]

/-- `strdup`. -/
def strdup (h : CsvHeap) (p : ℕ) : Option (CsvHeap × Option ℕ) := do
  some (h.malloc (stringCells (← readString (← h.block p))))

/-- `for ( bptr--; bptr >= buf; bptr-- ) free( *bptr );` where `bptr - buf` pointers are before
`bptr`. -/
def freeBack (buf : ℕ) : ℕ → CsvHeap → Option CsvHeap
  | 0, h => some h
  | k + 1, h => do
      match ← loadCell h buf k with
      | .ptr (some p) => freeBack buf k (← h.free p)
      | .ptr none => freeBack buf k h
      | _ => none

/-- The blocks, `tptr - tmp` and `bptr - buf`. -/
structure Parse where
  heap : CsvHeap
  tptr : ℤ
  bptr : ℤ

/-- `*tptr++ = c;` -/
def Parse.push (tmp : ℕ) (s : Parse) (c : UInt8) : Option Parse := do
  let heap ← storeCell s.heap tmp s.tptr (.char c)
  some { s with heap := heap, tptr := s.tptr + 1 }

/-- The end of a field, where `parse_csv` may return `NULL` (left) or goes on (right). -/
def endField (buf tmp : ℕ) (s : Parse) : Option (CsvHeap ⊕ Parse) := do
  let h ← storeCell s.heap tmp s.tptr (.char 0)
  let (h, copy) ← strdup h tmp
  let h ← storeCell h buf s.bptr (.ptr copy)
  match copy with
  | none =>
      let h ← freeBack buf s.bptr.toNat h
      let h ← h.free buf
      let h ← h.free tmp
      some (.inl h)
  | some _ => some (.inr { heap := h, tptr := 0, bptr := s.bptr + 1 })

/-- The loop of `parse_csv`, from `ptr` on. -/
def parseLoop (buf tmp : ℕ) : List UInt8 → Bool → Parse → Option (CsvHeap ⊕ Parse)
  | [], true, s => some (.inr s)
  | [], false, s => endField buf tmp s
  | c :: rest, true, s =>
      if c = quote then
        if rest.head? = some quote then
          (s.push tmp quote).bind fun s => parseLoop buf tmp rest.tail true s
        else parseLoop buf tmp rest false s
      else (s.push tmp c).bind fun s => parseLoop buf tmp rest true s
  | c :: rest, false, s =>
      if c = quote then parseLoop buf tmp rest true s
      else if c = comma then
        (endField buf tmp s).bind fun r =>
          match r with
          | .inl h => some (.inl h)
          | .inr s => parseLoop buf tmp rest false s
      else (s.push tmp c).bind fun s => parseLoop buf tmp rest false s
termination_by line => line.length
decreasing_by all_goals simp only [List.length_tail, List.length_cons]; omega

/-- `parse_csv`: the blocks, and what is returned; `none` where an access is out of a block or to
one that is not in use, where something is read that was not written, a block is released twice or
an `int` overflows. -/
def parseCsv (h : CsvHeap) (line : List UInt8) : Option (CsvHeap × Option ℕ) := do
  let fieldcnt ← countFields line
  if fieldcnt = -1 then some (h, none)
  else
    let n ← int32 (fieldcnt + 1)
    match h.malloc (List.replicate n.toNat .junk) with
    | (h, none) => some (h, none)
    | (h, some buf) =>
        match h.malloc (List.replicate (line.length + 1) .junk) with
        | (h, none) => (h.free buf).map fun h => (h, none)
        | (h, some tmp) =>
            let h ← storeCell h tmp 0 (.char 0)
            match ← parseLoop buf tmp line false { heap := h, tptr := 0, bptr := 0 } with
            | .inl h => some (h, none)
            | .inr s =>
                let h ← storeCell s.heap buf s.bptr (.ptr none)
                let h ← h.free tmp
                some (h, some buf)

/-- The loop of `free_csv_line`, from `ptr` on, with the number of rounds that are left; there are
no more than pointers in the block. -/
def freeLoop (parsed : ℕ) : ℕ → CsvHeap → ℤ → Option CsvHeap
  | 0, _, _ => none
  | rounds + 1, h, i => do
      match ← loadCell h parsed i with
      | .ptr (some p) => freeLoop parsed rounds (← h.free p) (i + 1)
      | .ptr none => some h
      | _ => none

/-- `free_csv_line`. -/
def freeCsvLine (h : CsvHeap) (parsed : ℕ) : Option CsvHeap := do
  let h ← freeLoop parsed (← h.block parsed).length h 0
  h.free parsed

/-! ## The fields of a line -/

/-- Outside of quotes, between them, or behind a quote that may be the first of two. -/
inductive Mode
  | plain
  | quoted
  | closing

/-- The rest of the field, and the fields behind it; `none` where a quote is left open. -/
def scan : Mode → List UInt8 → Option (List UInt8 × List (List UInt8))
  | .plain, [] => some ([], [])
  | .quoted, [] => none
  | .closing, [] => some ([], [])
  | .plain, c :: rest =>
      if c = quote then scan .quoted rest
      else if c = comma then (scan .plain rest).map fun x => ([], x.1 :: x.2)
      else (scan .plain rest).map fun x => (c :: x.1, x.2)
  | .quoted, c :: rest =>
      if c = quote then scan .closing rest else (scan .quoted rest).map fun x => (c :: x.1, x.2)
  | .closing, c :: rest =>
      if c = quote then (scan .quoted rest).map fun x => (quote :: x.1, x.2)
      else if c = comma then (scan .plain rest).map fun x => ([], x.1 :: x.2)
      else (scan .plain rest).map fun x => (c :: x.1, x.2)

/-- **The fields of a line.** -/
def fields (line : List UInt8) : Option (List (List UInt8)) :=
  (scan .plain line).map fun x => x.1 :: x.2

/-! ## The machine -/

/-- The mode that `fQuote` stands for at the start of a round. -/
def mode (fQuote : Bool) : Mode := if fQuote then .quoted else .plain

theorem scan_quoted_cons {c : UInt8} (hc : c ≠ quote) (rest : List UInt8) :
    scan .quoted (c :: rest) = (scan .quoted rest).map fun x => (c :: x.1, x.2) :=
  if_neg hc

theorem scan_plain_quote (rest : List UInt8) : scan .plain (quote :: rest) = scan .quoted rest :=
  if_pos rfl

theorem scan_plain_comma (rest : List UInt8) :
    scan .plain (comma :: rest) = (scan .plain rest).map fun x => ([], x.1 :: x.2) :=
  rfl

theorem scan_plain_cons {c : UInt8} (hq : c ≠ quote) (hc : c ≠ comma) (rest : List UInt8) :
    scan .plain (c :: rest) = (scan .plain rest).map fun x => (c :: x.1, x.2) :=
  (if_neg hq).trans (if_neg hc)

/-- Two quotes between quotes are one, and a single one ends them. -/
theorem scan_quoted_quote (rest : List UInt8) :
    scan .quoted (quote :: rest) =
      if rest.head? = some quote then (scan .quoted rest.tail).map fun x => (quote :: x.1, x.2)
      else scan .plain rest := by
  have hclosing : scan .quoted (quote :: rest) = scan .closing rest := if_pos rfl
  rw [hclosing]
  cases rest with
  | nil => rfl
  | cons d rest =>
      by_cases hd : d = quote
      · simp [scan, hd]
      · simp [scan, hd]

/-- **The rule for what the machine finds**: each character is left out, is put before the first
field or begins another one. -/
theorem scan_rule {P : List UInt8 → List UInt8 × List (List UInt8) → Prop} (hnil : P [] ([], []))
    (hskip : ∀ c rest x, P rest x → P (c :: rest) x)
    (hpush : ∀ c rest x, P rest x → P (c :: rest) (c :: x.1, x.2))
    (hcomma : ∀ c rest x, P rest x → P (c :: rest) ([], x.1 :: x.2)) {m : Mode}
    {line : List UInt8} {x : List UInt8 × List (List UInt8)} (h : scan m line = some x) :
    P line x := by
  induction line generalizing m x with
  | nil =>
      cases m with
      | plain => exact Option.some.inj h ▸ hnil
      | quoted => cases h
      | closing => exact Option.some.inj h ▸ hnil
  | cons c rest ih =>
      have hmap : ∀ {m' : Mode}, (scan m' rest).map (fun x => (c :: x.1, x.2)) = some x →
          P (c :: rest) x := by
        intro m' hx
        obtain ⟨y, hy, rfl⟩ := Option.map_eq_some_iff.mp hx
        exact hpush c rest y (ih hy)
      have hmapComma : (scan .plain rest).map (fun x => ([], x.1 :: x.2)) = some x →
          P (c :: rest) x := by
        intro hx
        obtain ⟨y, hy, rfl⟩ := Option.map_eq_some_iff.mp hx
        exact hcomma c rest y (ih hy)
      cases m with
      | plain =>
          rw [scan] at h
          split at h
          · exact hskip c rest x (ih h)
          · split at h
            · exact hmapComma h
            · exact hmap h
      | quoted =>
          rw [scan] at h
          split at h
          · exact hskip c rest x (ih h)
          · exact hmap h
      | closing =>
          rw [scan] at h
          split at h
          · rename_i hc
            rw [← hc] at h
            exact hmap h
          · split at h
            · exact hmapComma h
            · exact hmap h

/-- There is a comma before each field but the first. -/
theorem length_scan_le {m : Mode} {line : List UInt8} {x : List UInt8 × List (List UInt8)}
    (h : scan m line = some x) : x.2.length ≤ line.length :=
  scan_rule (P := fun line x => x.2.length ≤ line.length) (Nat.le_refl _)
    (fun _ _ _ hx => hx.trans (Nat.le_succ _)) (fun _ _ _ hx => hx.trans (Nat.le_succ _))
    (fun _ _ _ hx => Nat.succ_le_succ hx) h

/-- The fields of a line have no character that the line has not. -/
theorem notMem_scan {m : Mode} {line : List UInt8} {x : List UInt8 × List (List UInt8)}
    (h : scan m line = some x) (hline : 0 ∉ line) : 0 ∉ x.1 ∧ ∀ f ∈ x.2, 0 ∉ f := by
  refine scan_rule (P := fun line x => 0 ∉ line → 0 ∉ x.1 ∧ ∀ f ∈ x.2, 0 ∉ f) ?_ ?_ ?_ ?_ h hline
  · exact fun _ => ⟨List.not_mem_nil, by simp⟩
  · exact fun c rest x hx hnot => hx fun hmem => hnot (by simp [hmem])
  · intro c rest x hx hnot
    rw [List.mem_cons, not_or] at hnot
    have hrest := hx hnot.2
    exact ⟨by simp [hnot.1, hrest.1], hrest.2⟩
  · intro c rest x hx hnot
    rw [List.mem_cons, not_or] at hnot
    exact ⟨List.not_mem_nil, List.forall_mem_cons.mpr (hx hnot.2)⟩

/-- What the machine finds are the fields, and the first is there. -/
theorem exists_of_fields {line : List UInt8} {fs : List (List UInt8)} (h : fields line = some fs) :
    ∃ f gs, fs = f :: gs ∧ scan .plain line = some (f, gs) := by
  rw [fields] at h
  obtain ⟨x, hx, rfl⟩ := Option.map_eq_some_iff.mp h
  exact ⟨x.1, x.2, rfl, hx⟩

theorem length_fields_le {line : List UInt8} {fs : List (List UInt8)} (h : fields line = some fs) :
    fs.length ≤ line.length + 1 := by
  obtain ⟨f, gs, rfl, hscan⟩ := exists_of_fields h
  exact Nat.succ_le_succ (length_scan_le hscan)

theorem notMem_fields {line : List UInt8} {fs : List (List UInt8)} (h : fields line = some fs)
    (hline : 0 ∉ line) : ∀ f ∈ fs, 0 ∉ f := by
  obtain ⟨f, gs, rfl, hscan⟩ := exists_of_fields h
  have hnul := notMem_scan hscan hline
  exact List.forall_mem_cons.mpr hnul

/-! ## Counting -/

/-- What `count_fields` has found: the machine finds no fields, or as many. -/
def Counted (m : Mode) (line : List UInt8) (cnt : ℤ) (r : Option (Bool × ℤ)) : Prop :=
  match scan m line with
  | none => ∃ n, r = some (true, n)
  | some x => r = some (false, cnt + x.2.length)

theorem Counted.push {m m' : Mode} {line line' : List UInt8} {cnt : ℤ} {r : Option (Bool × ℤ)}
    (h : Counted m line cnt r) {c : UInt8}
    (hscan : scan m' line' = (scan m line).map fun x => (c :: x.1, x.2)) :
    Counted m' line' cnt r := by
  rw [Counted, hscan]
  rw [Counted] at h
  cases hx : scan m line with
  | none => rwa [hx] at h
  | some x => rwa [hx] at h

/-- **The loop of `count_fields`** ends in quotes if the machine finds no fields, and counts them
otherwise. -/
theorem countLoop_counted (line : List UInt8) (fQuote : Bool) (cnt : ℤ) (h₀ : 0 ≤ cnt)
    (hcnt : cnt + line.length < 2 ^ 31) :
    Counted (mode fQuote) line cnt (countLoop line fQuote cnt) := by
  induction line, fQuote, cnt using countLoop.induct with
  | case1 fQuote cnt =>
      rw [countLoop]
      cases fQuote with
      | false => simp [Counted, mode, scan]
      | true => exact ⟨cnt, rfl⟩
  | case2 rest cnt htwo ih =>
      rw [countLoop, if_pos rfl, if_pos htwo]
      have htail : cnt + rest.tail.length < 2 ^ 31 := by
        rw [List.length_tail]
        rw [List.length_cons] at hcnt
        omega
      refine (ih h₀ htail).push (c := quote) ?_
      rw [mode, if_pos rfl, scan_quoted_quote, if_pos htwo]
  | case3 rest cnt hone ih =>
      rw [countLoop, if_pos rfl, if_neg hone]
      rw [List.length_cons] at hcnt
      have hrest := ih h₀ (by omega)
      rwa [Counted, mode, if_pos rfl, scan_quoted_quote, if_neg hone]
  | case4 c rest cnt hc ih =>
      rw [countLoop, if_neg hc]
      rw [List.length_cons] at hcnt
      exact (ih h₀ (by omega)).push (scan_quoted_cons hc rest)
  | case5 rest cnt ih =>
      rw [countLoop, if_pos rfl]
      rw [List.length_cons] at hcnt
      have hrest := ih h₀ (by omega)
      rwa [Counted, mode, if_neg (by simp), scan_plain_quote]
  | case6 rest cnt hne ih =>
      rw [List.length_cons] at hcnt
      have hint : int32 (cnt + 1) = some (cnt + 1) := int32_of_lt (by omega) (by omega)
      rw [countLoop, if_neg hne, if_pos rfl, hint, Option.bind_some]
      have hrest := ih (cnt + 1) (by omega) (by omega)
      rw [Counted, mode, if_neg (by simp)] at hrest
      rw [Counted, mode, if_neg (by simp), scan_plain_comma]
      cases hx : scan .plain rest with
      | none => rwa [hx] at hrest
      | some x =>
          rw [hx] at hrest
          rw [Option.map_some, hrest]
          simp only [List.length_cons]
          congr 2
          push_cast
          ring
  | case7 c rest cnt hq hc ih =>
      rw [countLoop, if_neg hq, if_neg hc]
      rw [List.length_cons] at hcnt
      exact (ih h₀ (by omega)).push (scan_plain_cons hq hc rest)

/-- **`count_fields`**: the number of fields, or -1. -/
theorem countFields_eq {line : List UInt8} (hlen : line.length + 2 < 2 ^ 31) :
    countFields line = some (match fields line with
      | none => -1
      | some fs => fs.length) := by
  have h := countLoop_counted line false 1 (by omega) (by omega)
  rw [Counted, mode, if_neg (by simp)] at h
  rw [countFields, fields]
  cases hx : scan .plain line with
  | none =>
      rw [hx] at h
      obtain ⟨n, hn⟩ := h
      rw [hn]
      rfl
  | some x =>
      rw [hx] at h
      rw [h]
      simp [add_comm]

end CCode.Csv
