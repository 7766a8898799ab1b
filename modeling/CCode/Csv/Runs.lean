import CCode.Csv.Parse
import CCode.Lib.Transition

/-!
# Runs of `parse_csv` and `free_csv_line`

What a call has returned is held until it is given back, and other calls may come in between.

## Main definitions

* `printed` — the fields that a caller sees.
* `Client` — a caller, with the results that it holds.
* `quoteLine` — a line of fields in quotes.

## Main results

* `free_csv_line_spec` — the blocks of a result are released, and no others.
* `csv_runs` — no run has a fault or loses a block.
* `parse_csv_null` — when there is no result.
* `parse_csv_quoted` — fields in quotes come back.
-/

namespace CCode.Csv

open CCode.Lib

/-! ## Giving back -/

section

variable {h h' : CsvHeap} {p : ℕ} {ps : List ℕ} {fs : List (List UInt8)}

theorem LineAt.isSome (hat : LineAt h p ps fs) : ∀ q ∈ p :: ps, (h.block q).isSome := by
  intro q hq
  rcases List.mem_cons.mp hq with rfl | hq
  · rw [hat.block]
    rfl
  · obtain ⟨i, rfl⟩ := List.mem_iff_get.mp hq
    rw [hat.strings.get i.isLt (hat.strings.length_eq ▸ i.isLt)]
    rfl

theorem LineAt.frame (hat : LineAt h p ps fs) (hsame : ∀ q ∈ p :: ps, h'.block q = h.block q) :
    LineAt h' p ps fs := by
  refine ⟨(hsame p (by simp)).trans hat.block, ?_, hat.nodup⟩
  have hmem : ∀ q ∈ ps, h'.block q = h.block q := fun q hq => hsame q (by simp [hq])
  refine (List.forall₂_iff_get.mpr ⟨hat.strings.length_eq, fun i hi hi' => ?_⟩)
  rw [hmem _ (List.get_mem _ _)]
  exact hat.strings.get hi hi'

/-- **What `free_csv_line` does**: the blocks of the line are released, and no others. -/
theorem free_csv_line_spec (hat : LineAt h p ps fs) :
    ∃ h', freeCsvLine h p = some h' ∧ h'.grants = h.grants ∧ h'.asked = h.asked ∧
      ∀ q, h'.block q = if q ∈ p :: ps then none else h.block q := by
  have hnot := (List.nodup_cons.mp hat.nodup).1
  have hloop : freeLoop p (pointers ps ++ [Cell.ptr none]).length h 0 = h.freeAll ps :=
    @freeLoop_eq h p ps [] [] 0 hat.block hnot rfl (pointers ps ++ [Cell.ptr none]).length
      (by simp [pointers])
  obtain ⟨h₁, hfree₁, hblock₁, hasked₁, hgrants₁⟩ := Heap.freeAll_of_blocks
    (fun q hq => hat.isSome q (by simp [hq])) (List.nodup_cons.mp hat.nodup).2
  obtain ⟨h₂, hfree₂, hblock₂, hasked₂, hgrants₂⟩ := Heap.free_of_block (h := h₁) (p := p)
    (by rw [hblock₁, if_neg hnot, hat.block])
  refine ⟨h₂, ?_, hgrants₂.trans hgrants₁, hasked₂.trans hasked₁, fun q => ?_⟩
  · rw [freeCsvLine, hat.block, Option.bind_eq_bind, Option.bind_some, hloop, hfree₁,
      Option.bind_eq_bind, Option.bind_some, hfree₂]
  · rw [hblock₂, Function.update_apply, hblock₁]
    by_cases hq : q = p
    · simp [hq]
    · simp [hq]

/-- `for ( ptr = parsed; *ptr; ptr++ ) printf( …, *ptr );` of `test.c`: what is printed. -/
def printLoop (h : CsvHeap) (parsed : ℕ) : ℕ → ℤ → Option (List (List UInt8))
  | 0, _ => none
  | rounds + 1, i => do
      match ← loadCell h parsed i with
      | .ptr (some p) =>
          let f ← readString (← h.block p)
          (printLoop h parsed rounds (i + 1)).map (f :: ·)
      | .ptr none => some []
      | _ => none

/-- The fields that a caller sees. -/
def printed (h : CsvHeap) (parsed : ℕ) : Option (List (List UInt8)) := do
  printLoop h parsed (← h.block parsed).length 0

theorem printLoop_eq {pre : List Cell}
    (hbuf : h.block p = some (pre ++ (pointers ps ++ [.ptr none])))
    (hstrings : List.Forall₂ (fun q f => h.block q = some (stringCells f)) ps fs)
    (hnul : ∀ f ∈ fs, 0 ∉ f) {rounds : ℕ} (hrounds : ps.length < rounds) :
    printLoop h p rounds pre.length = some fs := by
  obtain ⟨r, rfl⟩ : ∃ r, rounds = r + 1 := ⟨rounds - 1, by omega⟩
  induction hstrings generalizing pre r with
  | nil =>
      have hload : loadCell h p pre.length = some (.ptr none) := by
        rw [loadCell, hbuf, Option.bind_eq_bind, Option.bind_some]
        exact load_of_eq pre [] rfl rfl
      rw [printLoop, hload]
      rfl
  | @cons q f ps fs hq hrest ih =>
      have hload : loadCell h p pre.length = some (.ptr (some q)) := by
        rw [loadCell, hbuf, Option.bind_eq_bind, Option.bind_some]
        exact load_of_eq pre (pointers ps ++ [.ptr none]) rfl rfl
      rw [List.length_cons] at hrounds
      obtain ⟨r, rfl⟩ : ∃ r', r = r' + 1 := ⟨r - 1, by omega⟩
      have hread : readString (stringCells f) = some f :=
        readString_stringCells (hnul f (by simp)) []
      have hnext := @ih (pre ++ [.ptr (some q)]) (by rw [hbuf]; simp [pointers])
        (fun g hg => hnul g (by simp [hg])) r (by omega)
      rw [List.length_append, List.length_singleton] at hnext
      rw [printLoop, hload, Option.bind_eq_bind, Option.bind_some]
      simp only [hq, Option.bind_eq_bind, Option.bind_some, hread]
      push_cast at hnext
      rw [hnext]
      rfl

theorem LineAt.printed (hat : LineAt h p ps fs) (hnul : ∀ f ∈ fs, 0 ∉ f) :
    printed h p = some fs := by
  have hloop := @printLoop_eq h p ps fs [] hat.block hat.strings hnul
    (pointers ps ++ [Cell.ptr none]).length (by simp [pointers])
  rw [Csv.printed, hat.block, Option.bind_eq_bind, Option.bind_some]
  exact hloop

end

/-! ## Runs -/

/-- The blocks, and what calls have returned that is not given back, each with its line. -/
structure Client where
  heap : CsvHeap
  held : List (ℕ × List UInt8)

/-- A call, of `free_csv_line` with one of the results. -/
inductive Call
  | parse (line : List UInt8)
  | free (i : ℕ)

def Client.step (c : Client) : Call → Option Client
  | .parse line =>
      (parseCsv c.heap line).map fun x =>
        match x.2 with
        | none => { c with heap := x.1 }
        | some p => { heap := x.1, held := (p, line) :: c.held }
  | .free i => do
      let x ← c.held[i]?
      let heap ← freeCsvLine c.heap x.1
      some { heap := heap, held := c.held.eraseIdx i }

/-- A line is a string that an `int` can count, and a result is given back once. -/
def Client.Ok (c : Client) : Call → Prop
  | .parse line => 0 ∉ line ∧ line.length + 2 < 2 ^ 31
  | .free i => i < c.held.length

/-- No block is in use. -/
def Client.start (grants : ℕ → Bool) : Client where
  heap := { block := fun _ => none, asked := 0, grants := grants, fresh := fun _ _ => rfl }
  held := []

/-- A result with what it leads to. -/
structure Owned where
  p : ℕ
  line : List UInt8
  ps : List ℕ
  fs : List (List UInt8)

def Owned.blocks (o : Owned) : List ℕ := o.p :: o.ps

structure Owned.At (o : Owned) (h : CsvHeap) : Prop where
  fields : fields o.line = some o.fs
  nul : 0 ∉ o.line
  lineAt : LineAt h o.p o.ps o.fs

/-- **The invariant**: the blocks in use are those of the results that are held, and no block is
one of two results. -/
structure Client.Inv (c : Client) (owned : List Owned) : Prop where
  held : c.held = owned.map fun o => (o.p, o.line)
  atHeap : ∀ o ∈ owned, o.At c.heap
  nodup : (owned.flatMap Owned.blocks).Nodup
  mem : ∀ q, (c.heap.block q).isSome → q ∈ owned.flatMap Owned.blocks

/-- A call of `parse_csv` is executed, and keeps the invariant. -/
theorem Client.Inv.parse {c : Client} {owned : List Owned} (h : c.Inv owned) {line : List UInt8}
    (hline : 0 ∉ line) (hlen : line.length + 2 < 2 ^ 31) :
    ∃ c' owned', c.step (.parse line) = some c' ∧ c'.Inv owned' := by
  obtain ⟨h', r, hparse, hret⟩ := parse_csv_spec c.heap hline hlen
  rw [Client.step, hparse, Option.map_some]
  cases r with
  | none =>
      have hblock := hret.null rfl
      refine ⟨_, owned, rfl, h.held, fun o ho => ?_, h.nodup, fun q hq => h.mem q ?_⟩
      · obtain ⟨hfields, hnul, hat⟩ := h.atHeap o ho
        exact ⟨hfields, hnul, hat.frame fun q _ => congrFun hblock q⟩
      · rwa [← hblock]
  | some p =>
      obtain ⟨fs, ps, hfields, hat, hfree, hsame⟩ := hret.result p rfl
      -- a block of another result is in use, so it is none of the new ones
      have hother : ∀ o ∈ owned, ∀ q ∈ o.blocks, q ∉ p :: ps := by
        intro o ho q hq hmem
        have hlive := (h.atHeap o ho).lineAt.isSome q hq
        rw [hfree q hmem] at hlive
        cases hlive
      refine ⟨_, ⟨p, line, ps, fs⟩ :: owned, rfl, ?_, ?_, ?_, ?_⟩
      · simp [h.held]
      · refine List.forall_mem_cons.mpr ⟨⟨hfields, hline, hat⟩, fun o ho => ?_⟩
        obtain ⟨hfields', hnul', hat'⟩ := h.atHeap o ho
        exact ⟨hfields', hnul', hat'.frame fun q hq => hsame q (hother o ho q hq)⟩
      · rw [List.flatMap_cons, List.nodup_append]
        refine ⟨hat.nodup, h.nodup, fun a ha b hb hab => ?_⟩
        obtain ⟨o, ho, hq⟩ := List.mem_flatMap.mp hb
        exact hother o ho b hq (hab ▸ ha)
      · intro q hq
        rw [List.flatMap_cons, List.mem_append]
        by_cases hnew : q ∈ p :: ps
        · exact .inl hnew
        · exact .inr (h.mem q (by rwa [← hsame q hnew]))

/-- So is one of `free_csv_line`. -/
theorem Client.Inv.free {c : Client} {owned : List Owned} (h : c.Inv owned) {i : ℕ}
    (hi : i < c.held.length) :
    ∃ c' owned', c.step (.free i) = some c' ∧ c'.Inv owned' := by
  have hi' : i < owned.length := by
    rwa [h.held, List.length_map] at hi
  have hget : c.held[i]? = some (owned[i].p, owned[i].line) := by
    rw [h.held, List.getElem?_map, List.getElem?_eq_getElem hi']
    rfl
  obtain ⟨hfields, hnul, hat⟩ := h.atHeap _ (List.getElem_mem hi')
  obtain ⟨h', hfree, -, -, hblock⟩ := free_csv_line_spec hat
  have hperm : owned.Perm (owned[i] :: owned.eraseIdx i) :=
    (List.getElem_cons_eraseIdx_perm hi').symm
  have hblocks := hperm.flatMap_right Owned.blocks
  rw [List.flatMap_cons] at hblocks
  have hnodup := hblocks.nodup_iff.mp h.nodup
  rw [List.nodup_append] at hnodup
  refine ⟨⟨h', c.held.eraseIdx i⟩, owned.eraseIdx i, ?_, ?_, ?_, hnodup.2.1, ?_⟩
  · rw [Client.step, hget, Option.bind_eq_bind, Option.bind_some, hfree]
    rfl
  · rw [h.held, List.eraseIdx_map]
  · intro o ho
    obtain ⟨hfields', hnul', hat'⟩ := h.atHeap o (List.mem_of_mem_eraseIdx ho)
    refine ⟨hfields', hnul', hat'.frame fun q hq => ?_⟩
    rw [hblock q, if_neg]
    intro hmem
    exact hnodup.2.2 q hmem q (List.mem_flatMap.mpr ⟨o, ho, hq⟩) rfl
  · intro q hq
    rw [hblock q] at hq
    split at hq
    · cases hq
    · rename_i hnot
      have hmem := hblocks.mem_iff.mp (h.mem q hq)
      exact (List.mem_append.mp hmem).resolve_left hnot

/-- **Runs of calls**, whatever requests are granted: each call is executed without a fault; what is
held reads as the fields of its line; and where nothing is held, no block is in use. -/
theorem csv_runs {grants : ℕ → Bool} {calls : List Call} {c : Client}
    (hrun : Runs Client.step Client.Ok (Client.start grants) calls c) :
    (∀ x ∈ c.held, ∃ fs, fields x.2 = some fs ∧ printed c.heap x.1 = some fs) ∧
    (∀ a, c.Ok a → (c.step a).isSome) ∧
    (c.held = [] → ∀ q, c.heap.block q = none) := by
  have hinv : ∃ owned, c.Inv owned := by
    refine hrun.invariant (P := fun c => ∃ owned, Client.Inv c owned) ?_ ?_
    · exact ⟨[], rfl, by simp, List.nodup_nil, fun q hq => by cases hq⟩
    · intro u a v hu hok hstep
      obtain ⟨owned, hu⟩ := hu
      cases a with
      | parse line =>
          obtain ⟨c', owned', hc', hinv⟩ := hu.parse hok.1 hok.2
          rw [hc'] at hstep
          exact ⟨owned', Option.some.inj hstep ▸ hinv⟩
      | free i =>
          obtain ⟨c', owned', hc', hinv⟩ := hu.free hok
          rw [hc'] at hstep
          exact ⟨owned', Option.some.inj hstep ▸ hinv⟩
  obtain ⟨owned, hinv⟩ := hinv
  refine ⟨fun x hx => ?_, fun a hok => ?_, fun hnil q => ?_⟩
  · rw [hinv.held] at hx
    obtain ⟨o, ho, rfl⟩ := List.mem_map.mp hx
    obtain ⟨hfields, hnul, hat⟩ := hinv.atHeap o ho
    exact ⟨o.fs, hfields, hat.printed (notMem_fields hfields hnul)⟩
  · cases a with
    | parse line =>
        obtain ⟨c', owned', hc', -⟩ := hinv.parse hok.1 hok.2
        rw [hc']
        rfl
    | free i =>
        obtain ⟨c', owned', hc', -⟩ := hinv.free hok
        rw [hc']
        rfl
  · have hempty : owned = [] := by
      rw [hinv.held] at hnil
      exact List.map_eq_nil_iff.mp hnil
    by_contra hq
    have hmem := hinv.mem q (Option.isSome_iff_ne_none.mpr hq)
    rw [hempty] at hmem
    cases hmem

theorem csv_runs_one :
    ∃ c, Runs Client.step Client.Ok (Client.start fun _ => true) [.parse [97, 44, 98]] c ∧
      ∀ x ∈ c.held, ∃ fs, fields x.2 = some fs ∧ printed c.heap x.1 = some fs := by
  have hok : (Client.start fun _ => true).Ok (.parse [97, 44, 98]) := by
    refine ⟨by decide, ?_⟩
    norm_num
  obtain ⟨c, hc⟩ := Option.isSome_iff_exists.mp ((csv_runs .refl).2.1 _ hok)
  have hrun := Runs.snoc .refl hok hc
  exact ⟨c, hrun, (csv_runs hrun).1⟩

/-- **`NULL`** is returned if and only if a quote is left open or one of the blocks is refused, one
for the pointers, one to read in and one for each field; then the blocks in use are those there were
before. -/
theorem parse_csv_null (h : CsvHeap) {line : List UInt8} (hline : 0 ∉ line)
    (hlen : line.length + 2 < 2 ^ 31) :
    ∃ h' r, parseCsv h line = some (h', r) ∧
      (r = none ↔ fields line = none ∨
        ∃ fs i, fields line = some fs ∧ i < 2 + fs.length ∧ h.grants (h.asked + i) = false) ∧
      (r = none → h'.block = h.block) := by
  obtain ⟨h', r, hparse, hret⟩ := parse_csv_spec h hline hlen
  refine ⟨h', r, hparse, ?_, hret.null⟩
  rw [← Option.not_isSome_iff_eq_none, hret.isSome_iff]
  cases hfields : fields line with
  | none => simp
  | some fs => simp

theorem parse_csv_null_open :
    ∃ h' r, parseCsv (Client.start fun _ => true).heap [34] = some (h', r) ∧
      (r = none ↔ fields [34] = none ∨
        ∃ fs i, fields [34] = some fs ∧ i < 2 + fs.length ∧
          (Client.start fun _ => true).heap.grants
            ((Client.start fun _ => true).heap.asked + i) = false) ∧
      (r = none → h'.block = (Client.start fun _ => true).heap.block) :=
  parse_csv_null _ (by decide) (by norm_num)

/-! ## Fields in quotes -/

/-- A character between quotes. -/
def quoteChar (c : UInt8) : List UInt8 := if c = quote then [quote, quote] else [c]

/-- A field in quotes. -/
def quoteField (f : List UInt8) : List UInt8 := quote :: (f.flatMap quoteChar ++ [quote])

/-- A line of fields in quotes. -/
def quoteLine (fs : List (List UInt8)) : List UInt8 := [comma].intercalate (fs.map quoteField)

theorem scan_quoteChars (f rest : List UInt8) :
    scan .quoted (f.flatMap quoteChar ++ rest)
      = (scan .quoted rest).map fun x => (f ++ x.1, x.2) := by
  induction f with
  | nil => simp
  | cons c f ih =>
      rw [List.flatMap_cons, List.append_assoc, quoteChar]
      by_cases hc : c = quote
      · rw [if_pos hc, List.cons_append, List.singleton_append, scan_quoted_quote]
        simp only [List.head?_cons, if_true, List.tail_cons, ih, Option.map_map, hc]
        rfl
      · rw [if_neg hc, List.singleton_append, scan_quoted_cons hc, ih, Option.map_map]
        rfl

/-- A field in quotes, at the end of the line or before a comma. -/
theorem scan_quoteField (f rest : List UInt8) (hrest : rest.head? ≠ some quote) :
    scan .plain (quoteField f ++ rest) = (scan .plain rest).map fun x => (f ++ x.1, x.2) := by
  rw [quoteField, List.cons_append, scan_plain_quote, List.append_assoc, scan_quoteChars,
    List.singleton_append, scan_quoted_quote, if_neg hrest]

theorem quoteLine_singleton (f : List UInt8) : quoteLine [f] = quoteField f := by
  simp [quoteLine, List.intercalate]

theorem quoteLine_cons (f g : List UInt8) (fs : List (List UInt8)) :
    quoteLine (f :: g :: fs) = quoteField f ++ comma :: quoteLine (g :: fs) := by
  simp [quoteLine, List.intercalate]

theorem scan_quoteLine (f : List UInt8) (fs : List (List UInt8)) :
    scan .plain (quoteLine (f :: fs)) = some (f, fs) := by
  induction fs generalizing f with
  | nil =>
      rw [quoteLine_singleton, ← List.append_nil (quoteField f), scan_quoteField f [] (by simp)]
      simp [scan]
  | cons g fs ih =>
      rw [quoteLine_cons, scan_quoteField f _ (by simp; decide), scan_plain_comma, ih]
      simp

theorem notMem_quoteField {f : List UInt8} (h : 0 ∉ f) : 0 ∉ quoteField f := by
  have hquote : (0 : UInt8) ≠ quote := by decide
  intro hmem
  rw [quoteField, List.mem_cons, List.mem_append, List.mem_singleton, List.mem_flatMap] at hmem
  rcases hmem with hmem | hmem | hmem
  · exact hquote hmem
  · obtain ⟨c, hc, hmem⟩ := hmem
    rw [quoteChar] at hmem
    split at hmem
    · simp [hquote] at hmem
    · rw [List.mem_singleton] at hmem
      exact h (hmem ▸ hc)
  · exact hquote hmem

theorem notMem_quoteLine {f : List UInt8} {fs : List (List UInt8)} (h : ∀ g ∈ f :: fs, 0 ∉ g) :
    0 ∉ quoteLine (f :: fs) := by
  induction fs generalizing f with
  | nil =>
      rw [quoteLine_singleton]
      exact notMem_quoteField (h f (by simp))
  | cons g fs ih =>
      rw [quoteLine_cons, List.mem_append, List.mem_cons, not_or, not_or]
      exact ⟨notMem_quoteField (h f (by simp)), by decide, ih fun g hg => h g (by simp [hg])⟩

/-- **Fields come back** that are written in quotes, with each quote written twice: whatever is in
them, if the blocks are granted. Giving the result back leaves the blocks there were before. -/
theorem parse_csv_quoted (h : CsvHeap) {fs : List (List UInt8)} (hfs : fs ≠ [])
    (hnul : ∀ f ∈ fs, 0 ∉ f) (hlen : (quoteLine fs).length + 2 < 2 ^ 31)
    (hgrants : ∀ i < 2 + fs.length, h.grants (h.asked + i) = true) :
    ∃ h' p h'', parseCsv h (quoteLine fs) = some (h', some p) ∧ printed h' p = some fs ∧
      freeCsvLine h' p = some h'' ∧ h''.block = h.block := by
  obtain ⟨f, gs, rfl⟩ := List.exists_cons_of_ne_nil hfs
  have hfields : fields (quoteLine (f :: gs)) = some (f :: gs) := by
    rw [fields, scan_quoteLine]
    rfl
  obtain ⟨h', r, hparse, hret⟩ := parse_csv_spec h (notMem_quoteLine hnul) hlen
  obtain ⟨p, rfl⟩ := Option.isSome_iff_exists.mp (hret.isSome_iff.mpr ⟨_, hfields, hgrants⟩)
  obtain ⟨fs, ps, hfields', hat, hfresh, hsame⟩ := hret.result p rfl
  rw [hfields, Option.some.injEq] at hfields'
  subst hfields'
  obtain ⟨h'', hfree, -, -, hblock⟩ := free_csv_line_spec hat
  refine ⟨h', p, h'', hparse, hat.printed hnul, hfree, ?_⟩
  funext q
  rw [hblock q]
  split
  · rename_i hq
    exact (hfresh q hq).symm
  · rename_i hq
    exact hsame q hq

theorem parse_csv_quoted_two :
    ∃ h' p h'', parseCsv (Client.start fun _ => true).heap (quoteLine [[34, 44], []])
        = some (h', some p) ∧ printed h' p = some [[34, 44], []] ∧
      freeCsvLine h' p = some h'' ∧ h''.block = (Client.start fun _ => true).heap.block :=
  parse_csv_quoted _ (by simp) (by decide) (by decide) (fun _ _ => rfl)

end CCode.Csv
