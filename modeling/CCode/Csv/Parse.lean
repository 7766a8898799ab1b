import CCode.Csv.Fields

/-!
# A call of `parse_csv`

The loop is followed with the fields that are copied and the one that is being read, and with the
blocks that hold them. Where a copy is refused, the pointers before it lead to all copies there are.

## Main definitions

* `Parsing` — the state between two characters.
* `LineAt` — what a result leads to.
* `Returned` — what a call returns and leaves.

## Main results

* `Parsing.endField_granted`, `Parsing.endField_denied` — the end of a field.
* `parse_csv_spec` — a call.
-/

namespace CCode.Csv

open CCode.Lib

/-! ## Cells -/

theorem storeCell_of_store {h : CsvHeap} {p : ℕ} {b b' : List Cell} {i : ℤ} {c : Cell}
    (hb : h.block p = some b) (hstore : store b i c = some b') :
    ∃ h', storeCell h p i c = some h' ∧ h'.block = Function.update h.block p (some b') ∧
      h'.asked = h.asked ∧ h'.grants = h.grants := by
  obtain ⟨h', hput, hrest⟩ := Heap.put_of_block hb b'
  refine ⟨h', ?_, hrest⟩
  rw [storeCell, hb, Option.bind_eq_bind, Option.bind_some, hstore]
  exact hput

theorem readString_stringCells {s : List UInt8} (hs : 0 ∉ s) (junk : List Cell) :
    readString (s.map .char ++ .char 0 :: junk) = some s := by
  induction s with
  | nil => rfl
  | cons c s ih =>
      rw [List.mem_cons, not_or] at hs
      rw [List.map_cons, List.cons_append, readString, if_neg (Ne.symm hs.1), ih hs.2]
      rfl

/-- Pointers in a block. -/
def pointers (ps : List ℕ) : List Cell := ps.map fun p => .ptr (some p)

/-- The pointers before `bptr` are released from the last one on. -/
theorem freeBack_eq {h : CsvHeap} {buf : ℕ} {ps : List ℕ} {rest : List Cell}
    (hbuf : h.block buf = some (pointers ps ++ rest)) (hnot : buf ∉ ps) :
    freeBack buf ps.length h = h.freeAll ps.reverse := by
  induction ps using List.reverseRecOn generalizing h rest with
  | nil => rfl
  | append_singleton ps p ih =>
      have hload : loadCell h buf ps.length = some (.ptr (some p)) := by
        rw [loadCell, hbuf, Option.bind_eq_bind, Option.bind_some]
        exact load_of_eq (pointers ps) rest (by simp [pointers]) (by simp [pointers])
      rw [List.length_append, List.length_singleton, freeBack, hload, List.reverse_append,
        List.reverse_singleton, List.singleton_append, Heap.freeAll, List.foldlM_cons]
      simp only [Option.bind_eq_bind, Option.bind_some]
      rw [List.mem_append, not_or, List.mem_singleton] at hnot
      cases hp : h.block p with
      | none => rw [Heap.free_of_none hp]; rfl
      | some v =>
          obtain ⟨h', hfree, hblock, -⟩ := Heap.free_of_block hp
          rw [hfree, Option.bind_some]
          refine @ih h' (.ptr (some p) :: rest) ?_ hnot.1
          rw [hblock, Function.update_of_ne hnot.2, hbuf]
          simp [pointers]

/-- The pointers from `ptr` on are released up to the `NULL`. -/
theorem freeLoop_eq {h : CsvHeap} {parsed : ℕ} {ps : List ℕ} {pre rest : List Cell} {i : ℤ}
    (hbuf : h.block parsed = some (pre ++ (pointers ps ++ .ptr none :: rest))) (hnot : parsed ∉ ps)
    (hi : i = pre.length) {rounds : ℕ} (hrounds : ps.length < rounds) :
    freeLoop parsed rounds h i = h.freeAll ps := by
  obtain ⟨r, rfl⟩ : ∃ r, rounds = r + 1 := ⟨rounds - 1, by omega⟩
  induction ps generalizing h pre i r with
  | nil =>
      have hload : loadCell h parsed i = some (.ptr none) := by
        rw [loadCell, hbuf, Option.bind_eq_bind, Option.bind_some]
        exact load_of_eq pre rest rfl hi
      rw [freeLoop, hload]
      rfl
  | cons p ps ih =>
      have hload : loadCell h parsed i = some (.ptr (some p)) := by
        rw [loadCell, hbuf, Option.bind_eq_bind, Option.bind_some]
        exact load_of_eq pre (pointers ps ++ .ptr none :: rest) rfl hi
      rw [freeLoop, hload, Heap.freeAll, List.foldlM_cons]
      simp only [Option.bind_eq_bind, Option.bind_some]
      rw [List.mem_cons, not_or] at hnot
      rw [List.length_cons] at hrounds
      cases hp : h.block p with
      | none => rw [Heap.free_of_none hp]; rfl
      | some v =>
          obtain ⟨h', hfree, hblock, -⟩ := Heap.free_of_block hp
          obtain ⟨r, rfl⟩ : ∃ r', r = r' + 1 := ⟨r - 1, by omega⟩
          rw [hfree, Option.bind_some]
          refine @ih h' (pre ++ [.ptr (some p)]) (i + 1) ?_ hnot.2 (by simp [hi]) r (by omega)
          rw [hblock, Function.update_of_ne hnot.1, hbuf]
          simp [pointers]

/-! ## The state of a parse -/

/-- What has happened since `parse_csv` was called with the blocks `h₀`, for a line of `len`
characters and `n` fields: the fields `done` are copied, and `cur` is read of the next one. -/
structure Parsing (h₀ : CsvHeap) (n len : ℕ) (done : List (List UInt8)) (cur : List UInt8)
    (s : Parse) : Prop where
  asked : s.heap.asked = h₀.asked + 2 + done.length
  grants : s.heap.grants = h₀.grants
  granted : ∀ i < done.length, h₀.grants (h₀.asked + 2 + i) = true
  buf : ∃ junk, junk.length + done.length = n + 1 ∧ s.heap.block h₀.asked
    = some (pointers ((List.range done.length).map (h₀.asked + 2 + ·)) ++ junk)
  tmp : ∃ junk, junk.length + cur.length = len + 1 ∧
    s.heap.block (h₀.asked + 1) = some (cur.map .char ++ junk)
  strings : ∀ j f, done[j]? = some f → s.heap.block (h₀.asked + 2 + j) = some (stringCells f)
  others : ∀ p < h₀.asked, s.heap.block p = h₀.block p
  tptr : s.tptr = cur.length
  bptr : s.bptr = done.length

section

variable {h₀ : CsvHeap} {n len : ℕ} {done : List (List UInt8)} {cur : List UInt8} {s : Parse}

/-- **A character** goes to the field that is being read. -/
theorem Parsing.push (h : Parsing h₀ n len done cur s) (hlen : cur.length < len) (c : UInt8) :
    ∃ s', s.push (h₀.asked + 1) c = some s' ∧ Parsing h₀ n len done (cur ++ [c]) s' := by
  obtain ⟨junk, hjunk, htmp⟩ := h.tmp
  obtain ⟨x, junk, rfl⟩ : ∃ x junk', junk = x :: junk' :=
    List.exists_cons_of_length_pos (by omega)
  have hstore : store (cur.map .char ++ x :: junk) s.tptr (.char c)
      = some (cur.map .char ++ .char c :: junk) :=
    store_append (by rw [h.tptr, List.length_map]) _
  obtain ⟨h', hh, hblock, hasked, hgrants⟩ := storeCell_of_store htmp hstore
  refine ⟨⟨h', s.tptr + 1, s.bptr⟩, ?_, ?_⟩
  · rw [Parse.push, hh]
    rfl
  · have hsame : ∀ p, p ≠ h₀.asked + 1 → h'.block p = s.heap.block p := by
      intro p hp
      rw [hblock, Function.update_of_ne hp]
    exact
      { asked := hasked.trans h.asked
        grants := hgrants.trans h.grants
        granted := h.granted
        buf := by
          obtain ⟨rest, hrest, hbuf⟩ := h.buf
          exact ⟨rest, hrest, (hsame _ (by omega)).trans hbuf⟩
        tmp := by
          refine ⟨junk, ?_, ?_⟩
          · rw [List.length_append, List.length_singleton]
            rw [List.length_cons] at hjunk
            omega
          · rw [hblock, Function.update_self]
            simp
        strings := fun j f hf => (hsame _ (by omega)).trans (h.strings j f hf)
        others := fun p hp => (hsame p (by omega)).trans (h.others p hp)
        tptr := by
          rw [h.tptr, List.length_append]
          rfl
        bptr := h.bptr }

/-- The copies. -/
def copies (h₀ : CsvHeap) (k : ℕ) : List ℕ := (List.range k).map (h₀.asked + 2 + ·)

theorem mem_copies {k p : ℕ} :
    p ∈ copies h₀ k ↔ h₀.asked + 2 ≤ p ∧ p < h₀.asked + 2 + k := by
  rw [copies, List.mem_map]
  constructor
  · intro hp
    obtain ⟨j, hj, rfl⟩ := hp
    rw [List.mem_range] at hj
    omega
  · intro hp
    exact ⟨p - (h₀.asked + 2), List.mem_range.mpr (by omega), by omega⟩

theorem nodup_copies (h₀ : CsvHeap) (k : ℕ) : (copies h₀ k).Nodup := by
  rw [copies]
  exact List.nodup_range.map fun a b hab => Nat.add_left_cancel hab

/-- **All that a parse has allocated is released.** -/
theorem release {h : CsvHeap} {k : ℕ} (hlive : ∀ p ∈ copies h₀ k, (h.block p).isSome)
    (hbuf : (h.block h₀.asked).isSome) (htmp : (h.block (h₀.asked + 1)).isSome)
    (hothers : ∀ p < h₀.asked, h.block p = h₀.block p)
    (hfresh : ∀ p, h₀.asked + 2 + k ≤ p → h.block p = none) :
    ∃ h₁ h₂ h₃, h.freeAll (copies h₀ k).reverse = some h₁ ∧ h₁.free h₀.asked = some h₂ ∧
      h₂.free (h₀.asked + 1) = some h₃ ∧ h₃.block = h₀.block ∧ h₃.asked = h.asked ∧
      h₃.grants = h.grants := by
  obtain ⟨h₁, hfree₁, hblock₁, hasked₁, hgrants₁⟩ := Heap.freeAll_of_blocks
    (fun p hp => hlive p (List.mem_reverse.mp hp)) (List.nodup_reverse.mpr (nodup_copies h₀ k))
  simp only [List.mem_reverse, mem_copies] at hblock₁
  obtain ⟨b, hb⟩ := Option.isSome_iff_exists.mp hbuf
  have hbuf₁ : h₁.block h₀.asked = some b := by rw [hblock₁, if_neg (by omega), hb]
  obtain ⟨h₂, hfree₂, hblock₂, hasked₂, hgrants₂⟩ := Heap.free_of_block hbuf₁
  obtain ⟨t, ht⟩ := Option.isSome_iff_exists.mp htmp
  have htmp₂ : h₂.block (h₀.asked + 1) = some t := by
    rw [hblock₂, Function.update_of_ne (by omega), hblock₁, if_neg (by omega), ht]
  obtain ⟨h₃, hfree₃, hblock₃, hasked₃, hgrants₃⟩ := Heap.free_of_block htmp₂
  refine ⟨h₁, h₂, h₃, hfree₁, hfree₂, hfree₃, ?_, ?_, ?_⟩
  · funext p
    rw [hblock₃, Function.update_apply, hblock₂, Function.update_apply, hblock₁]
    by_cases hold : p < h₀.asked
    · rw [if_neg (by omega), if_neg (by omega), if_neg (by omega), hothers p hold]
    · rw [h₀.fresh p (by omega)]
      split
      · rfl
      · split
        · rfl
        · split
          · rfl
          · exact hfresh p (by omega)
  · rw [hasked₃, hasked₂, hasked₁]
  · rw [hgrants₃, hgrants₂, hgrants₁]

/-- The field that is being read is ended, and can be copied. -/
theorem Parsing.terminate (h : Parsing h₀ n len done cur s) (hlen : cur.length ≤ len)
    (hnul : 0 ∉ cur) :
    ∃ h₁ junk, storeCell s.heap (h₀.asked + 1) s.tptr (.char 0) = some h₁ ∧
      h₁.block = Function.update s.heap.block (h₀.asked + 1)
        (some (cur.map .char ++ .char 0 :: junk)) ∧
      junk.length + cur.length = len ∧
      strdup h₁ (h₀.asked + 1) = some (h₁.malloc (stringCells cur)) ∧
      h₁.asked = h₀.asked + 2 + done.length ∧ h₁.grants = h₀.grants := by
  obtain ⟨junk, hjunk, htmp⟩ := h.tmp
  obtain ⟨x, junk, rfl⟩ : ∃ x junk', junk = x :: junk' :=
    List.exists_cons_of_length_pos (by omega)
  have hstore : store (cur.map .char ++ x :: junk) s.tptr (.char 0)
      = some (cur.map .char ++ .char 0 :: junk) :=
    store_append (by rw [h.tptr, List.length_map]) _
  obtain ⟨h₁, hh₁, hblock₁, hasked₁, hgrants₁⟩ := storeCell_of_store htmp hstore
  refine ⟨h₁, junk, hh₁, hblock₁, ?_, ?_, hasked₁.trans h.asked, hgrants₁.trans h.grants⟩
  · rw [List.length_cons] at hjunk
    omega
  · rw [strdup, hblock₁, Function.update_self, Option.bind_eq_bind, Option.bind_some,
      readString_stringCells hnul, Option.bind_eq_bind, Option.bind_some]

/-- A pointer is written behind those of the copies. -/
theorem Parsing.point (h : Parsing h₀ n len done cur s) (hdone : done.length ≤ n) {h₂ : CsvHeap}
    (hsame : h₂.block h₀.asked = s.heap.block h₀.asked) (c : Cell) :
    ∃ h₃ rest, storeCell h₂ h₀.asked s.bptr c = some h₃ ∧
      h₃.block = Function.update h₂.block h₀.asked
        (some (pointers (copies h₀ done.length) ++ c :: rest)) ∧
      rest.length + done.length = n ∧ h₃.asked = h₂.asked ∧ h₃.grants = h₂.grants := by
  obtain ⟨rest, hrest, hbuf⟩ := h.buf
  obtain ⟨y, rest, rfl⟩ : ∃ y rest', rest = y :: rest' :=
    List.exists_cons_of_length_pos (by omega)
  have hstore : store (pointers (copies h₀ done.length) ++ y :: rest) s.bptr c
      = some (pointers (copies h₀ done.length) ++ c :: rest) :=
    store_append (by rw [h.bptr]; simp [pointers, copies]) _
  obtain ⟨h₃, hh₃, hblock₃, hasked₃, hgrants₃⟩ := storeCell_of_store (hsame.trans hbuf) hstore
  refine ⟨h₃, rest, hh₃, hblock₃, ?_, hasked₃, hgrants₃⟩
  rw [List.length_cons] at hrest
  omega

/-- The copies are in use. -/
theorem Parsing.isSome_copies (h : Parsing h₀ n len done cur s) :
    ∀ p ∈ copies h₀ done.length, (s.heap.block p).isSome := by
  intro p hp
  have hrange := mem_copies.mp hp
  obtain ⟨j, rfl⟩ : ∃ j, p = h₀.asked + 2 + j := ⟨p - (h₀.asked + 2), by omega⟩
  have hj : j < done.length := by omega
  rw [h.strings j done[j] (List.getElem?_eq_getElem hj)]
  rfl

/-- **The end of a field**, whose copy is granted. -/
theorem Parsing.endField_granted (h : Parsing h₀ n len done cur s) (hdone : done.length < n)
    (hlen : cur.length ≤ len) (hnul : 0 ∉ cur)
    (hgrant : h₀.grants (h₀.asked + 2 + done.length) = true) :
    ∃ s', endField h₀.asked (h₀.asked + 1) s = some (.inr s') ∧
      Parsing h₀ n len (done ++ [cur]) [] s' := by
  obtain ⟨h₁, junk, hh₁, hblock₁, hjunk, hdup, hasked₁, hgrants₁⟩ := h.terminate hlen hnul
  obtain ⟨h₂, hh₂, hblock₂, hasked₂, hgrants₂⟩ := Heap.malloc_of_grants (stringCells cur)
    (h := h₁) (by rw [hgrants₁, hasked₁, hgrant])
  rw [hasked₁] at hh₂ hblock₂
  have hbuf₂ : h₂.block h₀.asked = s.heap.block h₀.asked := by
    rw [hblock₂, Function.update_of_ne (by omega), hblock₁, Function.update_of_ne (by omega)]
  obtain ⟨h₃, rest, hh₃, hblock₃, hrest, hasked₃, hgrants₃⟩ :=
    h.point (by omega) hbuf₂ (.ptr (some (h₀.asked + 2 + done.length)))
  refine ⟨⟨h₃, 0, s.bptr + 1⟩, ?_, ?_⟩
  · rw [endField, hh₁, Option.bind_eq_bind, Option.bind_some, hdup, hh₂, Option.bind_eq_bind,
      Option.bind_some]
    simp only
    rw [hh₃]
    rfl
  · have hsame : ∀ p, p ≠ h₀.asked → p ≠ h₀.asked + 1 → p ≠ h₀.asked + 2 + done.length →
        h₃.block p = s.heap.block p := by
      intro p hp hp₁ hp₂
      rw [hblock₃, Function.update_of_ne hp, hblock₂, Function.update_of_ne hp₂, hblock₁,
        Function.update_of_ne hp₁]
    exact
      { asked := by
          rw [hasked₃, hasked₂, hasked₁, List.length_append]
          rfl
        grants := by rw [hgrants₃, hgrants₂, hgrants₁]
        granted := by
          intro i hi
          rw [List.length_append, List.length_singleton] at hi
          rcases Nat.lt_succ_iff_lt_or_eq.mp hi with hlt | rfl
          · exact h.granted i hlt
          · exact hgrant
        buf := by
          refine ⟨rest, ?_, ?_⟩
          · rw [List.length_append, List.length_singleton]
            omega
          · rw [hblock₃, Function.update_self, List.length_append, List.length_singleton,
              List.range_succ, List.map_append]
            simp [pointers, copies]
        tmp := by
          refine ⟨cur.map .char ++ .char 0 :: junk, ?_, ?_⟩
          · simp only [List.length_append, List.length_map, List.length_cons, List.length_nil]
            omega
          · rw [hblock₃, Function.update_of_ne (by omega), hblock₂,
              Function.update_of_ne (by omega), hblock₁, Function.update_self]
            rfl
        strings := by
          intro j f hf
          by_cases hj : j < done.length
          · rw [List.getElem?_append_left hj] at hf
            rw [hsame _ (by omega) (by omega) (by omega)]
            exact h.strings j f hf
          · have hj' : j = done.length := by
              have hin := (List.getElem?_eq_some_iff.mp hf).1
              rw [List.length_append, List.length_singleton] at hin
              omega
            subst hj'
            rw [List.getElem?_append_right (Nat.le_refl _), Nat.sub_self] at hf
            rw [hblock₃, Function.update_of_ne (by omega), hblock₂, Function.update_self,
              Option.some.inj hf]
        others := fun p hp =>
          (hsame p (by omega) (by omega) (by omega)).trans (h.others p hp)
        tptr := rfl
        bptr := by
          rw [h.bptr, List.length_append]
          rfl }

/-- **The end of a field**, whose copy is refused: nothing is kept. -/
theorem Parsing.endField_denied (h : Parsing h₀ n len done cur s) (hdone : done.length < n)
    (hlen : cur.length ≤ len) (hnul : 0 ∉ cur)
    (hdeny : h₀.grants (h₀.asked + 2 + done.length) = false) :
    ∃ h', endField h₀.asked (h₀.asked + 1) s = some (.inl h') ∧ h'.block = h₀.block ∧
      h₀.asked ≤ h'.asked ∧ h'.grants = h₀.grants := by
  obtain ⟨h₁, junk, hh₁, hblock₁, hjunk, hdup, hasked₁, hgrants₁⟩ := h.terminate hlen hnul
  obtain ⟨h₂, hh₂, hblock₂, hasked₂, hgrants₂⟩ := Heap.malloc_of_denied (stringCells cur)
    (h := h₁) (by rw [hgrants₁, hasked₁, hdeny])
  have hbuf₂ : h₂.block h₀.asked = s.heap.block h₀.asked := by
    rw [hblock₂, hblock₁, Function.update_of_ne (by omega)]
  obtain ⟨h₃, rest, hh₃, hblock₃, hrest, hasked₃, hgrants₃⟩ :=
    h.point (by omega) hbuf₂ (.ptr none)
  have hsame : ∀ p, p ≠ h₀.asked → p ≠ h₀.asked + 1 → h₃.block p = s.heap.block p := by
    intro p hp hp₁
    rw [hblock₃, Function.update_of_ne hp, hblock₂, hblock₁, Function.update_of_ne hp₁]
  have hback : freeBack h₀.asked s.bptr.toNat h₃
      = h₃.freeAll (copies h₀ done.length).reverse := by
    have hlength : (copies h₀ done.length).length = s.bptr.toNat := by
      rw [h.bptr]
      simp [copies]
    rw [← hlength]
    refine freeBack_eq (by rw [hblock₃, Function.update_self]) fun hmem => ?_
    have hrange := mem_copies.mp hmem
    omega
  have hlive : ∀ p ∈ copies h₀ done.length, (h₃.block p).isSome := by
    intro p hp
    have hrange := mem_copies.mp hp
    rw [hsame p (by omega) (by omega)]
    exact h.isSome_copies p hp
  have hfresh : ∀ p, h₀.asked + 2 + done.length ≤ p → h₃.block p = none := by
    intro p hp
    rw [hsame p (by omega) (by omega)]
    exact s.heap.fresh p (by rw [h.asked]; exact hp)
  obtain ⟨h₄, h₅, h', hfree₄, hfree₅, hfree', hblock', hasked', hgrants'⟩ := release hlive
    (by rw [hblock₃, Function.update_self]; rfl)
    (by rw [hblock₃, Function.update_of_ne (by omega), hblock₂, hblock₁, Function.update_self]; rfl)
    (fun p hp => (hsame p (by omega) (by omega)).trans (h.others p hp)) hfresh
  refine ⟨h', ?_, hblock', ?_, ?_⟩
  · rw [endField, hh₁, Option.bind_eq_bind, Option.bind_some, hdup, hh₂, Option.bind_eq_bind,
      Option.bind_some]
    simp only [hh₃, hback, hfree₄, hfree₅, hfree', Option.bind_some]
  · rw [hasked', hasked₃, hasked₂, hasked₁]
    omega
  · rw [hgrants', hgrants₃, hgrants₂, hgrants₁]

/-- What the loop of `parse_csv` leaves for the fields `all`: all of them, or what there was before
where a copy is refused. -/
def Outcome (h₀ : CsvHeap) (n len : ℕ) (all : List (List UInt8)) (r : Option (CsvHeap ⊕ Parse)) :
    Prop :=
  if ∀ i < all.length, h₀.grants (h₀.asked + 2 + i) = true then
    ∃ s', r = some (.inr s') ∧ Parsing h₀ n len all [] s'
  else
    ∃ h', r = some (.inl h') ∧ h'.block = h₀.block ∧ h₀.asked ≤ h'.asked ∧ h'.grants = h₀.grants

/-- The end of the last field. -/
theorem Parsing.endField_last (h : Parsing h₀ n len done cur s) (hdone : done.length + 1 = n)
    (hlen : cur.length ≤ len) (hnul : 0 ∉ cur) :
    Outcome h₀ n len (done ++ [cur]) (endField h₀.asked (h₀.asked + 1) s) := by
  rw [Outcome, List.length_append, List.length_singleton]
  cases hgrant : h₀.grants (h₀.asked + 2 + done.length) with
  | true =>
      have hall : ∀ i < done.length + 1, h₀.grants (h₀.asked + 2 + i) = true := by
        intro i hi
        rcases Nat.lt_succ_iff_lt_or_eq.mp hi with hlt | rfl
        · exact h.granted i hlt
        · exact hgrant
      rw [if_pos hall]
      exact h.endField_granted (by omega) hlen hnul hgrant
  | false =>
      have hnot : ¬∀ i < done.length + 1, h₀.grants (h₀.asked + 2 + i) = true := by
        intro hall
        rw [hall done.length (Nat.lt_succ_self _)] at hgrant
        cases hgrant
      rw [if_neg hnot]
      exact h.endField_denied (by omega) hlen hnul hgrant

/-- The loop goes on behind a character of the field. -/
theorem Parsing.push_outcome (h : Parsing h₀ n len done cur s) (hlen : cur.length < len)
    {c : UInt8} {f : List UInt8} {fs : List (List UInt8)} {r : Parse → Option (CsvHeap ⊕ Parse)}
    (hr : ∀ s', Parsing h₀ n len done (cur ++ [c]) s' →
      Outcome h₀ n len (done ++ (cur ++ [c] ++ f) :: fs) (r s')) :
    Outcome h₀ n len (done ++ (cur ++ c :: f) :: fs) ((s.push (h₀.asked + 1) c).bind r) := by
  obtain ⟨s', hpush, h'⟩ := h.push hlen c
  have hrest := hr s' h'
  rw [List.append_assoc, List.singleton_append] at hrest
  rw [hpush]
  exact hrest

theorem notMem_append_singleton {c : UInt8} (hcur : 0 ∉ cur) (hc : c ≠ 0) : 0 ∉ cur ++ [c] := by
  rw [List.mem_append, List.mem_singleton, not_or]
  exact ⟨hcur, hc.symm⟩

/-- **The loop of `parse_csv`** leaves the fields that the machine finds. -/
theorem parseLoop_outcome (line : List UInt8) (fQuote : Bool) (s : Parse)
    {done : List (List UInt8)} {cur f : List UInt8} {fs : List (List UInt8)}
    (h : Parsing h₀ n len done cur s) (hscan : scan (mode fQuote) line = some (f, fs))
    (hn : done.length + 1 + fs.length = n) (hlen : cur.length + line.length ≤ len)
    (hcur : 0 ∉ cur) (hline : 0 ∉ line) :
    Outcome h₀ n len (done ++ (cur ++ f) :: fs)
      (parseLoop h₀.asked (h₀.asked + 1) line fQuote s) := by
  induction line, fQuote, s using parseLoop.induct generalizing done cur f fs with
  | case1 s => cases hscan
  | case2 s =>
      simp only [mode, Bool.false_eq_true, if_false, scan, Option.some.injEq,
        Prod.mk.injEq] at hscan
      rw [← hscan.2] at hn
      rw [parseLoop, ← hscan.1, ← hscan.2, List.append_nil]
      exact h.endField_last hn (by omega) hcur
  | case3 rest s htwo ih =>
      rw [mode, if_pos rfl, scan_quoted_quote, if_pos htwo] at hscan
      obtain ⟨⟨g, gs⟩, hx, heq⟩ := Option.map_eq_some_iff.mp hscan
      rw [Prod.mk.injEq] at heq
      rw [List.length_cons] at hlen
      rw [List.mem_cons, not_or] at hline
      rw [parseLoop, if_pos rfl, if_pos htwo, ← heq.1, ← heq.2]
      refine h.push_outcome (by omega) fun s' h' => ih s' h' hx (by rw [← hn, ← heq.2]) ?_ ?_ ?_
      · rw [List.length_append, List.length_singleton, List.length_tail]
        have hpos : 0 < rest.length := by
          cases rest with
          | nil => cases htwo
          | cons d rest => simp
        omega
      · exact notMem_append_singleton hcur (by decide)
      · exact fun hmem => hline.2 (List.mem_of_mem_tail hmem)
  | case4 rest s hone ih =>
      rw [mode, if_pos rfl, scan_quoted_quote, if_neg hone] at hscan
      rw [List.length_cons] at hlen
      rw [List.mem_cons, not_or] at hline
      rw [parseLoop, if_pos rfl, if_neg hone]
      exact ih h hscan hn (by omega) hcur hline.2
  | case5 c rest s hc ih =>
      rw [mode, if_pos rfl, scan_quoted_cons hc] at hscan
      obtain ⟨⟨g, gs⟩, hx, heq⟩ := Option.map_eq_some_iff.mp hscan
      rw [Prod.mk.injEq] at heq
      rw [List.length_cons] at hlen
      rw [List.mem_cons, not_or] at hline
      rw [parseLoop, if_neg hc, ← heq.1, ← heq.2]
      refine h.push_outcome (by omega) fun s' h' =>
        ih s' h' hx (by rw [← hn, ← heq.2]) ?_ ?_ hline.2
      · rw [List.length_append, List.length_singleton]
        omega
      · exact notMem_append_singleton hcur (Ne.symm hline.1)
  | case6 rest s ih =>
      rw [mode, if_neg (by simp), scan_plain_quote] at hscan
      rw [List.length_cons] at hlen
      rw [List.mem_cons, not_or] at hline
      rw [parseLoop, if_pos rfl]
      exact ih h hscan hn (by omega) hcur hline.2
  | case7 rest s hne ih =>
      rw [mode, if_neg (by simp), scan_plain_comma] at hscan
      obtain ⟨⟨g, gs⟩, hx, heq⟩ := Option.map_eq_some_iff.mp hscan
      rw [Prod.mk.injEq] at heq
      rw [← heq.2, List.length_cons] at hn
      rw [List.length_cons] at hlen
      rw [List.mem_cons, not_or] at hline
      rw [parseLoop, if_neg hne, if_pos rfl, ← heq.1, ← heq.2, List.append_nil]
      cases hgrant : h₀.grants (h₀.asked + 2 + done.length) with
      | true =>
          obtain ⟨s', hend, h'⟩ := h.endField_granted (by omega) (by omega) hcur hgrant
          rw [hend, Option.bind_some, List.append_cons]
          refine ih s' h' hx ?_ ?_ (by simp) hline.2
          · rw [List.length_append, List.length_singleton]
            omega
          · rw [List.length_nil]
            omega
      | false =>
          obtain ⟨h', hend, hrest⟩ := h.endField_denied (by omega) (by omega) hcur hgrant
          have hnot : ¬∀ i < (done ++ cur :: g :: gs).length,
              h₀.grants (h₀.asked + 2 + i) = true := by
            intro hall
            rw [hall done.length (by simp)] at hgrant
            cases hgrant
          rw [Outcome, if_neg hnot, hend]
          exact ⟨h', rfl, hrest⟩
  | case8 c rest s hq hc ih =>
      rw [mode, if_neg (by simp), scan_plain_cons hq hc] at hscan
      obtain ⟨⟨g, gs⟩, hx, heq⟩ := Option.map_eq_some_iff.mp hscan
      rw [Prod.mk.injEq] at heq
      rw [List.length_cons] at hlen
      rw [List.mem_cons, not_or] at hline
      rw [parseLoop, if_neg hq, if_neg hc, ← heq.1, ← heq.2]
      refine h.push_outcome (by omega) fun s' h' =>
        ih s' h' hx (by rw [← hn, ← heq.2]) ?_ ?_ hline.2
      · rw [List.length_append, List.length_singleton]
        omega
      · exact notMem_append_singleton hcur (Ne.symm hline.1)

end

/-! ## A call -/

/-- The fields that a pointer leads to. -/
structure LineAt (h : CsvHeap) (p : ℕ) (ps : List ℕ) (fs : List (List UInt8)) : Prop where
  block : h.block p = some (pointers ps ++ [.ptr none])
  strings : List.Forall₂ (fun q f => h.block q = some (stringCells f)) ps fs
  nodup : (p :: ps).Nodup

/-- What a call of `parse_csv` returns and leaves. -/
structure Returned (h : CsvHeap) (line : List UInt8) (h' : CsvHeap) (r : Option ℕ) : Prop where
  grants : h'.grants = h.grants
  asked : h.asked ≤ h'.asked
  null : r = none → h'.block = h.block
  result : ∀ p, r = some p → ∃ fs ps, fields line = some fs ∧ LineAt h' p ps fs ∧
    (∀ q ∈ p :: ps, h.block q = none) ∧ ∀ q ∉ p :: ps, h'.block q = h.block q
  isSome_iff : r.isSome ↔
    ∃ fs, fields line = some fs ∧ ∀ i < 2 + fs.length, h.grants (h.asked + i) = true

/-- The state before the first character, where both blocks are granted. -/
theorem exists_parsing {h : CsvHeap} {n len : ℕ} (hbuf : h.grants h.asked = true)
    (htmp : h.grants (h.asked + 1) = true) :
    ∃ h₁ h₂ h₃, h.malloc (List.replicate (n + 1) .junk) = (h₁, some h.asked) ∧
      h₁.malloc (List.replicate (len + 1) .junk) = (h₂, some (h.asked + 1)) ∧
      storeCell h₂ (h.asked + 1) 0 (.char 0) = some h₃ ∧
      Parsing h n len [] [] { heap := h₃, tptr := 0, bptr := 0 } := by
  obtain ⟨h₁, hh₁, hblock₁, hasked₁, hgrants₁⟩ :=
    Heap.malloc_of_grants (List.replicate (n + 1) Cell.junk) hbuf
  obtain ⟨h₂, hh₂, hblock₂, hasked₂, hgrants₂⟩ :=
    Heap.malloc_of_grants (h := h₁) (List.replicate (len + 1) Cell.junk)
      (by rw [hgrants₁, hasked₁, htmp])
  rw [hasked₁] at hh₂ hblock₂
  have hstore : store (List.replicate (len + 1) Cell.junk) 0 (.char 0)
      = some (.char 0 :: List.replicate len .junk) := by
    rw [List.replicate_succ]
    exact @store_append _ [] _ _ 0 rfl _
  obtain ⟨h₃, hh₃, hblock₃, hasked₃, hgrants₃⟩ := storeCell_of_store (h := h₂) (p := h.asked + 1)
    (by rw [hblock₂, Function.update_self]) hstore
  refine ⟨h₁, h₂, h₃, hh₁, hh₂, hh₃, ?_⟩
  have hsame : ∀ p, p ≠ h.asked → p ≠ h.asked + 1 → h₃.block p = h.block p := by
    intro p hp hp₁
    rw [hblock₃, Function.update_of_ne hp₁, hblock₂, Function.update_of_ne hp₁, hblock₁,
      Function.update_of_ne hp]
  exact
    { asked := by
        rw [hasked₃, hasked₂, hasked₁]
        rfl
      grants := by rw [hgrants₃, hgrants₂, hgrants₁]
      granted := fun i hi => absurd hi (Nat.not_lt_zero i)
      buf := by
        refine ⟨List.replicate (n + 1) .junk, by simp, ?_⟩
        rw [hblock₃, Function.update_of_ne (by omega), hblock₂, Function.update_of_ne (by omega),
          hblock₁, Function.update_self]
        rfl
      tmp := by
        refine ⟨.char 0 :: List.replicate len .junk, by simp, ?_⟩
        rw [hblock₃, Function.update_self]
        rfl
      strings := fun j f hf => by simp at hf
      others := fun p hp => hsame p (by omega) (by omega)
      tptr := rfl
      bptr := rfl }

/-- The end of a call that has copied all fields. -/
theorem Parsing.finish {h₀ : CsvHeap} {len : ℕ} {fs : List (List UInt8)} {s : Parse}
    (h : Parsing h₀ fs.length len fs [] s) :
    ∃ h₁ h₂, storeCell s.heap h₀.asked s.bptr (.ptr none) = some h₁ ∧
      h₁.free (h₀.asked + 1) = some h₂ ∧ h₂.grants = h₀.grants ∧ h₀.asked ≤ h₂.asked ∧
      LineAt h₂ h₀.asked (copies h₀ fs.length) fs ∧
      ∀ q ∉ h₀.asked :: copies h₀ fs.length, h₂.block q = h₀.block q := by
  obtain ⟨h₁, rest, hh₁, hblock₁, hrest, hasked₁, hgrants₁⟩ := h.point (Nat.le_refl _) rfl
    (.ptr none)
  obtain ⟨junk, -, htmp⟩ := h.tmp
  obtain ⟨h₂, hfree, hblock₂, hasked₂, hgrants₂⟩ := Heap.free_of_block (h := h₁)
    (p := h₀.asked + 1) (by rw [hblock₁, Function.update_of_ne (by omega), htmp])
  have hsame : ∀ p, p ≠ h₀.asked → p ≠ h₀.asked + 1 → h₂.block p = s.heap.block p := by
    intro p hp hp₁
    rw [hblock₂, Function.update_of_ne hp₁, hblock₁, Function.update_of_ne hp]
  refine ⟨h₁, h₂, hh₁, hfree, by rw [hgrants₂, hgrants₁, h.grants], ?_, ?_, ?_⟩
  · rw [hasked₂, hasked₁, h.asked]
    omega
  · refine ⟨?_, ?_, ?_⟩
    · obtain rfl := List.eq_nil_of_length_eq_zero (show rest.length = 0 by omega)
      rw [hblock₂, Function.update_of_ne (by omega), hblock₁, Function.update_self]
    · rw [List.forall₂_iff_get]
      refine ⟨by simp [copies], fun j hj hj' => ?_⟩
      have hq : (copies h₀ fs.length).get ⟨j, hj⟩ = h₀.asked + 2 + j := by simp [copies]
      rw [hq, hsame _ (by omega) (by omega)]
      exact h.strings j _ (List.getElem?_eq_getElem hj')
    · rw [List.nodup_cons, mem_copies]
      exact ⟨by omega, nodup_copies h₀ _⟩
  · intro q hq
    rw [List.mem_cons, not_or, mem_copies] at hq
    by_cases hold : q < h₀.asked
    · rw [hsame q (by omega) (by omega), h.others q hold]
    · rw [h₀.fresh q (by omega)]
      by_cases htmp' : q = h₀.asked + 1
      · rw [hblock₂, htmp', Function.update_self]
      · rw [hsame q hq.1 htmp']
        exact s.heap.fresh q (by rw [h.asked]; omega)

/-- A call that returns `NULL`. -/
theorem Returned.of_null {h h' : CsvHeap} {line : List UInt8} (hgrants : h'.grants = h.grants)
    (hasked : h.asked ≤ h'.asked) (hblock : h'.block = h.block)
    (hnot : ¬∃ fs, fields line = some fs ∧ ∀ i < 2 + fs.length, h.grants (h.asked + i) = true) :
    Returned h line h' none where
  grants := hgrants
  asked := hasked
  null := fun _ => hblock
  result := fun p hp => by cases hp
  isSome_iff := ⟨fun hsome => by simp at hsome, fun hex => absurd hex hnot⟩

/-- `parse_csv` behind `count_fields`. -/
theorem parseCsv_of_fields {h : CsvHeap} {line : List UInt8} (hlen : line.length + 2 < 2 ^ 31)
    {fs : List (List UInt8)} (hfields : fields line = some fs) :
    parseCsv h line = match h.malloc (List.replicate (fs.length + 1) .junk) with
      | (h, none) => some (h, none)
      | (h, some buf) =>
          match h.malloc (List.replicate (line.length + 1) .junk) with
          | (h, none) => (h.free buf).map fun h => (h, none)
          | (h, some tmp) =>
              (storeCell h tmp 0 (.char 0)).bind fun h =>
                (parseLoop buf tmp line false { heap := h, tptr := 0, bptr := 0 }).bind fun r =>
                  match r with
                  | .inl h => some (h, none)
                  | .inr s =>
                      (storeCell s.heap buf s.bptr (.ptr none)).bind fun h =>
                        (h.free tmp).bind fun h => some (h, some buf) := by
  have hcount := countFields_eq hlen
  rw [hfields] at hcount
  have hlength := length_fields_le hfields
  have hint : int32 ((fs.length : ℤ) + 1) = some ((fs.length : ℤ) + 1) :=
    int32_of_lt (by omega) (by omega)
  have hne : ¬(fs.length : ℤ) = -1 := by omega
  have hnat : ((fs.length : ℤ) + 1).toNat = fs.length + 1 := by omega
  rw [parseCsv, hcount, Option.bind_eq_bind, Option.bind_some, if_neg hne, hint,
    Option.bind_eq_bind, Option.bind_some, hnat]
  rfl

/-- **What `parse_csv` does**, whatever requests are granted: it returns the fields of the line, in
blocks that were not in use, or `NULL`, and then the blocks are those there were before. -/
theorem parse_csv_spec (h : CsvHeap) {line : List UInt8} (hline : 0 ∉ line)
    (hlen : line.length + 2 < 2 ^ 31) :
    ∃ h' r, parseCsv h line = some (h', r) ∧ Returned h line h' r := by
  cases hfields : fields line with
  | none =>
      have hcount := countFields_eq hlen
      rw [hfields] at hcount
      refine ⟨h, none, ?_, .of_null rfl (Nat.le_refl _) rfl (by simp [hfields])⟩
      rw [parseCsv, hcount]
      rfl
  | some fs =>
      have hdeny : ∀ i < 2 + fs.length, h.grants (h.asked + i) = false →
          ¬∃ fs, fields line = some fs ∧ ∀ i < 2 + fs.length, h.grants (h.asked + i) = true := by
        intro i hi hfalse hex
        obtain ⟨fs', hfs', hall⟩ := hex
        rw [hfields, Option.some.injEq] at hfs'
        subst hfs'
        rw [hall i hi] at hfalse
        cases hfalse
      rw [parseCsv_of_fields hlen hfields]
      cases hbuf : h.grants h.asked with
      | false =>
          obtain ⟨h₁, hh₁, hblock₁, hasked₁, hgrants₁⟩ :=
            Heap.malloc_of_denied (List.replicate (fs.length + 1) Cell.junk) hbuf
          rw [hh₁]
          exact ⟨h₁, none, rfl, .of_null hgrants₁ (by omega) hblock₁ (hdeny 0 (by omega) hbuf)⟩
      | true =>
          cases htmp : h.grants (h.asked + 1) with
          | false =>
              obtain ⟨h₁, hh₁, hblock₁, hasked₁, hgrants₁⟩ :=
                Heap.malloc_of_grants (List.replicate (fs.length + 1) Cell.junk) hbuf
              obtain ⟨h₂, hh₂, hblock₂, hasked₂, hgrants₂⟩ :=
                Heap.malloc_of_denied (h := h₁) (List.replicate (line.length + 1) Cell.junk)
                  (by rw [hgrants₁, hasked₁, htmp])
              obtain ⟨h₃, hfree, hblock₃, hasked₃, hgrants₃⟩ := Heap.free_of_block (h := h₂)
                (p := h.asked) (by rw [hblock₂, hblock₁, Function.update_self])
              have hback : h₃.block = h.block := by
                rw [hblock₃, hblock₂, hblock₁, Function.update_idem]
                exact Function.update_eq_self_iff.mpr (h.fresh _ (Nat.le_refl _)).symm
              simp only [hh₁, hh₂, hfree, Option.map_some]
              exact ⟨h₃, none, rfl, .of_null (by rw [hgrants₃, hgrants₂, hgrants₁]) (by omega) hback
                (hdeny 1 (by omega) htmp)⟩
          | true =>
              obtain ⟨h₁, h₂, h₃, hh₁, hh₂, hh₃, hparsing⟩ :=
                @exists_parsing h fs.length line.length hbuf htmp
              obtain ⟨f, gs, rfl, hscan⟩ := exists_of_fields hfields
              have hloop := parseLoop_outcome line false _ hparsing hscan (by simp [add_comm])
                (by simp) (by simp) hline
              simp only [hh₁, hh₂, hh₃, Option.bind_some]
              rw [List.nil_append, List.nil_append, Outcome] at hloop
              split at hloop
              · rename_i hall
                obtain ⟨s', hloop, hparsed⟩ := hloop
                obtain ⟨h₄, h₅, hh₄, hh₅, hgrants, hasked, hlineAt, hsame⟩ := hparsed.finish
                rw [hloop]
                simp only [Option.bind_some, hh₄, hh₅]
                refine ⟨h₅, some h.asked, rfl, hgrants, hasked, (fun hnone => by cases hnone), ?_,
                  ?_⟩
                · intro p hp
                  rw [← Option.some.inj hp]
                  refine ⟨f :: gs, _, hfields, hlineAt, fun q hq => h.fresh q ?_, hsame⟩
                  rw [List.mem_cons, mem_copies] at hq
                  omega
                · refine ⟨fun _ => ⟨f :: gs, hfields, fun i hi => ?_⟩, fun _ => rfl⟩
                  by_cases hi₂ : 2 ≤ i
                  · have hgrant := hall (i - 2) (by omega)
                    rwa [show h.asked + 2 + (i - 2) = h.asked + i by omega] at hgrant
                  · have hi₁ : i = 0 ∨ i = 1 := by omega
                    rcases hi₁ with rfl | rfl
                    · exact hbuf
                    · exact htmp
              · rename_i hnot
                obtain ⟨h', hloop, hblock, hasked, hgrants⟩ := hloop
                rw [hloop]
                refine ⟨h', none, rfl, .of_null hgrants hasked hblock ?_⟩
                intro hex
                obtain ⟨fs', hfs', hall⟩ := hex
                rw [hfields, Option.some.injEq] at hfs'
                subst hfs'
                apply hnot
                intro i hi
                rw [Nat.add_assoc]
                exact hall (2 + i) (by omega)

end CCode.Csv
