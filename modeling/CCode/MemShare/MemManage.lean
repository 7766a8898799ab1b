import Mathlib.Data.Finset.Card
import Mathlib.Data.List.Nodup
import Mathlib.Data.List.TakeWhile
import CCode.Lib.Bytes

/-!
# The leak tracker

With `__MEMORY_DEBUG__` set, `mem_manage.c` wraps `malloc`, `calloc` and `free`, keeps one
record for each address that was ever returned, and prints those whose count is not zero.
The records are found by address and never leave the table. So a record keeps the function
and the line of the first allocation at its address; an allocation from another place that
gets the address later only counts it up. The table has 4096 records and the one behind
them is written as if it were there, a failed allocation is recorded as a block at 0, and
of a function's name 31 characters are kept.

`memDump_live_iff` says for which histories the dump is right all the same.

## Main definitions

* `MemRecord`, `addRec`, `rmRec`, `memDump` — the table and its functions.
* `MemCall`, `live`, `Legal` — histories of calls, and the blocks they leave live.
* `Tracks` — the dump lists the live blocks.
* `Fits` — an allocation that the table has room for.
-/

namespace CCode.MemShare

open CCode.Lib

/-! ## The code -/

/-- `struct mem_record`. Of `func` the 31 bytes that are written; the last one is the zero it
was loaded with. -/
structure MemRecord where
  addr : UInt32
  func : List UInt8
  line : ℤ
  state : ℤ
deriving DecidableEq

/-- The size of `mem_record`. -/
abbrev memRecordMax : ℕ := 4096

/-- The first record of an address is counted up. -/
def countUp (addr : UInt32) : List MemRecord → Option (List MemRecord)
  | [] => none
  | r :: rs =>
      if addr = r.addr then some ({ r with state := r.state + 1 } :: rs)
      else (countUp addr rs).map (r :: ·)

/-- `add_rec`, with `mem_record_cnt` as the length of the table. It is `none` when the record
behind the last one is written. -/
def addRec (addr : UInt32) (func : Mem) (line : ℤ) (t : List MemRecord) :
    Option (List MemRecord) :=
  match countUp addr t with
  | some t' => some t'
  | none =>
      if t.length < memRecordMax then some (t ++ [⟨addr, func.read 0 31, line, 1⟩]) else none

/-- `rm_rec`. -/
def rmRec (addr : UInt32) (t : List MemRecord) : List MemRecord :=
  t.map fun r => if addr = r.addr then { r with state := r.state - 1 } else r

/-- What `%s` prints of `func`. -/
def MemRecord.shown (r : MemRecord) : List UInt8 := r.func.takeWhile (· != 0)

/-- A line of the dump. -/
structure DumpLine where
  addr : UInt32
  state : ℤ
  func : List UInt8
  line : ℤ
deriving DecidableEq

/-- `_mem_dump`: the number of records, and a line for each one in use. -/
def memDump (t : List MemRecord) : ℕ × List DumpLine :=
  (t.length, (t.filter (·.state ≠ 0)).map fun r => ⟨r.addr, r.state, r.shown, r.line⟩)

/-! ## Histories -/

/-- The place of an allocation: `__func__` and `__LINE__`. Behind the zero that ends the name
is whatever the linker put there. -/
structure Site where
  name : List UInt8
  line : ℤ
  behind : Mem
  name_ne_zero : ∀ c ∈ name, c ≠ 0

/-- `const char *func`. -/
def Site.func (s : Site) : Mem := s.behind.write 0 (s.name ++ [0])

/-- A call, with the address that `malloc` and `calloc` return to it, 0 if there is no
memory. Pointers have 32 bits, so `(int)p` loses nothing. -/
inductive MemCall
  | malloc (p : UInt32) (site : Site)
  | calloc (p : UInt32) (site : Site)
  | free (p : UInt32)

/-- `_mem_malloc`, `_mem_calloc` and `_mem_free`. -/
def MemCall.apply (t : List MemRecord) : MemCall → Option (List MemRecord)
  | .malloc p site => addRec p site.func site.line t
  | .calloc p site => addRec p site.func site.line t
  | .free p => some (rmRec p t)

/-- The table after some calls; it is empty before the first. -/
def tableOf (calls : List MemCall) : Option (List MemRecord) := calls.foldlM MemCall.apply []

/-- What a call asks for, and gets. -/
def MemCall.request : MemCall → Option (UInt32 × Site)
  | .malloc p site => some (p, site)
  | .calloc p site => some (p, site)
  | .free _ => none

/-- The allocations of a history. -/
def allocs (calls : List MemCall) : List (UInt32 × Site) := calls.filterMap MemCall.request

/-- A call makes a block live, or ends it. -/
def MemCall.track (blocks : List (UInt32 × Site)) : MemCall → List (UInt32 × Site)
  | .malloc p site => if p = 0 then blocks else blocks ++ [(p, site)]
  | .calloc p site => if p = 0 then blocks else blocks ++ [(p, site)]
  | .free p => blocks.filter (·.1 ≠ p)

/-- The blocks that are live after some calls, each with the place of its allocation. -/
def live (calls : List MemCall) : List (UInt32 × Site) := calls.foldl MemCall.track []

/-- The addresses of some blocks. -/
abbrev addrs (blocks : List (UInt32 × Site)) : List UInt32 := blocks.map Prod.fst

/-- The allocator never returns a live block, and only live blocks are freed. An address that
was freed may come back. -/
inductive Legal : List MemCall → Prop
  | nil : Legal []
  | malloc {calls : List MemCall} {p : UInt32} (site : Site) (h : Legal calls)
      (hp : p ∉ addrs (live calls)) : Legal (calls ++ [.malloc p site])
  | calloc {calls : List MemCall} {p : UInt32} (site : Site) (h : Legal calls)
      (hp : p ∉ addrs (live calls)) : Legal (calls ++ [.calloc p site])
  | free {calls : List MemCall} {p : UInt32} (h : Legal calls) (hp : p ∈ addrs (live calls)) :
      Legal (calls ++ [.free p])

/-- After these calls the dump lists the live blocks, each once and with the function and the
line of its own allocation. -/
def Tracks (calls : List MemCall) : Prop :=
  ∃ t, tableOf calls = some t ∧
    ((memDump t).2.map fun l => (l.addr, l.func, l.line)).Perm
      ((live calls).map fun b => (b.1, b.2.name, b.2.line))

/-- The table has room for an allocation: it succeeded, the name fits, the allocations at
this address before it were from the same place, and an address that is new is at most the
4096th. -/
def FitsAt (before : List (UInt32 × Site)) (p : UInt32) (site : Site) : Prop :=
  p ≠ 0 ∧ site.name.length ≤ 31 ∧
    (∀ s, (p, s) ∈ before → s.name = site.name ∧ s.line = site.line) ∧
    (p ∈ addrs before ∨ (addrs before).toFinset.card < memRecordMax)

/-- The table has room for a call. -/
def Fits (before : List MemCall) (c : MemCall) : Prop :=
  ∀ p site, c.request = some (p, site) → FitsAt (allocs before) p site

/-! ## The table -/

/-- The counts of the records of one address go up by `d`. -/
def shift (addr : UInt32) (d : ℤ) (t : List MemRecord) : List MemRecord :=
  t.map fun r => if addr = r.addr then { r with state := r.state + d } else r

@[simp] theorem map_addr_shift (addr : UInt32) (d : ℤ) (t : List MemRecord) :
    (shift addr d t).map MemRecord.addr = t.map MemRecord.addr := by
  rw [shift, List.map_map]
  apply List.map_congr_left
  intro r _
  simp only [Function.comp_apply]
  split <;> rfl

/-- A record of the shifted table is one of the table, with its count shifted or not. -/
theorem mem_shift_iff {addr : UInt32} {d : ℤ} {t : List MemRecord} {r : MemRecord} :
    r ∈ shift addr d t ↔
      ∃ r₀ ∈ t, r = { r₀ with state := r₀.state + if addr = r₀.addr then d else 0 } := by
  rw [shift, List.mem_map]
  constructor
  · rintro ⟨r₀, hr₀, rfl⟩
    refine ⟨r₀, hr₀, ?_⟩
    split <;> simp
  · rintro ⟨r₀, hr₀, rfl⟩
    refine ⟨r₀, hr₀, ?_⟩
    split <;> simp

theorem shift_of_notMem {addr : UInt32} {t : List MemRecord} (d : ℤ)
    (h : addr ∉ t.map MemRecord.addr) : shift addr d t = t := by
  rw [shift]
  conv_rhs => rw [← List.map_id t]
  apply List.map_congr_left
  intro r hr
  have hne : addr ≠ r.addr := fun he => h (he ▸ List.mem_map_of_mem hr)
  rw [if_neg hne, id]

theorem rmRec_eq_shift (addr : UInt32) (t : List MemRecord) :
    rmRec addr t = shift addr (-1) t := rfl

/-- An address that the table does not have is not found. -/
theorem countUp_eq_none {addr : UInt32} {t : List MemRecord} (h : addr ∉ t.map MemRecord.addr) :
    countUp addr t = none := by
  induction t with
  | nil => rfl
  | cons r rs ih =>
      simp only [List.map_cons, List.mem_cons, not_or] at h
      rw [countUp, if_neg h.1, ih h.2]
      rfl

/-- With one record an address, counting up the first one counts up all. -/
theorem countUp_eq_shift {addr : UInt32} {t : List MemRecord}
    (hnodup : (t.map MemRecord.addr).Nodup) (h : addr ∈ t.map MemRecord.addr) :
    countUp addr t = some (shift addr 1 t) := by
  induction t with
  | nil => simp at h
  | cons r rs ih =>
      simp only [List.map_cons, List.nodup_cons] at hnodup
      by_cases haddr : addr = r.addr
      · have hrest : shift addr 1 rs = rs := shift_of_notMem 1 (haddr ▸ hnodup.1)
        rw [countUp, if_pos haddr]
        rw [shift] at hrest ⊢
        rw [List.map_cons, if_pos haddr, hrest]
      · have hmem : addr ∈ rs.map MemRecord.addr := by
          simpa [haddr] using h
        rw [countUp, if_neg haddr, ih hnodup.2 hmem]
        simp [shift, haddr]

theorem addRec_of_mem {addr : UInt32} {t : List MemRecord} (func : Mem) (line : ℤ)
    (hnodup : (t.map MemRecord.addr).Nodup) (h : addr ∈ t.map MemRecord.addr) :
    addRec addr func line t = some (shift addr 1 t) := by
  rw [addRec, countUp_eq_shift hnodup h]

theorem addRec_of_notMem {addr : UInt32} {t : List MemRecord} (func : Mem) (line : ℤ)
    (h : addr ∉ t.map MemRecord.addr) :
    addRec addr func line t =
      if t.length < memRecordMax then some (t ++ [⟨addr, func.read 0 31, line, 1⟩]) else none := by
  rw [addRec, countUp_eq_none h]

/-- A name of at most 31 characters is shown as it is. -/
theorem shown_func {s : Site} (h : s.name.length ≤ 31) (addr : UInt32) (line state : ℤ) :
    MemRecord.shown ⟨addr, s.func.read 0 31, line, state⟩ = s.name := by
  have hpos : ∀ c ∈ s.name, (c != 0) = true := by
    intro c hc
    simpa using s.name_ne_zero c hc
  have hname : s.func.read 0 s.name.length = s.name :=
    Mem.read_write_of_eq s.behind [] [0] rfl rfl rfl
  rw [MemRecord.shown]
  rcases Nat.lt_or_eq_of_le h with hlt | heq
  · have hzero : s.func s.name.length = 0 := by
      have hat := @Mem.write_apply (s.name ++ [0]) s.behind 0 s.name.length (by simp)
      simpa [Site.func] using hat
    rw [Mem.read_eq_append_cons s.func hlt, hname, hzero,
      List.takeWhile_append_of_pos hpos, List.takeWhile_cons_of_neg (by simp), List.append_nil]
  · rw [← heq, hname, List.takeWhile_eq_self_iff]
    exact hpos

/-! ## One more call -/

theorem tableOf_snoc (calls : List MemCall) (c : MemCall) :
    tableOf (calls ++ [c]) = (tableOf calls).bind fun t => c.apply t := by
  rw [tableOf, List.foldlM_append]
  simp [tableOf]

theorem live_snoc (calls : List MemCall) (c : MemCall) :
    live (calls ++ [c]) = c.track (live calls) := by
  simp [live]

theorem allocs_snoc (calls : List MemCall) (c : MemCall) :
    allocs (calls ++ [c]) = allocs calls ++ c.request.toList := by
  cases c <;> simp [allocs, MemCall.request]

/-- `_mem_malloc` and `_mem_calloc` record what they got in the same way. -/
theorem MemCall.apply_of_request {c : MemCall} {p : UInt32} {site : Site}
    (h : c.request = some (p, site)) (t : List MemRecord) :
    c.apply t = addRec p site.func site.line t := by
  cases c with
  | malloc p' site' => cases h; rfl
  | calloc p' site' => cases h; rfl
  | free p' => cases h

theorem MemCall.track_of_request {c : MemCall} {p : UInt32} {site : Site}
    (h : c.request = some (p, site)) (blocks : List (UInt32 × Site)) :
    c.track blocks = if p = 0 then blocks else blocks ++ [(p, site)] := by
  cases c with
  | malloc p' site' => cases h; rfl
  | calloc p' site' => cases h; rfl
  | free p' => cases h

/-! ## The invariant -/

/-- The table of a history whose allocations all fitted: a record for each address that was
ever returned, from the place of every allocation there, with count 1 as long as the
address is live and 0 otherwise. -/
structure Tracked (calls : List MemCall) (t : List MemRecord) : Prop where
  nodup : (t.map MemRecord.addr).Nodup
  mem_addr : ∀ a, a ∈ t.map MemRecord.addr ↔ a ∈ addrs (allocs calls)
  length_func : ∀ r ∈ t, r.func.length = 31
  site : ∀ r ∈ t, ∀ s, (r.addr, s) ∈ allocs calls → r.shown = s.name ∧ r.line = s.line
  state : ∀ r ∈ t, r.state = if r.addr ∈ addrs (live calls) then 1 else 0
  live_nodup : (addrs (live calls)).Nodup
  live_subset : ∀ b ∈ live calls, b ∈ allocs calls

theorem Tracked.nil : Tracked [] [] := by
  constructor <;> simp [allocs, live]

/-- The records of the table that the dump shows. -/
theorem mem_dump_iff {t : List MemRecord} {k : UInt32 × List UInt8 × ℤ} :
    k ∈ (memDump t).2.map (fun l => (l.addr, l.func, l.line)) ↔
      ∃ r ∈ t, r.state ≠ 0 ∧ (r.addr, r.shown, r.line) = k := by
  simp [memDump, and_assoc]

/-- The dump lists no address twice. -/
theorem nodup_dump {t : List MemRecord} (h : (t.map MemRecord.addr).Nodup) :
    ((memDump t).2.map fun l => (l.addr, l.func, l.line)).Nodup := by
  apply List.Nodup.of_map Prod.fst
  have hfst : ((memDump t).2.map fun l => (l.addr, l.func, l.line)).map Prod.fst =
      (t.filter (·.state ≠ 0)).map MemRecord.addr := by
    simp [memDump, Function.comp_def]
  rw [hfst]
  exact h.sublist (List.filter_sublist.map MemRecord.addr)

namespace Tracked

variable {calls : List MemCall} {t : List MemRecord}

/-- A record is in use exactly if its address is live. -/
theorem state_ne_zero_iff (h : Tracked calls t) {r : MemRecord} (hr : r ∈ t) :
    r.state ≠ 0 ↔ r.addr ∈ addrs (live calls) := by
  rw [h.state r hr]
  split <;> simp_all

/-- The table has as many records as addresses were returned. -/
theorem length_eq (h : Tracked calls t) : t.length = (addrs (allocs calls)).toFinset.card := by
  have hset : (addrs (allocs calls)).toFinset = (t.map MemRecord.addr).toFinset := by
    ext a
    rw [List.mem_toFinset, List.mem_toFinset, h.mem_addr]
  rw [hset, List.toFinset_card_of_nodup h.nodup, List.length_map]

/-- Such a table dumps the live blocks. -/
theorem perm (h : Tracked calls t) :
    ((memDump t).2.map fun l => (l.addr, l.func, l.line)).Perm
      ((live calls).map fun b => (b.1, b.2.name, b.2.line)) := by
  have hlive : ((live calls).map fun b => (b.1, b.2.name, b.2.line)).Nodup := by
    apply List.Nodup.of_map Prod.fst
    rw [List.map_map]
    exact h.live_nodup
  rw [List.perm_ext_iff_of_nodup (nodup_dump h.nodup) hlive]
  intro k
  rw [mem_dump_iff, List.mem_map]
  constructor
  · rintro ⟨r, hr, hstate, rfl⟩
    obtain ⟨⟨a, s⟩, hb, ha⟩ := List.mem_map.mp ((h.state_ne_zero_iff hr).mp hstate)
    simp only at ha
    have hsite := h.site r hr s (ha ▸ h.live_subset _ hb)
    exact ⟨(a, s), hb, by rw [hsite.1, hsite.2, ha]⟩
  · rintro ⟨⟨a, s⟩, hb, rfl⟩
    have halloc := h.live_subset _ hb
    obtain ⟨r, hr, ha⟩ := List.mem_map.mp ((h.mem_addr a).mpr (List.mem_map_of_mem halloc))
    subst ha
    have hsite := h.site r hr s halloc
    refine ⟨r, hr, (h.state_ne_zero_iff hr).mpr (List.mem_map_of_mem hb), ?_⟩
    rw [hsite.1, hsite.2]

/-- A block that is freed leaves the dump. -/
theorem free (h : Tracked calls t) {p : UInt32} (hp : p ∈ addrs (live calls)) :
    Tracked (calls ++ [.free p]) (rmRec p t) := by
  have hallocs : allocs (calls ++ [.free p]) = allocs calls := by
    simp [allocs_snoc, MemCall.request]
  have hlive : live (calls ++ [.free p]) = (live calls).filter (·.1 ≠ p) := live_snoc calls _
  rw [rmRec_eq_shift]
  constructor
  case nodup => rw [map_addr_shift]; exact h.nodup
  case mem_addr => rw [map_addr_shift, hallocs]; exact h.mem_addr
  case length_func =>
    intro r hr
    obtain ⟨r₀, hr₀, rfl⟩ := mem_shift_iff.mp hr
    exact h.length_func r₀ hr₀
  case site =>
    intro r hr s hs
    obtain ⟨r₀, hr₀, rfl⟩ := mem_shift_iff.mp hr
    exact h.site r₀ hr₀ s (hallocs ▸ hs)
  case state =>
    intro r hr
    obtain ⟨r₀, hr₀, rfl⟩ := mem_shift_iff.mp hr
    have hmem : r₀.addr ∈ addrs (live (calls ++ [.free p])) ↔
        r₀.addr ∈ addrs (live calls) ∧ r₀.addr ≠ p := by
      rw [hlive]
      simp
    by_cases haddr : p = r₀.addr
    · subst haddr
      simp [h.state r₀ hr₀, hmem, hp]
    · have hother := hmem.trans (and_iff_left fun he => haddr he.symm)
      simp only [h.state r₀ hr₀, hother, if_neg haddr, add_zero]
  case live_nodup =>
    rw [hlive]
    exact h.live_nodup.sublist (List.filter_sublist.map Prod.fst)
  case live_subset =>
    intro b hb
    rw [hlive] at hb
    rw [hallocs]
    exact h.live_subset b (List.mem_of_mem_filter hb)

/-- The facts about a history that an allocation that fits changes in the same way, at an
address that the table has and at a new one. -/
theorem live_alloc (h : Tracked calls t) {c : MemCall} {p : UInt32} {site : Site}
    (hc : c.request = some (p, site)) (hp : p ∉ addrs (live calls)) (hne : p ≠ 0) :
    live (calls ++ [c]) = live calls ++ [(p, site)] ∧
      allocs (calls ++ [c]) = allocs calls ++ [(p, site)] ∧
      (addrs (live (calls ++ [c]))).Nodup ∧
      ∀ b ∈ live (calls ++ [c]), b ∈ allocs (calls ++ [c]) := by
  have hlive : live (calls ++ [c]) = live calls ++ [(p, site)] := by
    rw [live_snoc, MemCall.track_of_request hc, if_neg hne]
  have hallocs : allocs (calls ++ [c]) = allocs calls ++ [(p, site)] := by
    rw [allocs_snoc, hc]
    rfl
  refine ⟨hlive, hallocs, ?_, ?_⟩
  · rw [hlive, addrs, List.map_append]
    exact List.nodup_append_comm.mp (List.nodup_cons.mpr ⟨hp, h.live_nodup⟩)
  · intro b hb
    rw [hlive, List.mem_append] at hb
    rw [hallocs, List.mem_append]
    exact hb.imp_left (h.live_subset b)

/-- An allocation at an address of the table, from the place that its record has. -/
theorem alloc_known (h : Tracked calls t) {c : MemCall} {p : UInt32} {site : Site}
    (hc : c.request = some (p, site)) (hp : p ∉ addrs (live calls))
    (hfit : FitsAt (allocs calls) p site) (hknown : p ∈ addrs (allocs calls)) :
    Tracked (calls ++ [c]) (shift p 1 t) := by
  obtain ⟨hne, -, hsame, -⟩ := hfit
  obtain ⟨hlive, hallocs, hnodup, hsubset⟩ := h.live_alloc hc hp hne
  constructor
  case nodup => rw [map_addr_shift]; exact h.nodup
  case mem_addr =>
    intro a
    rw [map_addr_shift, h.mem_addr, hallocs, addrs, addrs, List.map_append, List.mem_append]
    constructor
    · exact Or.inl
    · rintro (ha | ha)
      · exact ha
      · rw [List.mem_singleton.mp ha]
        exact hknown
  case length_func =>
    intro r hr
    obtain ⟨r₀, hr₀, rfl⟩ := mem_shift_iff.mp hr
    exact h.length_func r₀ hr₀
  case site =>
    intro r hr s hs
    obtain ⟨r₀, hr₀, rfl⟩ := mem_shift_iff.mp hr
    rw [hallocs, List.mem_append, List.mem_singleton] at hs
    rcases hs with hs | hs
    · exact h.site r₀ hr₀ s hs
    · -- the record has what an earlier allocation at the address had
      obtain ⟨ha, rfl⟩ := Prod.mk.inj hs
      obtain ⟨⟨p', s'⟩, hs', hp'⟩ := List.mem_map.mp hknown
      simp only at hp' ha
      subst hp'
      have hrec := h.site r₀ hr₀ s' (ha ▸ hs')
      have hplace := hsame s' hs'
      exact ⟨hrec.1.trans hplace.1, hrec.2.trans hplace.2⟩
  case state =>
    intro r hr
    obtain ⟨r₀, hr₀, rfl⟩ := mem_shift_iff.mp hr
    have hmem : r₀.addr ∈ addrs (live (calls ++ [c])) ↔
        r₀.addr ∈ addrs (live calls) ∨ r₀.addr = p := by
      rw [hlive]
      simp
    by_cases haddr : p = r₀.addr
    · subst haddr
      simp [h.state r₀ hr₀, hmem, hp]
    · have hother := hmem.trans (or_iff_left fun he => haddr he.symm)
      simp only [h.state r₀ hr₀, hother, if_neg haddr, add_zero]
  case live_nodup => exact hnodup
  case live_subset => exact hsubset

/-- An allocation at a new address. -/
theorem alloc_fresh (h : Tracked calls t) {c : MemCall} {p : UInt32} {site : Site}
    (hc : c.request = some (p, site)) (hp : p ∉ addrs (live calls))
    (hfit : FitsAt (allocs calls) p site) (hfresh : p ∉ addrs (allocs calls)) :
    Tracked (calls ++ [c]) (t ++ [⟨p, site.func.read 0 31, site.line, 1⟩]) := by
  obtain ⟨hne, hlen, -, -⟩ := hfit
  obtain ⟨hlive, hallocs, hnodup, hsubset⟩ := h.live_alloc hc hp hne
  have hnew : p ∉ t.map MemRecord.addr := fun hmem => hfresh ((h.mem_addr p).mp hmem)
  constructor
  case nodup =>
    rw [List.map_append]
    exact List.nodup_append_comm.mp (List.nodup_cons.mpr ⟨hnew, h.nodup⟩)
  case mem_addr =>
    intro a
    rw [hallocs, List.map_append, addrs, List.map_append, List.mem_append, List.mem_append,
      h.mem_addr]
    rfl
  case length_func =>
    intro r hr
    rcases List.mem_append.mp hr with hr | hr
    · exact h.length_func r hr
    · rw [List.mem_singleton.mp hr]
      exact Mem.length_read _ _ _
  case site =>
    intro r hr s hs
    rw [hallocs, List.mem_append, List.mem_singleton] at hs
    rcases List.mem_append.mp hr with hr | hr
    · have hold : r.addr ≠ p := fun ha => hnew (ha ▸ List.mem_map_of_mem hr)
      rcases hs with hs | hs
      · exact h.site r hr s hs
      · exact absurd (Prod.mk.inj hs).1 hold
    · rw [List.mem_singleton] at hr
      subst hr
      rcases hs with hs | hs
      · exact absurd (List.mem_map_of_mem hs) hfresh
      · obtain ⟨-, rfl⟩ := Prod.mk.inj hs
        exact ⟨shown_func hlen _ _ _, rfl⟩
  case state =>
    intro r hr
    have hmem : r.addr ∈ addrs (live (calls ++ [c])) ↔
        r.addr ∈ addrs (live calls) ∨ r.addr = p := by
      rw [hlive]
      simp
    rcases List.mem_append.mp hr with hr | hr
    · have hold : r.addr ≠ p := fun ha => hnew (ha ▸ List.mem_map_of_mem hr)
      simp only [h.state r hr, hmem, hold, or_false]
    · rw [List.mem_singleton] at hr
      subst hr
      simp [hmem]
  case live_nodup => exact hnodup
  case live_subset => exact hsubset

/-- After an allocation that fits there is a table again, and it is right again. -/
theorem alloc (h : Tracked calls t) {c : MemCall} {p : UInt32} {site : Site}
    (hc : c.request = some (p, site)) (hp : p ∉ addrs (live calls))
    (hfit : FitsAt (allocs calls) p site) :
    ∃ t', c.apply t = some t' ∧ Tracked (calls ++ [c]) t' := by
  rw [MemCall.apply_of_request hc]
  by_cases hknown : p ∈ addrs (allocs calls)
  · exact ⟨_, addRec_of_mem _ _ h.nodup ((h.mem_addr p).mpr hknown),
      h.alloc_known hc hp hfit hknown⟩
  · have hnew : p ∉ t.map MemRecord.addr := fun hmem => hknown ((h.mem_addr p).mp hmem)
    have hroom : t.length < memRecordMax := by
      rw [h.length_eq]
      exact hfit.2.2.2.resolve_left hknown
    refine ⟨_, ?_, h.alloc_fresh hc hp hfit hknown⟩
    rw [addRec_of_notMem _ _ hnew, if_pos hroom]

/-- Whatever an allocation leaves in the table: if the dump is right after it, a record in use at
its address is a line that only this allocation can have made. -/
theorem site_of_perm {c : MemCall} {p : UInt32} {site : Site} (hc : c.request = some (p, site))
    (hp : p ∉ addrs (live calls))
    (hperm : ((memDump t).2.map fun l => (l.addr, l.func, l.line)).Perm
      ((live (calls ++ [c])).map fun b => (b.1, b.2.name, b.2.line)))
    {r : MemRecord} (hr : r ∈ t) (ha : r.addr = p) (hstate : r.state ≠ 0) :
    p ≠ 0 ∧ r.shown = site.name ∧ r.line = site.line := by
  have hmem := hperm.subset (mem_dump_iff.mpr ⟨r, hr, hstate, rfl⟩)
  rw [live_snoc, MemCall.track_of_request hc, List.mem_map] at hmem
  obtain ⟨⟨a, s⟩, hb, hkey⟩ := hmem
  simp only [Prod.mk.injEq] at hkey
  obtain ⟨hkey, hname, hline⟩ := hkey
  rw [ha] at hkey
  subst hkey
  have hold : (a, s) ∉ live calls := fun hmem => hp (List.mem_map_of_mem hmem)
  split at hb
  · exact absurd hb hold
  · next hne =>
      rcases List.mem_append.mp hb with hb | hb
      · exact absurd hb hold
      · obtain ⟨-, rfl⟩ := Prod.mk.inj (List.mem_singleton.mp hb)
        exact ⟨hne, hname.symm, hline.symm⟩

/-- If the dump is right after an allocation, it fitted. -/
theorem fits_of_tracks (h : Tracked calls t) {c : MemCall} {p : UInt32} {site : Site}
    (hc : c.request = some (p, site)) (hp : p ∉ addrs (live calls))
    (ht : tableOf calls = some t) (htracks : Tracks (calls ++ [c])) :
    FitsAt (allocs calls) p site := by
  obtain ⟨t', ht', hperm⟩ := htracks
  rw [tableOf_snoc, ht, Option.bind_some, MemCall.apply_of_request hc] at ht'
  have hshort : ∀ r : MemRecord, r.func.length = 31 → r.shown = site.name →
      site.name.length ≤ 31 := by
    intro r hlen hshown
    rw [← hshown, ← hlen]
    exact (List.takeWhile_prefix _).length_le
  by_cases hknown : p ∈ addrs (allocs calls)
  · have hmem := (h.mem_addr p).mpr hknown
    rw [addRec_of_mem _ _ h.nodup hmem, Option.some_inj] at ht'
    obtain ⟨r, hr, ha⟩ := List.mem_map.mp hmem
    have hr' : { r with state := r.state + 1 } ∈ t' := by
      rw [← ht', mem_shift_iff]
      exact ⟨r, hr, by rw [if_pos ha.symm]⟩
    have hstate : r.state = 0 := by
      rw [h.state r hr, ha, if_neg hp]
    obtain ⟨hne, hname, hline⟩ := site_of_perm hc hp hperm hr' ha (by simp [hstate])
    refine ⟨hne, hshort r (h.length_func r hr) hname, ?_, .inl hknown⟩
    intro s hs
    have hsite := h.site r hr s (ha ▸ hs)
    exact ⟨hsite.1.symm.trans hname, hsite.2.symm.trans hline⟩
  · have hnew : p ∉ t.map MemRecord.addr := fun hmem => hknown ((h.mem_addr p).mp hmem)
    rw [addRec_of_notMem _ _ hnew] at ht'
    split at ht'
    · next hroom =>
        rw [Option.some_inj] at ht'
        have hr' : (⟨p, site.func.read 0 31, site.line, 1⟩ : MemRecord) ∈ t' :=
          ht' ▸ List.mem_append_right t (List.mem_singleton_self _)
        obtain ⟨hne, hname, -⟩ := site_of_perm hc hp hperm hr' rfl one_ne_zero
        refine ⟨hne, hshort _ (Mem.length_read _ _ _) hname, ?_, .inr (h.length_eq ▸ hroom)⟩
        intro s hs
        exact absurd (List.mem_map_of_mem hs) hknown
    · cases ht'

end Tracked

/-! ## Every history -/

/-- The calls of a history fit if the last one does, and those before it. -/
theorem forall_fits_snoc {calls : List MemCall} {c : MemCall} :
    (∀ pre d, pre ++ [d] <+: calls ++ [c] → Fits pre d) ↔
      (∀ pre d, pre ++ [d] <+: calls → Fits pre d) ∧ Fits calls c := by
  constructor
  · intro h
    exact ⟨fun pre d hpre => h pre d (hpre.trans (List.prefix_append _ _)),
      h calls c (List.prefix_refl _)⟩
  · intro h pre d hpre
    rcases List.prefix_concat_iff.mp hpre with heq | hpre
    · obtain ⟨rfl, hlast⟩ := List.append_inj' heq rfl
      rw [List.singleton_inj.mp hlast]
      exact h.2
    · exact h.1 pre d hpre

/-- A history whose calls all fit has a table, and the table is right. -/
theorem exists_tracked {calls : List MemCall} (h : Legal calls)
    (hfits : ∀ pre c, pre ++ [c] <+: calls → Fits pre c) :
    ∃ t, tableOf calls = some t ∧ Tracked calls t := by
  -- one allocation, of either kind
  have hstep : ∀ {cs : List MemCall} {c : MemCall} {p : UInt32} {site : Site},
      c.request = some (p, site) → p ∉ addrs (live cs) → Fits cs c →
      (∃ t, tableOf cs = some t ∧ Tracked cs t) →
      ∃ t, tableOf (cs ++ [c]) = some t ∧ Tracked (cs ++ [c]) t := by
    intro cs c p site hc hp hfit hcs
    obtain ⟨t, ht, htracked⟩ := hcs
    obtain ⟨t', ht', htracked'⟩ := htracked.alloc hc hp (hfit p site hc)
    refine ⟨t', ?_, htracked'⟩
    rw [tableOf_snoc, ht, Option.bind_some, ht']
  induction h with
  | nil => exact ⟨[], rfl, Tracked.nil⟩
  | malloc site _ hp ih =>
      have hfits := forall_fits_snoc.mp hfits
      exact hstep rfl hp hfits.2 (ih hfits.1)
  | calloc site _ hp ih =>
      have hfits := forall_fits_snoc.mp hfits
      exact hstep rfl hp hfits.2 (ih hfits.1)
  | free _ hp ih =>
      obtain ⟨t, ht, htracked⟩ := ih (forall_fits_snoc.mp hfits).1
      refine ⟨_, ?_, htracked.free hp⟩
      rw [tableOf_snoc, ht]
      rfl

/-- A part of a legal history is legal. -/
theorem Legal.of_prefix {calls pre : List MemCall} (h : Legal calls) (hpre : pre <+: calls) :
    Legal pre := by
  induction h with
  | nil =>
      rw [List.prefix_nil.mp hpre]
      exact .nil
  | malloc site h hp ih =>
      rcases List.prefix_concat_iff.mp hpre with rfl | hpre
      · exact .malloc site h hp
      · exact ih hpre
  | calloc site h hp ih =>
      rcases List.prefix_concat_iff.mp hpre with rfl | hpre
      · exact .calloc site h hp
      · exact ih hpre
  | free h hp ih =>
      rcases List.prefix_concat_iff.mp hpre with rfl | hpre
      · exact .free h hp
      · exact ih hpre

/-- What a legal history ends with is not live before it. -/
theorem Legal.notMem_live {calls : List MemCall} {c : MemCall} {p : UInt32} {site : Site}
    (h : Legal (calls ++ [c])) (hc : c.request = some (p, site)) : p ∉ addrs (live calls) := by
  generalize hall : calls ++ [c] = all at h
  cases h with
  | nil => simp at hall
  | malloc site' h hp =>
      obtain ⟨rfl, hlast⟩ := List.append_inj' hall rfl
      cases List.singleton_inj.mp hlast
      cases hc
      exact hp
  | calloc site' h hp =>
      obtain ⟨rfl, hlast⟩ := List.append_inj' hall rfl
      cases List.singleton_inj.mp hlast
      cases hc
      exact hp
  | free h hp =>
      obtain ⟨-, hlast⟩ := List.append_inj' hall rfl
      cases List.singleton_inj.mp hlast
      cases hc

/-- In a legal history, where any address may come back after it was freed, the dump lists
the live blocks at every moment, each with the function and the line of its own allocation,
if and only if the table has room for every call: no allocation fails, or comes from a
function with more than 31 characters, or gets an address that an allocation at another
place had before it, or one that is the 4097th. -/
theorem memDump_live_iff {calls : List MemCall} (h : Legal calls) :
    (∀ pre, pre <+: calls → Tracks pre) ↔ ∀ pre c, pre ++ [c] <+: calls → Fits pre c := by
  constructor
  · intro htracks pre
    -- by the length of the part before the call, whose own calls fitted
    induction hn : pre.length using Nat.strong_induction_on generalizing pre with
    | _ n ih =>
        intro c hpre p site hc
        have hpart : pre <+: calls := (List.prefix_append pre [c]).trans hpre
        have hbefore : ∀ pre' d, pre' ++ [d] <+: pre → Fits pre' d := by
          intro pre' d hpre'
          have hlen := hpre'.length_le
          rw [List.length_append, List.length_singleton, hn] at hlen
          exact ih pre'.length hlen pre' rfl d (hpre'.trans hpart)
        obtain ⟨t, ht, htracked⟩ := exists_tracked (h.of_prefix hpart) hbefore
        exact htracked.fits_of_tracks hc ((h.of_prefix hpre).notMem_live hc) ht (htracks _ hpre)
  · intro hfits pre hpre
    obtain ⟨t, ht, htracked⟩ := exists_tracked (h.of_prefix hpre)
      fun pre' c hpre' => hfits pre' c (hpre'.trans hpre)
    exact ⟨t, ht, htracked.perm⟩

/-- A function `open` that allocates in line 10. -/
private def siteOpen : Site := ⟨[111, 112, 101, 110], 10, fun _ => 0, by simp⟩

/-- A function `read` that allocates in line 20. -/
private def siteRead : Site := ⟨[114, 101, 97, 100], 20, fun _ => 0, by simp⟩

/-- A block that is freed and comes back to the same place. -/
theorem memDump_live_reuse :
    Tracks [.malloc 0x1000 siteOpen, .free 0x1000, .malloc 0x1000 siteOpen] := by
  have hlegal : Legal ((([] ++ [.malloc 0x1000 siteOpen]) ++ [.free 0x1000]) ++
      [.malloc 0x1000 siteOpen]) :=
    .malloc siteOpen (.free (.malloc siteOpen .nil (by decide)) (by decide)) (by decide)
  refine (memDump_live_iff hlegal).mpr ?_ _ (List.prefix_refl _)
  rw [forall_fits_snoc, forall_fits_snoc, forall_fits_snoc]
  refine ⟨⟨⟨?_, ?_⟩, ?_⟩, ?_⟩
  · intro pre c hpre
    simp at hpre
  · intro p site hc
    cases hc
    exact ⟨by decide, by decide, by simp [allocs], .inr (by decide)⟩
  · intro p site hc
    cases hc
  · intro p site hc
    cases hc
    exact ⟨by decide, by decide, by simp [allocs, MemCall.request], .inl (by decide)⟩

/-- A block that comes back to another place is listed with the first one. -/
theorem memDump_reuse_elsewhere :
    Legal [.malloc 0x1000 siteOpen, .free 0x1000, .malloc 0x1000 siteRead] ∧
      ¬ Tracks [.malloc 0x1000 siteOpen, .free 0x1000, .malloc 0x1000 siteRead] := by
  constructor
  · have hlegal : Legal ((([] ++ [.malloc 0x1000 siteOpen]) ++ [.free 0x1000]) ++
        [.malloc 0x1000 siteRead]) :=
      .malloc siteRead (.free (.malloc siteOpen .nil (by decide)) (by decide)) (by decide)
    exact hlegal
  · intro htracks
    obtain ⟨t, ht, hperm⟩ := htracks
    have htable : tableOf [.malloc 0x1000 siteOpen, .free 0x1000, .malloc 0x1000 siteRead] =
        some [⟨0x1000, siteOpen.func.read 0 31, 10, 1⟩] := rfl
    rw [htable, Option.some_inj] at ht
    subst ht
    have hline := hperm.map fun k => k.2.2
    have hdiff : ¬ [(10 : ℤ)].Perm [20] := by decide
    exact hdiff hline

end CCode.MemShare
