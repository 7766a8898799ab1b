import CCode.Gatt.Database

/-!
# The layout of handles

What the allocator produces as long as it does not leave the 16-bit handle space, stated
over natural numbers: a service starts right after its predecessor, and its
characteristics follow one another without a gap, each taking as many handles as it has
attributes. `DbLaid` is the invariant that the discovery procedures rest on.

`dbLaid_of_built` gets it from what a database shows: if no handle in it is `0xFFFF`,
then the allocation never wrapped, because consecutive allocation cannot step over that
handle.

## Main definitions

* `GattCharacter.size`, `GattCharacter.handles` — the attributes of a characteristic.
* `CharsLaid`, `ServiceLaid`, `DbLaid` — the layout.
* `Built` — the databases that registration builds.
* `NoWrap` — all handles are at most `0xFFFE`.
-/

namespace CCode.Gatt

variable {σ : Type}

/-- The number of handles a characteristic takes. -/
def GattCharacter.size (c : GattCharacter) : ℕ :=
  if c.hasDesc then if c.prop &&& btGattChrcPropReportRef ≠ 0 then 4 else 3 else 2

/-- The handles of a characteristic that are in use. -/
def GattCharacter.handles (c : GattCharacter) : List UInt16 :=
  [c.typeHandle, c.valueHandle, c.descHandle, c.rptRefHandle].filter (· ≠ 0)

/-- The number of handles that characteristics take together. -/
def charsSize (cs : List GattCharacter) : ℕ := (cs.map GattCharacter.size).sum

@[simp] theorem charsSize_nil : charsSize [] = 0 := rfl
@[simp] theorem charsSize_cons (c : GattCharacter) (cs : List GattCharacter) :
    charsSize (c :: cs) = c.size + charsSize cs := rfl

/-- The characteristic's attributes follow the handle `e`: its declaration, its value, and
the descriptors it has. -/
structure CharLaid (e : ℕ) (c : GattCharacter) : Prop where
  type : c.typeHandle.toNat = e + 1
  value : c.valueHandle.toNat = e + 2
  desc : c.descHandle.toNat = if 3 ≤ c.size then e + 3 else 0
  rptRef : c.rptRefHandle.toNat = if 4 ≤ c.size then e + 4 else 0

/-- The characteristics follow one another, the first after `e`, the last up to `e'`. -/
inductive CharsLaid : ℕ → List GattCharacter → ℕ → Prop
  | nil {e : ℕ} : CharsLaid e [] e
  | cons {e e' : ℕ} {c : GattCharacter} {cs : List GattCharacter} :
      CharLaid e c → CharsLaid (e + c.size) cs e' → CharsLaid e (c :: cs) e'

/-- The service follows the handle `last` and its characteristics follow it. -/
structure ServiceLaid (last : ℕ) (s : GattService σ) : Prop where
  start : s.handleStart.toNat = last + 1
  chars : CharsLaid (last + 1) s.characterList s.handleEnd.toNat

/-- The services follow one another, the first after `last`, the last up to `last'`. -/
inductive DbLaid : ℕ → List (GattService σ) → ℕ → Prop
  | nil {last : ℕ} : DbLaid last [] last
  | cons {last last' : ℕ} {s : GattService σ} {ss : List (GattService σ)} :
      ServiceLaid last s → DbLaid s.handleEnd.toNat ss last' → DbLaid last (s :: ss) last'

/-! ## What a layout implies -/

theorem GattCharacter.two_le_size (c : GattCharacter) : 2 ≤ c.size := by
  rw [size]; split <;> [split; skip] <;> omega

theorem GattCharacter.size_le_four (c : GattCharacter) : c.size ≤ 4 := by
  rw [size]; split <;> [split; skip] <;> omega

theorem CharsLaid.end_eq {e e' : ℕ} {cs : List GattCharacter} (h : CharsLaid e cs e') :
    e' = e + charsSize cs := by
  induction h with
  | nil => rfl
  | cons _ _ ih => rw [ih, charsSize_cons, Nat.add_assoc]

theorem CharsLaid.le {e e' : ℕ} {cs : List GattCharacter} (h : CharsLaid e cs e') : e ≤ e' := by
  have := h.end_eq
  omega

theorem ServiceLaid.start_le_end {last : ℕ} {s : GattService σ} (h : ServiceLaid last s) :
    s.handleStart.toNat ≤ s.handleEnd.toNat := by
  have := h.chars.le
  have := h.start
  omega

theorem DbLaid.le {last last' : ℕ} {ss : List (GattService σ)} (h : DbLaid last ss last') :
    last ≤ last' := by
  induction h with
  | nil => exact le_rfl
  | cons hs _ ih =>
      have := hs.start_le_end
      have := hs.start
      omega

/-- The range of every service lies between the two ends. -/
theorem DbLaid.range {last last' : ℕ} {ss : List (GattService σ)} (h : DbLaid last ss last')
    {s : GattService σ} (hs : s ∈ ss) :
    last + 1 ≤ s.handleStart.toNat ∧ s.handleStart.toNat ≤ s.handleEnd.toNat ∧
      s.handleEnd.toNat ≤ last' := by
  induction h with
  | nil => simp at hs
  | cons ht hts ih =>
      have hle := ht.start_le_end
      have hstart := ht.start
      have hend := hts.le
      rcases List.mem_cons.mp hs with rfl | hs
      · omega
      · have := ih hs
        omega

/-- The handles of a characteristic are the `size` ones after `e`. -/
theorem CharLaid.handles_eq {e : ℕ} {c : GattCharacter} (h : CharLaid e c) :
    c.handles.map UInt16.toNat = List.range' (e + 1) c.size := by
  have hne : ∀ {x : UInt16} {n : ℕ}, x.toNat = n + 1 → x ≠ 0 := by
    rintro x n hx rfl
    simp at hx
  have hzero : ∀ {x : UInt16}, x.toNat = 0 → x = 0 := fun hx => UInt16.toNat_inj.mp hx
  have htype := h.type
  have hvalue := h.value
  have hdesc := h.desc
  have hrpt := h.rptRef
  have hle := c.size_le_four
  obtain hs | hs | hs : c.size = 2 ∨ c.size = 3 ∨ c.size = 4 := by
    have := c.two_le_size
    omega
  all_goals
    simp only [hs, Nat.reduceLeDiff, if_true, if_false] at hdesc hrpt
  · simp [GattCharacter.handles, hne htype, hne hvalue, hzero hdesc, hzero hrpt, htype, hvalue,
      hs, List.range']
  · simp [GattCharacter.handles, hne htype, hne hvalue, hne hdesc, hzero hrpt, htype, hvalue,
      hdesc, hs, List.range']
  · simp [GattCharacter.handles, hne htype, hne hvalue, hne hdesc, hne hrpt, htype, hvalue,
      hdesc, hrpt, hs, List.range']

/-- The handles of the characteristics are all those between the two ends, in order. -/
theorem CharsLaid.handles_eq {e e' : ℕ} {cs : List GattCharacter} (h : CharsLaid e cs e') :
    (cs.flatMap GattCharacter.handles).map UInt16.toNat = List.range' (e + 1) (e' - e) := by
  induction h with
  | nil => simp
  | @cons e e' c cs hc hcs ih =>
      have hle := hcs.le
      have hsplit : e' - e = c.size + (e' - (e + c.size)) := by omega
      rw [List.flatMap_cons, List.map_append, hc.handles_eq, ih, hsplit,
        show e + c.size + 1 = e + 1 + c.size by omega, List.range'_append_1]

/-- All handles of a database: of each service its own, and those of its
characteristics. -/
def dbHandles (ss : List (GattService σ)) : List UInt16 :=
  ss.flatMap fun s => s.handleStart :: s.characterList.flatMap GattCharacter.handles

/-- The handles of a database are all those between its two ends, in order. -/
theorem DbLaid.handles_eq {last last' : ℕ} {ss : List (GattService σ)}
    (h : DbLaid last ss last') :
    (dbHandles ss).map UInt16.toNat = List.range' (last + 1) (last' - last) := by
  induction h with
  | nil => simp [dbHandles]
  | @cons last last' s ss hs hss ih =>
      have hle := hss.le
      have hstart := hs.start
      have hend := hs.chars.le
      have hsplit : last' - last =
          1 + ((s.handleEnd.toNat - (last + 1)) + (last' - s.handleEnd.toNat)) := by omega
      rw [dbHandles] at ih ⊢
      rw [List.flatMap_cons, List.cons_append, List.map_cons, List.map_append, ih,
        hs.chars.handles_eq, hsplit, hstart,
        show s.handleEnd.toNat + 1 = last + 1 + 1 + (s.handleEnd.toNat - (last + 1)) by omega,
        List.range'_append_1, Nat.add_comm 1, List.range'_succ]

/-- Layouts compose. -/
theorem DbLaid.append {last mid last' : ℕ} {ss ts : List (GattService σ)}
    (hs : DbLaid last ss mid) (ht : DbLaid mid ts last') : DbLaid last (ss ++ ts) last' := by
  induction hs with
  | nil => exact ht
  | cons h _ ih => exact .cons h (ih ht)

/-- The end of a layout is the end of its last service. -/
theorem DbLaid.lastHandleValue_eq {last : ℕ} {ss : List (GattService σ)}
    (h : DbLaid 0 ss last) : (lastHandleValue ss).toNat = last := by
  suffices hgen : ∀ {l l' : ℕ} {ss : List (GattService σ)}, DbLaid l ss l' → ss ≠ [] →
      (lastHandleValue ss).toNat = l' by
    cases ss with
    | nil => cases h; rfl
    | cons s ss => exact hgen h (by simp)
  intro l l' ss h hne
  induction h with
  | nil => exact absurd rfl hne
  | @cons l l' s ss hs hss ih =>
      cases ss with
      | nil => cases hss; rfl
      | cons t ts =>
          have ih' := ih (by simp)
          simpa [lastHandleValue] using ih'

/-! ## What the allocator lays out -/

/-- The allocator's three cases in one: which descriptors get a handle, and how far the
end moves, depends on the size alone. -/
theorem initServiceHandleValueCb_eq (c : GattCharacter) (e : UInt16) :
    initServiceHandleValueCb c e =
      ({ c with
          typeHandle := e + 1
          valueHandle := e + 2
          descHandle := if 3 ≤ c.size then e + 3 else 0
          rptRefHandle := if 4 ≤ c.size then e + 4 else c.rptRefHandle },
        e + UInt16.ofNat c.size) := by
  by_cases hd : c.hasDesc = true
  · by_cases hr : c.prop &&& btGattChrcPropReportRef ≠ 0
    · simp [initServiceHandleValueCb, GattCharacter.size, hd, hr]
    · simp [initServiceHandleValueCb, GattCharacter.size, hd, hr]
  · simp [initServiceHandleValueCb, GattCharacter.size, hd]

@[simp] theorem size_initServiceHandleValueCb (c : GattCharacter) (e : UInt16) :
    (initServiceHandleValueCb c e).1.size = c.size := by
  rw [initServiceHandleValueCb_eq]
  rfl

/-- One characteristic that fits is laid out, and the end moves by its size. -/
theorem initServiceHandleValueCb_laid {c : GattCharacter} {e : UInt16}
    (hrpt : c.rptRefHandle = 0) (hfit : e.toNat + c.size ≤ 0xFFFF) :
    CharLaid e.toNat (initServiceHandleValueCb c e).1 ∧
      (initServiceHandleValueCb c e).2.toNat = e.toNat + c.size := by
  have hadd : ∀ k, k ≤ c.size → (e + UInt16.ofNat k).toNat = e.toNat + k := by
    intro k hk
    rw [UInt16.toNat_add, UInt16.toNat_ofNat']
    omega
  have htwo := c.two_le_size
  have hsize := size_initServiceHandleValueCb c e
  rw [initServiceHandleValueCb_eq] at hsize ⊢
  refine ⟨⟨hadd 1 (by omega), hadd 2 htwo, ?_, ?_⟩, hadd _ le_rfl⟩
  · rw [hsize]
    by_cases h : 3 ≤ c.size
    · simpa [h] using hadd 3 h
    · simp [h]
  · rw [hsize]
    by_cases h : 4 ≤ c.size
    · simpa [h] using hadd 4 h
    · simp [h, hrpt]

/-- The characteristics of a service that fits are laid out one after the other. -/
theorem initCharacters_laid {cs : List GattCharacter} {e : UInt16}
    (hrpt : ∀ c ∈ cs, c.rptRefHandle = 0) (hfit : e.toNat + charsSize cs ≤ 0xFFFF) :
    CharsLaid e.toNat (initCharacters cs e).1 (initCharacters cs e).2.toNat := by
  induction cs generalizing e with
  | nil => exact .nil
  | cons c cs ih =>
      rw [charsSize_cons] at hfit
      obtain ⟨hlaid, hend⟩ :=
        initServiceHandleValueCb_laid (hrpt c (by simp)) (by omega : e.toNat + c.size ≤ 0xFFFF)
      have htail := ih (e := (initServiceHandleValueCb c e).2)
        (fun d hd => hrpt d (by simp [hd])) (by omega)
      simp only [initCharacters]
      refine .cons hlaid ?_
      rwa [size_initServiceHandleValueCb, ← hend]

@[simp] theorem charsSize_initCharacters (cs : List GattCharacter) (e : UInt16) :
    charsSize (initCharacters cs e).1 = charsSize cs := by
  induction cs generalizing e with
  | nil => rfl
  | cons c cs ih => simp [initCharacters, ih]

/-- Below `0xFFFF` the allocator takes the next handle and does not fail. -/
theorem initServiceHandleValue_eq {ss : List (GattService σ)} (s : GattService σ)
    (h : (lastHandleValue ss).toNat < 0xFFFF) :
    initServiceHandleValue ss s = some { s with
      handleStart := lastHandleValue ss + 1
      handleEnd := (initCharacters s.characterList (lastHandleValue ss + 1)).2
      characterList := (initCharacters s.characterList (lastHandleValue ss + 1)).1 } := by
  have hlt : ¬ lastHandleValue ss ≥ 0xFFFF := by
    rw [ge_iff_le, UInt16.le_iff_toNat_le]
    simpa using h
  simp [initServiceHandleValue, hlt]

theorem toNat_lastHandleValue_succ {ss : List (GattService σ)}
    (h : (lastHandleValue ss).toNat < 0xFFFF) :
    (lastHandleValue ss + 1).toNat = (lastHandleValue ss).toNat + 1 := by
  rw [UInt16.toNat_add]
  simp
  omega

/-- **A service that fits after a laid out database extends it.** -/
theorem DbLaid.registerGattService {last : ℕ} {ss : List (GattService σ)}
    (h : DbLaid 0 ss last) {s : GattService σ} (ioCb : GattsCb σ)
    (hrpt : ∀ c ∈ s.characterList, c.rptRefHandle = 0)
    (hfit : last + 1 + charsSize s.characterList ≤ 0xFFFF) :
    DbLaid 0 (registerGattService ss s ioCb) (last + 1 + charsSize s.characterList) := by
  have hlast := h.lastHandleValue_eq
  have hlt : (lastHandleValue ss).toNat < 0xFFFF := by omega
  have hstart := toNat_lastHandleValue_succ hlt
  have hchars := initCharacters_laid (e := lastHandleValue ss + 1) hrpt (by omega)
  have hend := hchars.end_eq
  rw [Gatt.registerGattService, initServiceHandleValue_eq s hlt]
  refine h.append (.cons ⟨?_, ?_⟩ ?_)
  · show (lastHandleValue ss + 1).toNat = last + 1
    omega
  · rw [hstart, hlast] at hchars
    exact hchars
  · rw [charsSize_initCharacters] at hend
    rw [show last + 1 + charsSize s.characterList =
      (initCharacters s.characterList (lastHandleValue ss + 1)).2.toNat by omega]
    exact .nil

/-! ## Databases that did not wrap -/

/-- The databases that `register_gatt_service` builds: services as `create_service`,
`create_character` and `service_add_character` leave them, registered one after the
other. -/
inductive Built : List (GattService σ) → Prop
  | nil : Built []
  | register {ss : List (GattService σ)} {s : GattService σ} (ioCb : GattsCb σ) :
      Built ss → (∀ c ∈ s.characterList, ∃ uuid prop, c = createCharacter uuid prop) →
      Built (registerGattService ss s ioCb)

/-- All handles of a service are at most `0xFFFE`. -/
structure GattService.NoWrap (s : GattService σ) : Prop where
  start : s.handleStart ≤ 0xFFFE
  last : s.handleEnd ≤ 0xFFFE
  chars : ∀ c ∈ s.characterList, ∀ h ∈ c.handles, h ≤ 0xFFFE

/-- All handles of a database are at most `0xFFFE`. -/
def NoWrap (ss : List (GattService σ)) : Prop := ∀ s ∈ ss, s.NoWrap

/-- A characteristic that would reach past `0xFFFE` gets the handle `0xFFFF`. -/
theorem exists_handle_of_not_fit {c : GattCharacter} {e : UInt16} (he : e.toNat ≤ 0xFFFE)
    (hover : 0xFFFE < e.toNat + c.size) :
    0xFFFF ∈ (initServiceHandleValueCb c e).1.handles := by
  have hfour := c.size_le_four
  obtain ⟨k, hk, hsize⟩ : ∃ k, e.toNat + k = 0xFFFF ∧ 1 ≤ k ∧ k ≤ c.size :=
    ⟨0xFFFF - e.toNat, by omega, by omega, by omega⟩
  have heq : e + UInt16.ofNat k = 0xFFFF := by
    apply UInt16.toNat_inj.mp
    rw [UInt16.toNat_add, UInt16.toNat_ofNat']
    simp
    omega
  rw [initServiceHandleValueCb_eq]
  obtain rfl | rfl | rfl | rfl : k = 1 ∨ k = 2 ∨ k = 3 ∨ k = 4 := by omega
  · simp [GattCharacter.handles, show e + 1 = 0xFFFF from heq]
  · simp [GattCharacter.handles, show e + 2 = 0xFFFF from heq]
  · simp [GattCharacter.handles, show e + 3 = 0xFFFF from heq, hsize]
  · simp [GattCharacter.handles, show e + 4 = 0xFFFF from heq, hsize]

/-- Characteristics without a handle above `0xFFFE` fit below it. -/
theorem charsSize_le_of_handles_le {cs : List GattCharacter} {e : UInt16}
    (he : e.toNat ≤ 0xFFFE)
    (h : ∀ c ∈ (initCharacters cs e).1, ∀ x ∈ c.handles, x ≤ 0xFFFE) :
    e.toNat + charsSize cs ≤ 0xFFFE := by
  induction cs generalizing e with
  | nil => simpa using he
  | cons c cs ih =>
      simp only [initCharacters, List.mem_cons, forall_eq_or_imp] at h
      have hfit : e.toNat + c.size ≤ 0xFFFE := by
        by_contra hover
        have hle := h.1 _ (exists_handle_of_not_fit he (by omega))
        exact absurd hle (by decide)
      have hend : (initServiceHandleValueCb c e).2.toNat = e.toNat + c.size := by
        rw [initServiceHandleValueCb_eq, UInt16.toNat_add, UInt16.toNat_ofNat']
        omega
      have htail := ih (e := (initServiceHandleValueCb c e).2) (by omega) h.2
      rw [charsSize_cons]
      omega

/-- **A database that shows no handle above `0xFFFE` was laid out without a wrap.** -/
theorem dbLaid_of_built {ss : List (GattService σ)} (h : Built ss) (hno : NoWrap ss) :
    ∃ last, DbLaid 0 ss last ∧ last ≤ 0xFFFE := by
  induction h with
  | nil => exact ⟨0, .nil, by omega⟩
  | @register ss s ioCb hss hfresh ih =>
      have hno' : NoWrap ss := fun t ht => hno t (List.mem_append_left _ ht)
      obtain ⟨last, hlaid, hle⟩ := ih hno'
      have hlast := hlaid.lastHandleValue_eq
      have hlt : (lastHandleValue ss).toNat < 0xFFFF := by omega
      have hstart := toNat_lastHandleValue_succ hlt
      rw [registerGattService, initServiceHandleValue_eq s hlt] at hno
      obtain ⟨hs, -, hcs⟩ := hno _ (List.mem_append_right _ (List.mem_singleton_self _))
      have hs' : (lastHandleValue ss + 1).toNat ≤ 0xFFFE := UInt16.le_iff_toNat_le.mp hs
      have hfit := charsSize_le_of_handles_le hs' hcs
      have hrpt : ∀ c ∈ s.characterList, c.rptRefHandle = 0 := by
        intro c hc
        obtain ⟨uuid, prop, rfl⟩ := hfresh c hc
        rfl
      exact ⟨_, hlaid.registerGattService ioCb hrpt (by omega), by omega⟩

end CCode.Gatt
