import CCode.Lib.Transition
import CCode.Gatt.Layout

/-!
# Handle allocation over sequences of calls

Services and characteristics are heap objects that the program builds call by call:
`create_service`, `create_character`, `service_add_character`, and at last
`register_gatt_service`, which hands out the handles. `Store` is that heap, `exec` a call
on it, with the outcome of every allocation an input.

The allocator keeps the handles in order as long as every registration fits into what is
left of the handle space; `refusesUnfit_iff` says that one which does not fit is never
refused. The same object registered twice, or shared between services, gets new handles
over its old ones, so the runs considered use each object once.

## Main definitions

* `Store`, `Call`, `exec` — the heap and the calls.
* `Store.view` — the registered services as values.
* `HandlesOk` — ranges in order, handles inside them and distinct.
* `Admissible` — the calls that keep it.
-/

namespace CCode.Gatt

open CCode.Lib

variable {σ : Type}

/-! ## The heap and the calls on it -/

/-- `struct gatt_service` on the heap: its characteristics are pointers. -/
structure ServiceObj (σ : Type) where
  handleStart : UInt16
  handleEnd : UInt16
  uuid : BtUuid
  characterList : List ℕ
  ioCb : GattsCb σ
  mtu : Int

/-- The objects made so far, by address, and the service list. `registered` is the
history of the registrations that returned a non-null interface. -/
structure Store (σ : Type) where
  characters : List GattCharacter
  services : List (ServiceObj σ)
  serviceList : List ℕ
  registered : List ℕ

/-- Before the first call. -/
def Store.empty : Store σ := ⟨[], [], [], []⟩

/-- The calls, with the pointers they are given, `none` for a null pointer, and whether
the memory they ask for is there. The handle fields of a new service are whatever
`malloc` returned. -/
inductive Call (σ : Type)
  | createService (uuid : BtUuid) (handleStart handleEnd : UInt16) (allocated : Bool)
  | createCharacter (uuid : BtUuid) (prop : UInt16) (allocated : Bool)
  | serviceAddCharacter (service character : Option ℕ) (allocated : Bool)
  | registerGattService (service : Option ℕ) (ioCb : Option (GattsCb σ)) (allocated : Bool)

/-- A service object with its pointers followed. -/
def Store.value (st : Store σ) (o : ServiceObj σ) : GattService σ :=
  { handleStart := o.handleStart, handleEnd := o.handleEnd, uuid := o.uuid,
    characterList := o.characterList.filterMap (st.characters[·]?),
    ioCb := o.ioCb, mtu := o.mtu }

/-- The services at the given addresses, as values. -/
def Store.deref (st : Store σ) (as : List ℕ) : List (GattService σ) :=
  as.filterMap fun a => st.services[a]?.map st.value

/-- The registered services, in the order of their registration. -/
def Store.view (st : Store σ) : List (GattService σ) := st.deref st.registered

/-- `queue_foreach` with `init_service_handle_value_cb` over the characteristics of a
service, in place. -/
def initCharacterPtrs : List ℕ → List GattCharacter → UInt16 → List GattCharacter × UInt16
  | [], heap, handleEnd => (heap, handleEnd)
  | a :: as, heap, handleEnd =>
      match heap[a]? with
      | some c =>
          let (c', handleEnd') := initServiceHandleValueCb c handleEnd
          initCharacterPtrs as (heap.set a c') handleEnd'
      | none => initCharacterPtrs as heap handleEnd

/-- The end of the service at the tail of the list, zero without one. -/
def Store.lastHandle (st : Store σ) : UInt16 :=
  ((st.serviceList.getLast?.bind fun a => st.services[a]?).map ServiceObj.handleEnd).getD 0

/-- `init_service_handle_value` in place. At `0xFFFF` it returns before it writes. -/
def Store.initHandles (st : Store σ) (a : ℕ) (o : ServiceObj σ) : Store σ :=
  let last := st.lastHandle
  if last ≥ 0xFFFF then st
  else
    let (heap, handleEnd) := initCharacterPtrs o.characterList st.characters (last + 1)
    { st with
        characters := heap
        services := st.services.set a { o with handleStart := last + 1, handleEnd } }

/-- `register_gatt_service` of the object `o` at `a`: the status of the allocator is
dropped, and so is that of `queue_push_tail`. -/
def Store.register (st : Store σ) (a : ℕ) (o : ServiceObj σ) (ioCb : GattsCb σ)
    (allocated : Bool) : Store σ :=
  let st' := st.initHandles a o
  { st' with
      services := st'.services.set a { (st'.services[a]?).getD o with ioCb }
      serviceList := if allocated then st'.serviceList ++ [a] else st'.serviceList
      registered := st'.registered ++ [a] }

/-- One call: the new heap, and whether it reported success, that is a non-null pointer or
`GATT_SUCCESS`. -/
def exec (st : Store σ) : Call σ → Store σ × Bool
  | .createService uuid handleStart handleEnd allocated =>
      if allocated then
        ({ st with services := st.services ++
            [⟨handleStart, handleEnd, uuid, [], .idle, btAttDefaultLeMtu⟩] }, true)
      else (st, false)
  | .createCharacter uuid prop allocated =>
      if allocated then
        ({ st with characters := st.characters ++ [createCharacter uuid prop] }, true)
      else (st, false)
  | .serviceAddCharacter (some s) (some c) allocated =>
      match st.services[s]?, st.characters[c]? with
      | some o, some _ =>
          (if allocated then
            { st with
                services := st.services.set s { o with characterList := o.characterList ++ [c] } }
          else st, true)
      | _, _ => (st, false)
  | .serviceAddCharacter _ _ _ => (st, false)
  | .registerGattService (some a) (some ioCb) allocated =>
      match st.services[a]? with
      | some o => (st.register a o ioCb allocated, true)
      | none => (st, false)
  | .registerGattService _ _ _ => (st, false)

/-- `exec` as a transition. -/
def execStep (st : Store σ) (call : Call σ) : Option (Store σ) := some (exec st call).1

/-! ## What is wanted of the handles -/

/-- The ranges are valid, in order, disjoint and without a gap; the handles of the
characteristics lie in the range of their own service, and no two are equal. -/
structure HandlesOk (ss : List (GattService σ)) : Prop where
  range : ∀ s ∈ ss, 1 ≤ s.handleStart.toNat ∧ s.handleStart.toNat ≤ s.handleEnd.toNat ∧
    s.handleEnd.toNat ≤ 0xFFFF
  contiguous : ss.IsChain fun s t => t.handleStart.toNat = s.handleEnd.toNat + 1
  disjoint : ss.Pairwise fun s t => s.handleEnd < t.handleStart ∨ t.handleEnd < s.handleStart
  inside : ∀ s ∈ ss, ∀ c ∈ s.characterList, ∀ h ∈ c.handles,
    s.handleStart ≤ h ∧ h ≤ s.handleEnd
  distinct : (ss.flatMap fun s => s.characterList.flatMap GattCharacter.handles).Nodup

/-- The handles of the service at `a` fit after those of the last one. -/
def Fits (st : Store σ) (a : ℕ) : Prop :=
  ∃ o, st.services[a]? = some o ∧
    st.lastHandle.toNat + 1 + charsSize (st.value o).characterList ≤ 0xFFFF

/-- A registration whose handles do not fit returns null and leaves the service list as
it was. -/
def RefusesUnfit (st : Store σ) (call : Call σ) : Prop :=
  ∀ a ioCb allocated, call = .registerGattService (some a) (some ioCb) allocated →
    a < st.services.length → ¬ Fits st a →
    (exec st call).2 = false ∧ (exec st call).1.serviceList = st.serviceList

/-- Each object is used once: a characteristic is added to one service only and before
that service is registered; a service is registered once, and its list entry is there. -/
def UsedOnce (st : Store σ) : Call σ → Prop
  | .serviceAddCharacter (some s) (some c) _ =>
      s ∉ st.registered ∧ ∀ o ∈ st.services, c ∉ o.characterList
  | .registerGattService (some a) (some _) allocated => a ∉ st.registered ∧ allocated = true
  | _ => True

/-- The condition on a call: each object is used once, and what is registered fits. -/
def Admissible (st : Store σ) (call : Call σ) : Prop :=
  UsedOnce st call ∧
    ∀ a ioCb allocated, call = .registerGattService (some a) (some ioCb) allocated → Fits st a

/-! ## A layout has these properties -/

theorem CharsLaid.mem_handles {e e' : ℕ} {cs : List GattCharacter} (h : CharsLaid e cs e')
    {x : UInt16} (hx : x ∈ cs.flatMap GattCharacter.handles) :
    e + 1 ≤ x.toNat ∧ x.toNat ≤ e' := by
  have hmem : x.toNat ∈ List.range' (e + 1) (e' - e) := by
    rw [← h.handles_eq]
    exact List.mem_map_of_mem hx
  have hle := h.le
  rw [List.mem_range'_1] at hmem
  omega

theorem DbLaid.handles_nodup {last last' : ℕ} {ss : List (GattService σ)}
    (h : DbLaid last ss last') : (dbHandles ss).Nodup := by
  apply List.Nodup.of_map UInt16.toNat
  rw [h.handles_eq]
  exact List.nodup_range'

/-- **A laid out database has its handles in order.** -/
theorem DbLaid.handlesOk {last last' : ℕ} {ss : List (GattService σ)}
    (h : DbLaid last ss last') : HandlesOk ss where
  range := by
    intro s hs
    have := h.range hs
    have := s.handleEnd.toNat_lt
    omega
  contiguous := by
    induction h with
    | nil => exact .nil
    | cons hs hss ih =>
        cases hss with
        | nil => exact .singleton _
        | cons ht hts => exact .cons_cons ht.start ih
  disjoint := by
    induction h with
    | nil => exact .nil
    | cons hs hss ih =>
        refine List.pairwise_cons.mpr ⟨?_, ih⟩
        intro t ht
        have := hss.range ht
        exact .inl (UInt16.lt_iff_toNat_lt.mpr (by omega))
  inside := by
    induction h with
    | nil => simp
    | cons hs hss ih =>
        intro s hmem c hc x hx
        rcases List.mem_cons.mp hmem with rfl | hmem
        · have hin := hs.chars.mem_handles (List.mem_flatMap.mpr ⟨c, hc, hx⟩)
          have := hs.start
          exact ⟨UInt16.le_iff_toNat_le.mpr (by omega), UInt16.le_iff_toNat_le.mpr (by omega)⟩
        · exact ih s hmem c hc x hx
  distinct := by
    refine h.handles_nodup.sublist ?_
    exact List.Sublist.flatMap_right ss fun s _ => List.sublist_cons_self _ _

/-! ## The heap refines the list of services -/

@[simp] theorem length_initCharacterPtrs (ptrs : List ℕ) (heap : List GattCharacter)
    (e : UInt16) : (initCharacterPtrs ptrs heap e).1.length = heap.length := by
  induction ptrs generalizing heap e with
  | nil => rfl
  | cons a as ih =>
      rw [initCharacterPtrs]
      split
      · simp [ih]
      · exact ih heap e

/-- Over distinct valid pointers the allocation in place is the allocation on values, and
no other object changes. -/
theorem initCharacterPtrs_spec {ptrs : List ℕ} (heap : List GattCharacter) (e : UInt16)
    (hnodup : ptrs.Nodup) (hvalid : ∀ a ∈ ptrs, a < heap.length) :
    ptrs.filterMap ((initCharacterPtrs ptrs heap e).1[·]?) =
        (initCharacters (ptrs.filterMap (heap[·]?)) e).1 ∧
      (initCharacterPtrs ptrs heap e).2 = (initCharacters (ptrs.filterMap (heap[·]?)) e).2 ∧
      (∀ a, a ∉ ptrs → (initCharacterPtrs ptrs heap e).1[a]? = heap[a]?) := by
  induction ptrs generalizing heap e with
  | nil => simp [initCharacterPtrs, initCharacters]
  | cons a as ih =>
      obtain ⟨hna, hnodup⟩ := List.nodup_cons.mp hnodup
      have ha : a < heap.length := hvalid a (by simp)
      have hget : heap[a]? = some heap[a] := List.getElem?_eq_getElem ha
      -- writing the object at `a` does not disturb the other pointers
      have hrest : as.filterMap ((heap.set a (initServiceHandleValueCb heap[a] e).1)[·]?) =
          as.filterMap (heap[·]?) := by
        apply List.filterMap_congr
        intro b hb
        have hne : a ≠ b := fun h => hna (h ▸ hb)
        simp [List.getElem?_set_ne hne]
      obtain ⟨hvals, hend, hframe⟩ := ih
        (heap.set a (initServiceHandleValueCb heap[a] e).1)
        (initServiceHandleValueCb heap[a] e).2 hnodup
        (fun b hb => by simpa using hvalid b (by simp [hb]))
      rw [hrest] at hvals hend
      have hself := hframe a hna
      rw [List.getElem?_set_self ha] at hself
      refine ⟨?_, ?_, ?_⟩
      · simp only [initCharacterPtrs, hget, List.filterMap_cons, hself, initCharacters, hvals]
      · simp only [initCharacterPtrs, hget, List.filterMap_cons, initCharacters, hend]
      · intro b hb
        have hne : a ≠ b := fun h => hb (by simp [h])
        have hb' : b ∉ as := fun h => hb (by simp [h])
        simp only [initCharacterPtrs, hget]
        rw [hframe b hb', List.getElem?_set_ne hne]

theorem Store.deref_append (st : Store σ) (as bs : List ℕ) :
    st.deref (as ++ bs) = st.deref as ++ st.deref bs := List.filterMap_append

/-- Two heaps that agree on some services and on their characteristics show the same
values there. -/
theorem Store.deref_congr {st st' : Store σ} {as : List ℕ}
    (hs : ∀ a ∈ as, st'.services[a]? = st.services[a]?)
    (hc : ∀ a ∈ as, ∀ o, st.services[a]? = some o → ∀ c ∈ o.characterList,
      st'.characters[c]? = st.characters[c]?) : st'.deref as = st.deref as := by
  apply List.filterMap_congr
  intro a ha
  rw [hs a ha]
  cases ho : st.services[a]? with
  | none => rfl
  | some o =>
      have hval : st'.value o = st.value o := by
        simp only [value]
        rw [List.filterMap_congr (hc a ha o ho)]
      simp [hval]

theorem Store.view_congr {st st' : Store σ} (hr : st'.registered = st.registered)
    (hs : ∀ a ∈ st.registered, st'.services[a]? = st.services[a]?)
    (hc : ∀ a ∈ st.registered, ∀ o, st.services[a]? = some o → ∀ c ∈ o.characterList,
      st'.characters[c]? = st.characters[c]?) : st'.view = st.view := by
  rw [view, view, hr, deref_congr hs hc]

/-- What holds of the heap between calls that use each object once. A characteristic that
no registered service lists is as `create_character` left it. -/
structure StoreInv (st : Store σ) : Prop where
  list_eq : st.serviceList = st.registered
  valid : ∀ a ∈ st.registered, a < st.services.length
  ptrs : ∀ o ∈ st.services, ∀ c ∈ o.characterList, c < st.characters.length
  nodup : ∀ o ∈ st.services, o.characterList.Nodup
  unshared : ∀ {a b : ℕ} {o o' : ServiceObj σ} {c : ℕ}, st.services[a]? = some o →
    st.services[b]? = some o' → c ∈ o.characterList → c ∈ o'.characterList → a = b
  fresh : ∀ {c : ℕ} {x : GattCharacter}, st.characters[c]? = some x →
    (∀ a ∈ st.registered, ∀ o, st.services[a]? = some o → c ∉ o.characterList) →
    ∃ uuid prop, x = createCharacter uuid prop

theorem storeInv_empty : StoreInv (Store.empty : Store σ) where
  list_eq := rfl
  valid := by simp [Store.empty]
  ptrs := by simp [Store.empty]
  nodup := by simp [Store.empty]
  unshared := by simp [Store.empty]
  fresh := by simp [Store.empty]

/-- The handle the allocator starts from is the end of the last registered service. -/
theorem StoreInv.lastHandle_eq {st : Store σ} (h : StoreInv st) :
    st.lastHandle = lastHandleValue st.view := by
  rw [Store.lastHandle, h.list_eq, lastHandleValue, Store.view]
  rcases List.eq_nil_or_concat st.registered with hnil | ⟨as, a, hconcat⟩
  · simp [hnil, Store.deref]
  · have ha : a < st.services.length := h.valid a (by simp [hconcat])
    simp [hconcat, Store.deref, List.getElem?_eq_getElem ha, Store.value]

/-- The characteristics of a service that is not registered yet are as they were
created. -/
theorem StoreInv.value_fresh {st : Store σ} (h : StoreInv st) {a : ℕ} {o : ServiceObj σ}
    (ho : st.services[a]? = some o) (ha : a ∉ st.registered) :
    ∀ x ∈ (st.value o).characterList, ∃ uuid prop, x = createCharacter uuid prop := by
  intro x hx
  obtain ⟨c, hc, hcx⟩ := List.mem_filterMap.mp hx
  refine h.fresh hcx ?_
  intro b hb o' ho' hc'
  exact ha (h.unshared ho ho' hc hc' ▸ hb)

/-- What registration does to the heap: the object at `a` gets new handles or keeps its
old ones, its characteristics get handles, and nothing else changes. -/
theorem Store.register_spec {st : Store σ} {a : ℕ} {o : ServiceObj σ}
    (ho : st.services[a]? = some o) (ioCb : GattsCb σ)
    (hnodup : o.characterList.Nodup) (hvalid : ∀ c ∈ o.characterList, c < st.characters.length) :
    ∃ o', (st.register a o ioCb true).services = st.services.set a o' ∧
      o'.characterList = o.characterList ∧
      (st.register a o ioCb true).value o' =
        { (if st.lastHandle ≥ 0xFFFF then st.value o else
            { (st.value o) with
              handleStart := st.lastHandle + 1
              handleEnd :=
                (initCharacters (st.value o).characterList (st.lastHandle + 1)).2
              characterList :=
                (initCharacters (st.value o).characterList (st.lastHandle + 1)).1 }) with ioCb } ∧
      (st.register a o ioCb true).characters.length = st.characters.length ∧
      ∀ c, c ∉ o.characterList →
        (st.register a o ioCb true).characters[c]? = st.characters[c]? := by
  have halen : a < st.services.length := (List.getElem?_eq_some_iff.mp ho).1
  by_cases hlast : st.lastHandle ≥ 0xFFFF
  · refine ⟨{ o with ioCb }, ?_⟩
    simp [register, initHandles, hlast, ho, value]
  · obtain ⟨hvals, hend, hframe⟩ :=
      initCharacterPtrs_spec _ (st.lastHandle + 1) hnodup hvalid
    refine ⟨{ o with
      handleStart := st.lastHandle + 1
      handleEnd := (initCharacterPtrs o.characterList st.characters (st.lastHandle + 1)).2
      ioCb }, ?_⟩
    simp only [register, initHandles, hlast, if_false, List.getElem?_set_self halen,
      List.set_set, Option.getD_some, length_initCharacterPtrs, true_and]
    refine ⟨?_, hframe⟩
    simp [value, hvals, hend]

theorem Store.register_lists (st : Store σ) (a : ℕ) (o : ServiceObj σ) (ioCb : GattsCb σ) :
    (st.register a o ioCb true).serviceList = st.serviceList ++ [a] ∧
      (st.register a o ioCb true).registered = st.registered ++ [a] := by
  by_cases hlast : st.lastHandle ≥ 0xFFFF <;> simp [register, initHandles, hlast]

/-- **Registration on the heap is registration on the list of services.** -/
theorem StoreInv.view_register {st : Store σ} (h : StoreInv st) {a : ℕ} {o : ServiceObj σ}
    (ho : st.services[a]? = some o) (ha : a ∉ st.registered) (ioCb : GattsCb σ) :
    (st.register a o ioCb true).view = registerGattService st.view (st.value o) ioCb := by
  have halen : a < st.services.length := (List.getElem?_eq_some_iff.mp ho).1
  have hmem : o ∈ st.services := List.mem_of_getElem? ho
  obtain ⟨o', hserv, hlist, hval, -, hframe⟩ :=
    Store.register_spec ho ioCb (h.nodup o hmem) (h.ptrs o hmem)
  rw [Store.view, (Store.register_lists st a o ioCb).2, Store.deref_append, registerGattService]
  congr 1
  · apply Store.deref_congr
    · intro b hb
      have hne : a ≠ b := fun hab => ha (hab ▸ hb)
      rw [hserv]
      exact List.getElem?_set_ne hne
    · intro b hb o'' ho'' c hc
      exact hframe c fun hco => ha (h.unshared ho ho'' hco hc ▸ hb)
  · have hget : (st.register a o ioCb true).services[a]? = some o' := by
      rw [hserv]
      exact List.getElem?_set_self halen
    simp only [Store.deref, List.filterMap_cons, hget, Option.map_some, List.filterMap_nil, hval,
      initServiceHandleValue, h.lastHandle_eq]
    split <;> rfl

/-! ## The invariant along a run -/

theorem StoreInv.createService {st : Store σ} (h : StoreInv st) {o : ServiceObj σ}
    (hnil : o.characterList = []) :
    StoreInv { st with services := st.services ++ [o] } ∧
      { st with services := st.services ++ [o] }.view = st.view := by
  have hget : ∀ a ∈ st.registered, (st.services ++ [o])[a]? = st.services[a]? := fun a ha =>
    List.getElem?_append_left (h.valid a ha)
  -- a service that lists anything was there before
  have hold : ∀ {a : ℕ} {o' : ServiceObj σ} {c : ℕ}, (st.services ++ [o])[a]? = some o' →
      c ∈ o'.characterList → st.services[a]? = some o' := by
    intro a o' c ha hc
    rcases Nat.lt_or_ge a st.services.length with hlt | hge
    · rwa [List.getElem?_append_left hlt] at ha
    · rw [List.getElem?_append_right hge] at ha
      obtain rfl : o' = o := by simpa using List.mem_of_getElem? ha
      simp [hnil] at hc
  refine ⟨?_, Store.view_congr rfl hget fun _ _ _ _ _ _ => rfl⟩
  exact
    { list_eq := h.list_eq
      valid := fun a ha => by have := h.valid a ha; simp; omega
      ptrs := by
        intro o' ho' c hc
        rcases List.mem_append.mp ho' with ho' | ho'
        · exact h.ptrs o' ho' c hc
        · simp_all
      nodup := by
        intro o' ho'
        rcases List.mem_append.mp ho' with ho' | ho'
        · exact h.nodup o' ho'
        · simp_all
      unshared := fun ha hb hc hc' => h.unshared (hold ha hc) (hold hb hc') hc hc'
      fresh := by
        intro c x hx hc
        exact h.fresh hx fun a ha o' ho' => hc a ha o' (by rw [hget a ha]; exact ho') }

theorem StoreInv.createCharacter {st : Store σ} (h : StoreInv st) (uuid : BtUuid)
    (prop : UInt16) :
    StoreInv { st with characters := st.characters ++ [Gatt.createCharacter uuid prop] } ∧
      { st with characters := st.characters ++ [Gatt.createCharacter uuid prop] }.view =
        st.view := by
  refine ⟨?_, Store.view_congr rfl (fun _ _ => rfl) fun _ _ o ho c hc =>
    List.getElem?_append_left (h.ptrs o (List.mem_of_getElem? ho) c hc)⟩
  exact
    { list_eq := h.list_eq
      valid := h.valid
      ptrs := fun o ho c hc => by have := h.ptrs o ho c hc; simp; omega
      nodup := h.nodup
      unshared := h.unshared
      fresh := by
        intro c y hy hc
        rcases Nat.lt_or_ge c st.characters.length with hlt | hge
        · rw [List.getElem?_append_left hlt] at hy
          exact h.fresh hy hc
        · rw [List.getElem?_append_right hge] at hy
          exact ⟨uuid, prop, by simpa using List.mem_of_getElem? hy⟩ }

/-- Adding an unlisted characteristic to a service that is not registered. -/
theorem StoreInv.addCharacter {st : Store σ} (h : StoreInv st) {s c : ℕ} {o : ServiceObj σ}
    (ho : st.services[s]? = some o) (hc : c < st.characters.length) (hs : s ∉ st.registered)
    (hnew : ∀ o ∈ st.services, c ∉ o.characterList) :
    StoreInv { st with
        services := st.services.set s { o with characterList := o.characterList ++ [c] } } ∧
      { st with
        services :=
          st.services.set s { o with characterList := o.characterList ++ [c] } }.view =
        st.view := by
  have hslen : s < st.services.length := (List.getElem?_eq_some_iff.mp ho).1
  have hmem : o ∈ st.services := List.mem_of_getElem? ho
  have hget : ∀ a ∈ st.registered, (st.services.set s
      { o with characterList := o.characterList ++ [c] })[a]? = st.services[a]? := by
    intro a ha
    have hne : s ≠ a := fun hsa => hs (hsa ▸ ha)
    exact List.getElem?_set_ne hne
  -- a listed characteristic is the new one, or was listed by the same service before
  have hold : ∀ {a : ℕ} {o' : ServiceObj σ} {d : ℕ}, (st.services.set s
      { o with characterList := o.characterList ++ [c] })[a]? = some o' →
      d ∈ o'.characterList → (a = s ∧ d = c) ∨
        ∃ o'', st.services[a]? = some o'' ∧ d ∈ o''.characterList := by
    intro a o' d ha hd
    by_cases hsa : s = a
    · subst hsa
      rw [List.getElem?_set_self hslen] at ha
      obtain rfl := Option.some.inj ha
      rcases List.mem_append.mp hd with hd | hd
      · exact .inr ⟨o, ho, hd⟩
      · exact .inl ⟨rfl, by simpa using hd⟩
    · rw [List.getElem?_set_ne hsa] at ha
      exact .inr ⟨o', ha, hd⟩
  refine ⟨?_, Store.view_congr rfl hget fun _ _ _ _ _ _ => rfl⟩
  exact
    { list_eq := h.list_eq
      valid := fun a ha => by simpa using h.valid a ha
      ptrs := by
        intro o' ho' d hd
        rcases List.mem_or_eq_of_mem_set ho' with ho' | rfl
        · exact h.ptrs o' ho' d hd
        · rcases List.mem_append.mp hd with hd | hd
          · exact h.ptrs o hmem d hd
          · simpa using (by simpa using hd : d = c) ▸ hc
      nodup := by
        intro o' ho'
        rcases List.mem_or_eq_of_mem_set ho' with ho' | rfl
        · exact h.nodup o' ho'
        · refine List.nodup_append.mpr ⟨h.nodup o hmem, by simp, ?_⟩
          intro d hd d' hd' heq
          obtain rfl : d' = c := by simpa using hd'
          exact hnew o hmem (heq ▸ hd)
      unshared := by
        intro a b o₁ o₂ d ha hb hd hd'
        rcases hold ha hd with ⟨rfl, rfl⟩ | ⟨o₁', ho₁', hd₁⟩
        · rcases hold hb hd' with ⟨rfl, -⟩ | ⟨o₂', ho₂', hd₂⟩
          · rfl
          · exact absurd hd₂ (hnew o₂' (List.mem_of_getElem? ho₂'))
        · rcases hold hb hd' with ⟨rfl, rfl⟩ | ⟨o₂', ho₂', hd₂⟩
          · exact absurd hd₁ (hnew o₁' (List.mem_of_getElem? ho₁'))
          · exact h.unshared ho₁' ho₂' hd₁ hd₂
      fresh := by
        intro d x hx hd
        exact h.fresh hx fun a ha o' ho' => hd a ha o' (by rw [hget a ha]; exact ho') }

/-- Registering a service that is not registered. -/
theorem StoreInv.register {st : Store σ} (h : StoreInv st) {a : ℕ} {o : ServiceObj σ}
    (ho : st.services[a]? = some o) (ioCb : GattsCb σ) (ha : a ∉ st.registered) :
    StoreInv (st.register a o ioCb true) := by
  have halen : a < st.services.length := (List.getElem?_eq_some_iff.mp ho).1
  have hmem : o ∈ st.services := List.mem_of_getElem? ho
  obtain ⟨o', hserv, hlist, -, hlen, hframe⟩ :=
    Store.register_spec ho ioCb (h.nodup o hmem) (h.ptrs o hmem)
  obtain ⟨hsl, hreg⟩ := Store.register_lists st a o ioCb
  -- registration changes no list of pointers
  have hold : ∀ {b : ℕ} {o₁ : ServiceObj σ}, (st.services.set a o')[b]? = some o₁ →
      ∃ o₂, st.services[b]? = some o₂ ∧ o₂.characterList = o₁.characterList := by
    intro b o₁ hb
    by_cases hab : a = b
    · subst hab
      rw [List.getElem?_set_self halen] at hb
      obtain rfl := Option.some.inj hb
      exact ⟨o, ho, hlist.symm⟩
    · rw [List.getElem?_set_ne hab] at hb
      exact ⟨o₁, hb, rfl⟩
  exact
    { list_eq := by rw [hsl, hreg, h.list_eq]
      valid := by
        intro b hb
        rw [hreg] at hb
        rw [hserv, List.length_set]
        rcases List.mem_append.mp hb with hb | hb
        · exact h.valid b hb
        · exact (by simpa using hb : b = a) ▸ halen
      ptrs := by
        intro o₁ ho₁ c hc
        rw [hserv] at ho₁
        rw [hlen]
        rcases List.mem_or_eq_of_mem_set ho₁ with ho₁ | rfl
        · exact h.ptrs o₁ ho₁ c hc
        · exact h.ptrs o hmem c (hlist ▸ hc)
      nodup := by
        intro o₁ ho₁
        rw [hserv] at ho₁
        rcases List.mem_or_eq_of_mem_set ho₁ with ho₁ | rfl
        · exact h.nodup o₁ ho₁
        · exact hlist ▸ h.nodup o hmem
      unshared := by
        intro b b' o₁ o₂ c hb hb' hc hc'
        rw [hserv] at hb hb'
        obtain ⟨o₁', ho₁', heq₁⟩ := hold hb
        obtain ⟨o₂', ho₂', heq₂⟩ := hold hb'
        exact h.unshared ho₁' ho₂' (heq₁ ▸ hc) (heq₂ ▸ hc')
      fresh := by
        intro c x hx hc
        rw [hserv, hreg] at hc
        have hco : c ∉ o.characterList := fun hco =>
          hc a (by simp) o' (List.getElem?_set_self halen) (hlist ▸ hco)
        rw [hframe c hco] at hx
        refine h.fresh hx ?_
        intro b hb o₁ ho₁
        have hne : a ≠ b := fun hab => ha (hab ▸ hb)
        exact hc b (by simp [hb]) o₁ (by rw [List.getElem?_set_ne hne]; exact ho₁) }

/-- **Every call that uses each object once keeps the invariant**, and it leaves the view
alone or registers a service whose characteristics are as they were created. -/
theorem StoreInv.step {st : Store σ} {call : Call σ} (h : StoreInv st)
    (honce : UsedOnce st call) :
    StoreInv (exec st call).1 ∧
      ((exec st call).1.view = st.view ∨
        ∃ a o ioCb allocated, call = .registerGattService (some a) (some ioCb) allocated ∧
          st.services[a]? = some o ∧
          (∀ c ∈ (st.value o).characterList, ∃ uuid prop, c = Gatt.createCharacter uuid prop) ∧
          (exec st call).1.view = registerGattService st.view (st.value o) ioCb) := by
  cases call with
  | createService uuid handleStart handleEnd allocated =>
      cases allocated with
      | false => exact ⟨h, .inl rfl⟩
      | true =>
          obtain ⟨hinv, hview⟩ := h.createService
            (o := ⟨handleStart, handleEnd, uuid, [], .idle, btAttDefaultLeMtu⟩) rfl
          exact ⟨hinv, .inl hview⟩
  | createCharacter uuid prop allocated =>
      cases allocated with
      | false => exact ⟨h, .inl rfl⟩
      | true =>
          obtain ⟨hinv, hview⟩ := h.createCharacter uuid prop
          exact ⟨hinv, .inl hview⟩
  | serviceAddCharacter service character allocated =>
      rcases service with _ | s
      · exact ⟨h, .inl rfl⟩
      rcases character with _ | c
      · exact ⟨h, .inl rfl⟩
      simp only [exec]
      split
      · rename_i o x ho hx
        cases allocated with
        | false => exact ⟨h, .inl rfl⟩
        | true =>
            obtain ⟨hinv, hview⟩ :=
              h.addCharacter ho (List.getElem?_eq_some_iff.mp hx).1 honce.1 honce.2
            exact ⟨hinv, .inl hview⟩
      · exact ⟨h, .inl rfl⟩
  | registerGattService service ioCb allocated =>
      rcases service with _ | a
      · exact ⟨h, .inl rfl⟩
      rcases ioCb with _ | ioCb
      · exact ⟨h, .inl rfl⟩
      obtain ⟨ha, rfl⟩ := honce
      cases ho : st.services[a]? with
      | none =>
          have hexec : exec st (.registerGattService (some a) (some ioCb) true) = (st, false) := by
            simp only [exec, ho]
          exact hexec ▸ ⟨h, .inl rfl⟩
      | some o =>
          simp only [exec, ho]
          exact ⟨h.register ho ioCb ha, .inr ⟨a, o, ioCb, true, rfl, ho, h.value_fresh ho ha,
            h.view_register ho ha ioCb⟩⟩

/-- The view of a run that uses each object once is a database that registration
builds. -/
theorem built_of_usedOnce {calls : List (Call σ)} {st : Store σ}
    (h : Runs execStep UsedOnce Store.empty calls st) : Built st.view := by
  have hinv : StoreInv st ∧ Built st.view := by
    refine h.invariant (P := fun st => StoreInv st ∧ Built st.view) ⟨storeInv_empty, .nil⟩ ?_
    rintro st call st' ⟨hinv, hbuilt⟩ honce hstep
    obtain rfl : (exec st call).1 = st' := Option.some.inj hstep
    obtain ⟨hinv', hview | ⟨a, o, ioCb, allocated, -, -, hfresh, hview⟩⟩ := hinv.step honce
    · exact ⟨hinv', hview ▸ hbuilt⟩
    · exact ⟨hinv', hview ▸ .register ioCb hbuilt hfresh⟩
  exact hinv.2

/-! ## The allocator along a run -/

/-- A registration always returns its interface, so it refuses what does not fit only
where there is nothing to refuse. -/
theorem refusesUnfit_iff (st : Store σ) {a : ℕ} (ha : a < st.services.length)
    (ioCb : GattsCb σ) (allocated : Bool) :
    RefusesUnfit st (.registerGattService (some a) (some ioCb) allocated) ↔ Fits st a := by
  constructor
  · intro h
    by_contra hfit
    have hnull := (h a ioCb allocated rfl ha hfit).1
    simp [exec, List.getElem?_eq_getElem ha] at hnull
  · intro hfit a' ioCb' allocated' hcall _ hunfit
    cases hcall
    exact absurd hfit hunfit

/-- The invariant of the allocator: the heap is in order, and the services in it are laid
out. -/
def StoreLaid (st : Store σ) : Prop := StoreInv st ∧ ∃ last, DbLaid 0 st.view last

/-- A call that meets the condition keeps the layout. -/
theorem StoreLaid.step {st : Store σ} {call : Call σ} (h : StoreLaid st)
    (hadm : Admissible st call) : StoreLaid (exec st call).1 := by
  obtain ⟨hinv, last, hlaid⟩ := h
  obtain ⟨honce, hfits⟩ := hadm
  obtain ⟨hinv', hview | ⟨a, o, ioCb, allocated, hcall, ho, hfresh, hview⟩⟩ := hinv.step honce
  · exact ⟨hinv', last, hview ▸ hlaid⟩
  · obtain ⟨o', ho', hfit⟩ := hfits a ioCb allocated hcall
    obtain rfl : o = o' := Option.some.inj (ho.symm.trans ho')
    rw [hinv.lastHandle_eq, hlaid.lastHandleValue_eq] at hfit
    have hrpt : ∀ c ∈ (st.value o).characterList, c.rptRefHandle = 0 := by
      intro c hc
      obtain ⟨uuid, prop, rfl⟩ := hfresh c hc
      rfl
    exact ⟨hinv', _, hview ▸ hlaid.registerGattService ioCb hrpt hfit⟩

/-- **Handle allocation.** In every state of a run whose calls all meet the condition the
handles are in order, and a registration keeps to the rule on what does not fit exactly
when it fits. -/
theorem handle_allocation {calls : List (Call σ)} {st : Store σ}
    (h : Runs execStep Admissible Store.empty calls st) :
    HandlesOk st.view ∧ ∀ a ioCb allocated, a < st.services.length →
      (RefusesUnfit st (.registerGattService (some a) (some ioCb) allocated) ↔ Fits st a) := by
  have hlaid : StoreLaid st := by
    refine h.invariant ⟨storeInv_empty, 0, .nil⟩ ?_
    intro st call st' hst hadm hstep
    obtain rfl : (exec st call).1 = st' := Option.some.inj hstep
    exact hst.step hadm
  obtain ⟨-, last, hdb⟩ := hlaid
  exact ⟨hdb.handlesOk, fun a ioCb allocated ha => refusesUnfit_iff st ha ioCb allocated⟩

/-- A run that builds and registers a battery service meets the condition. -/
theorem handle_allocation_battery :
    ∃ (calls : List (Call Unit)) (st : Store Unit),
      Runs execStep Admissible Store.empty calls st ∧ st.registered = [0] ∧
        HandlesOk st.view := by
  let service : ServiceObj Unit := ⟨0, 0, .u16 0x180F, [], .idle, btAttDefaultLeMtu⟩
  let level : GattCharacter := createCharacter (.u16 0x2A19) 0x12
  have h₁ : Runs execStep Admissible Store.empty
      [.createService (.u16 0x180F) 0 0 true] ⟨[], [service], [], []⟩ :=
    .snoc .refl ⟨trivial, nofun⟩ rfl
  have h₂ : Runs execStep Admissible Store.empty _ ⟨[level], [service], [], []⟩ :=
    .snoc (a := Call.createCharacter (.u16 0x2A19) 0x12 true) h₁ ⟨trivial, nofun⟩ rfl
  have hadd : Admissible ⟨[level], [service], [], []⟩
      (.serviceAddCharacter (some 0) (some 0) true) := by
    refine ⟨⟨List.not_mem_nil, ?_⟩, nofun⟩
    intro o ho
    obtain rfl : o = service := by simpa using ho
    exact List.not_mem_nil
  have hregister : Admissible ⟨[level], [{ service with characterList := [0] }], [], []⟩
      (.registerGattService (some 0) (some .idle) true) := by
    refine ⟨⟨List.not_mem_nil, rfl⟩, ?_⟩
    intro a ioCb allocated hcall
    obtain rfl : 0 = a := by simpa using (Call.registerGattService.inj hcall).1
    exact ⟨_, rfl, by decide⟩
  have h₄ := Runs.snoc (.snoc h₂ hadd rfl) hregister rfl
  exact ⟨_, _, h₄, rfl, (handle_allocation h₄).1⟩

/-! ## A full handle space -/

/-- The calls that create and register `n` services without characteristics. -/
def emptyServiceCalls : ℕ → List (Call Unit)
  | 0 => []
  | n + 1 => emptyServiceCalls n ++ [.createService (.u16 0x180F) 0 0 true] ++
      [.registerGattService (some n) (some .idle) true]

/-- A service without characteristics at the handle `h`. -/
def emptyServiceObj (h : UInt16) : ServiceObj Unit :=
  ⟨h, h, .u16 0x180F, [], .idle, btAttDefaultLeMtu⟩

/-- The heap they lead to: the service at `i` has the one handle `i + 1`. -/
def emptyServiceStore (n : ℕ) : Store Unit where
  characters := []
  services := (List.range n).map fun i => emptyServiceObj (UInt16.ofNat (i + 1))
  serviceList := List.range n
  registered := List.range n

/-- The heap with one more service created and not yet registered. -/
def Store.withNew (st : Store Unit) : Store Unit :=
  (exec st (.createService (.u16 0x180F) 0 0 true)).1

theorem lastHandle_emptyServiceStore (n : ℕ) :
    (emptyServiceStore n).withNew.lastHandle = UInt16.ofNat n := by
  cases n with
  | zero => rfl
  | succ n =>
      simp [Store.lastHandle, Store.withNew, exec, emptyServiceStore, List.range_succ,
        emptyServiceObj]

/-- The new service is at the end of the heap. -/
theorem getElem?_emptyServiceStore (n : ℕ) :
    (emptyServiceStore n).withNew.services[n]? = some (emptyServiceObj 0) := by
  simp [Store.withNew, exec, emptyServiceStore, emptyServiceObj]

theorem execStep_emptyServiceStore {n : ℕ} (hn : n < 0xFFFF) :
    execStep (emptyServiceStore n).withNew (.registerGattService (some n) (some .idle) true) =
      some (emptyServiceStore (n + 1)) := by
  have hlast : ¬ UInt16.ofNat n ≥ 0xFFFF := by
    rw [ge_iff_le, UInt16.le_iff_toNat_le, UInt16.toNat_ofNat']
    simp
    omega
  rw [execStep, exec, getElem?_emptyServiceStore]
  simp only [Store.register, Store.initHandles, lastHandle_emptyServiceStore, hlast, if_false,
    emptyServiceObj, initCharacterPtrs]
  simp [Store.withNew, exec, emptyServiceStore, List.range_succ, emptyServiceObj]

theorem runs_emptyServiceCalls {n : ℕ} (hn : n ≤ 0xFFFF) :
    Runs execStep UsedOnce Store.empty (emptyServiceCalls n) (emptyServiceStore n) := by
  induction n with
  | zero => exact .refl
  | succ n ih =>
      have hnew : n ∉ (emptyServiceStore n).withNew.registered := by
        simp [Store.withNew, exec, emptyServiceStore]
      exact .snoc (.snoc (ih (by omega)) trivial rfl) ⟨hnew, rfl⟩
        (execStep_emptyServiceStore (by omega))

/-- With all handles taken one more service is registered, and has none of its own. -/
theorem register_without_handle_accepted :
    ∃ calls st, Runs execStep UsedOnce (Store.empty : Store Unit) calls st ∧
      ¬ RefusesUnfit st (.registerGattService (some 0xFFFF) (some .idle) true) := by
  refine ⟨emptyServiceCalls 0xFFFF ++ [.createService (.u16 0x180F) 0 0 true],
    (emptyServiceStore 0xFFFF).withNew, ?_, ?_⟩
  · exact .snoc (runs_emptyServiceCalls le_rfl) trivial rfl
  have hget := getElem?_emptyServiceStore 0xFFFF
  rw [refusesUnfit_iff _ (List.getElem?_eq_some_iff.mp hget).1]
  rintro ⟨o, -, hfit⟩
  rw [lastHandle_emptyServiceStore] at hfit
  simp at hfit
  omega

end CCode.Gatt
