import CCode.Gatt.Routing

/-!
# Which callback a request reaches

A read, a blob read or a write names an attribute by its handle. The lookup goes by the
range of a service first and by four equalities on its characteristics then, one of them
the declaration's handle; that it ends at one characteristic only follows from the way the
handles were laid out.

`attribute_dispatch` is for every database that was built without a wrap, every state of
the services and every PDU that holds at least a handle.

## Main definitions

* `invoked` — the callbacks among the events, with the services they belong to.
* `Owner` — the service and the characteristic that a handle belongs to.
-/

namespace CCode.Gatt

open CCode.Lib

variable {σ : Type}

/-- The callbacks run, each with its service. -/
def invoked : List (Event σ) → List (GattService σ × Callback)
  | [] => []
  | .send _ _ :: es => invoked es
  | .call s callback :: es => (s, callback) :: invoked es

@[simp] theorem invoked_nil : invoked ([] : List (Event σ)) = [] := rfl
@[simp] theorem invoked_call (s : GattService σ) (callback : Callback) (es : List (Event σ)) :
    invoked (.call s callback :: es) = (s, callback) :: invoked es := rfl

@[simp] theorem invoked_append (es fs : List (Event σ)) :
    invoked (es ++ fs) = invoked es ++ invoked fs := by
  induction es with
  | nil => rfl
  | cons e es ih => cases e <;> simp [invoked, ih]

@[simp] theorem invoked_gattSend (addr : BdAddr) (opcode : UInt16) (rsp : List UInt8) :
    invoked (gattSend addr opcode rsp : List (Event σ)) = [] := by
  rw [gattSend]
  induction attSend opcode rsp with
  | nil => rfl
  | cons p ps ih => exact ih

@[simp] theorem invoked_sendAttError (addr : BdAddr) (opcode handle : UInt16) (errCode : UInt8) :
    invoked (sendAttError addr opcode handle errCode : List (Event σ)) = [] :=
  invoked_gattSend addr _ _

/-- The UUID that a callback is given. -/
def Callback.uuid : Callback → Option BtUuid
  | .characterRead uuid => some uuid
  | .characterReadBlob uuid _ => some uuid
  | .characterWrite uuid _ => some uuid
  | .descriptorRead uuid => some uuid
  | .descriptorWrite uuid _ => some uuid
  | .mtuChanged _ => none

/-- The handle names the value or a descriptor of the characteristic of the service. -/
structure Owner (ss : List (GattService σ)) (handle : UInt16) (s : GattService σ)
    (c : GattCharacter) : Prop where
  service : s ∈ ss
  character : c ∈ s.characterList
  owns : c.Owns handle

/-! ## The callbacks of one access -/

section Access

variable (g : GattServices σ) (addr : BdAddr) {opcode : UInt8} (pdu : Mem) (length : UInt16)
  (s : GattService σ) (c : GattCharacter) (l : Locals)

/-- Only a blob read may find that the service has no callback for it. -/
theorem invoked_accessCharacter (hop : opcode ∈ handleRequests) :
    (opcode = btAttOpReadBlobReq ∧
      invoked (accessCharacter g addr opcode pdu length s c).2 = []) ∨
    ∃ callback, invoked (accessCharacter g addr opcode pdu length s c).2 = [(s, callback)] ∧
      callback.uuid = some c.uuid := by
  simp only [handleRequests, List.mem_cons, List.not_mem_nil, or_false] at hop
  rcases hop with rfl | rfl | rfl
  · right
    refine ⟨.characterRead c.uuid, ?_, rfl⟩
    simp [accessCharacter, show ¬ btAttOpReadReq = btAttOpWriteReq by decide]
  · simp only [accessCharacter, show ¬ btAttOpReadBlobReq = btAttOpWriteReq by decide,
      show ¬ btAttOpReadBlobReq = btAttOpReadReq by decide, if_false, if_true]
    split
    · exact .inr ⟨.characterReadBlob c.uuid (pdu.u16 2), by simp, rfl⟩
    · exact .inl ⟨trivial, by simp⟩
  · right
    exact ⟨.characterWrite c.uuid (pdu.read 2 (length - 2).toNat), by simp [accessCharacter], rfl⟩

/-- A write of a value hands over what follows the handle. -/
theorem invoked_accessCharacter_write :
    invoked (accessCharacter g addr btAttOpWriteReq pdu length s c).2 =
      [(s, .characterWrite c.uuid (pdu.read 2 (length - 2).toNat))] := by
  simp [accessCharacter]

/-- A blob read of a descriptor falls through. -/
theorem invoked_accessDescConf (hop : opcode ∈ handleRequests) :
    (opcode = btAttOpReadBlobReq ∧ invoked (accessDescConf g addr opcode pdu s c l).2 = []) ∨
    ∃ callback, invoked (accessDescConf g addr opcode pdu s c l).2 = [(s, callback)] ∧
      callback.uuid = some c.uuid := by
  simp only [handleRequests, List.mem_cons, List.not_mem_nil, or_false] at hop
  rcases hop with rfl | rfl | rfl
  · right
    refine ⟨.descriptorRead c.uuid, ?_, rfl⟩
    simp [accessDescConf, show ¬ btAttOpReadReq = btAttOpWriteReq by decide]
  · exact .inl ⟨rfl, rfl⟩
  · right
    exact ⟨.descriptorWrite c.uuid (pdu.u16 2), by simp [accessDescConf], rfl⟩

end Access

/-- **What an access to a handle invokes**: nothing where the lookup fails, and otherwise
one callback of the service found, with the UUID of the characteristic found; a blob read
may end without one. -/
theorem invoked_accessHandle (g : GattServices σ) (addr : BdAddr) {opcode : UInt8} (pdu : Mem)
    (length : UInt16) (l : Locals) (hop : opcode ∈ handleRequests) :
    match getHandleInfo g.serviceList (pdu.u16 0) with
    | none => invoked (accessHandle g addr opcode pdu length l).2 = []
    | some (s, c, _) =>
        (opcode = btAttOpReadBlobReq ∧ invoked (accessHandle g addr opcode pdu length l).2 = []) ∨
        ∃ callback, invoked (accessHandle g addr opcode pdu length l).2 = [(s, callback)] ∧
          callback.uuid = some c.uuid := by
  cases hinfo : getHandleInfo g.serviceList (pdu.u16 0) with
  | none => simp [accessHandle, hinfo]
  | some info =>
      obtain ⟨s, c, t⟩ := info
      cases t with
      | character =>
          simp only [accessHandle, hinfo]
          exact invoked_accessCharacter g addr pdu length s c hop
      | descConf =>
          simp only [accessHandle, hinfo]
          exact invoked_accessDescConf g addr pdu s c l hop

/-! ## The owner of a handle -/

section Owner

variable {ss : List (GattService σ)} {last : ℕ} {handle : UInt16} {s s' : GattService σ}
  {c c' : GattCharacter}

/-- What the lookup finds owns the handle. -/
theorem owner_of_getHandleInfo {t : HandleType} (h : getHandleInfo ss handle = some (s, c, t)) :
    Owner ss handle s c := by
  obtain ⟨hs, hc⟩ := mem_of_getHandleInfo h
  refine ⟨hs, hc, ?_⟩
  rw [getHandleInfo] at h
  split_ifs at h with hrange
  push Not at hrange
  refine ⟨hrange.1, ?_⟩
  split at h
  · simp at h
  · split at h
    · simp at h
    · split_ifs at h with hvalue hdesc hrpt
      all_goals
        simp only [Option.some.injEq, Prod.mk.injEq] at h
        obtain ⟨-, rfl, -⟩ := h
      · exact .inl hvalue
      · exact .inr (.inl hdesc)
      · exact .inr (.inr hrpt)

/-- No two characteristics own a handle. -/
theorem Owner.unique (hlaid : DbLaid 0 ss last) (hlast : last ≤ 0xFFFE) (h : Owner ss handle s c)
    (h' : Owner ss handle s' c') : s' = s ∧ c' = c := by
  have hinfo := hlaid.getHandleInfo_owned hlast h.service h.character h.owns
  rw [hlaid.getHandleInfo_owned hlast h'.service h'.character h'.owns] at hinfo
  simp only [Option.some.injEq, Prod.mk.injEq] at hinfo
  exact ⟨hinfo.1, hinfo.2.1⟩

end Owner

/-- The two parts of a PDU that begins with a handle. -/
theorem pdu_of_read {pdu : Mem} {length : UInt16} {handle : UInt16} {rest : List UInt8}
    (h : pdu.read 0 length.toNat = le16 handle ++ rest) :
    pdu.u16 0 = handle ∧ pdu.read 2 (length - 2).toNat = rest := by
  have hlen : length.toNat = 2 + rest.length := by
    simpa [Nat.add_comm] using congrArg List.length h
  have hsub : (length - 2).toNat = rest.length := by
    rw [UInt16.toNat_sub_of_le _ _ (UInt16.le_iff_toNat_le.mpr (by simp; omega)), hlen]
    simp
  rw [hlen, Mem.read_add] at h
  obtain ⟨hhead, hrest⟩ := List.append_inj h (by simp)
  refine ⟨?_, by rw [hsub]; exact hrest⟩
  simp only [Mem.read, List.range, List.range.loop, List.map_cons, List.map_nil, le16,
    List.cons.injEq, and_true] at hhead
  rw [Mem.u16, ← ofLe16_bytes handle, ← hhead.1, ← hhead.2]

/-- **Attribute dispatch.** On a database that was built without a wrap a callback runs
only for the handle of a value or of a descriptor; it is one of the one service that owns
the handle and it is given the UUID of the one characteristic. A read and a write of such
a handle run exactly one callback, and a write of a value hands over exactly the bytes
behind the handle. -/
theorem attribute_dispatch {g : GattServices σ} (hbuilt : Built g.serviceList)
    (hno : NoWrap g.serviceList) (l : Locals) (addr : BdAddr) {opcode : UInt8}
    (hop : opcode ∈ handleRequests) {pdu : Mem} {length : UInt16} {handle : UInt16}
    {rest : List UInt8} (hpdu : pdu.read 0 length.toNat = le16 handle ++ rest) :
    (∀ s callback, (s, callback) ∈ invoked (onReceive g l addr opcode pdu length).2 →
      ∃ c, Owner g.serviceList handle s c ∧ callback.uuid = some c.uuid ∧
        ∀ s' c', Owner g.serviceList handle s' c' → s' = s ∧ c' = c) ∧
    (opcode ≠ btAttOpReadBlobReq → ∀ s c, Owner g.serviceList handle s c →
      ∃ callback, invoked (onReceive g l addr opcode pdu length).2 = [(s, callback)] ∧
        callback.uuid = some c.uuid) ∧
    (opcode = btAttOpWriteReq → ∀ s c, Owner g.serviceList handle s c → handle = c.valueHandle →
      invoked (onReceive g l addr opcode pdu length).2 = [(s, .characterWrite c.uuid rest)]) := by
  obtain ⟨last, hlaid, hlast⟩ := dbLaid_of_built hbuilt hno
  obtain ⟨hhandle, hrest⟩ := pdu_of_read hpdu
  rw [onReceive_handle g l addr pdu length hop]
  have hcalls := invoked_accessHandle g addr pdu length l hop
  rw [hhandle] at hcalls
  refine ⟨?_, ?_, ?_⟩
  · intro s callback hmem
    cases hinfo : getHandleInfo g.serviceList handle with
    | none =>
        rw [hinfo] at hcalls
        simp [hcalls] at hmem
    | some info =>
        obtain ⟨s₁, c, t⟩ := info
        rw [hinfo] at hcalls
        rcases hcalls with ⟨-, hnone⟩ | ⟨callback₁, hone, huuid⟩
        · simp [hnone] at hmem
        · rw [hone, List.mem_singleton, Prod.mk.injEq] at hmem
          obtain ⟨rfl, rfl⟩ := hmem
          have hown := owner_of_getHandleInfo hinfo
          exact ⟨c, hown, huuid, fun s' c' hown' => hown.unique hlaid hlast hown'⟩
  · intro hblob s c hown
    rw [hlaid.getHandleInfo_owned hlast hown.service hown.character hown.owns] at hcalls
    exact hcalls.resolve_left fun hboth => hblob hboth.1
  · intro hwrite s c hown hvalue
    subst hwrite
    have hinfo := hlaid.getHandleInfo_owned hlast hown.service hown.character hown.owns
    rw [if_pos hvalue, ← hhandle] at hinfo
    simp only [accessHandle, hinfo]
    rw [invoked_accessCharacter_write, hrest]

/-- Three bytes written to the battery level. -/
def batteryWrite : Mem := Mem.write (fun _ => 0) 0 (le16 3 ++ [7, 8, 9])

theorem attribute_dispatch_battery :
    Owner batterySession.server.serviceList 3 batteryServices[0]
        batteryServices[0].characterList[0] ∧
      invoked (onReceive batterySession.server (batterySession.locals 0)
          ⟨#v[1, 2, 3, 4, 5, 6]⟩ btAttOpWriteReq batteryWrite 5).2 =
        [(batteryServices[0], .characterWrite (.u16 0x2A19) [7, 8, 9])] := by
  have hown : Owner batterySession.server.serviceList 3 batteryServices[0]
      batteryServices[0].characterList[0] :=
    ⟨List.mem_cons_self, List.mem_cons_self, by decide, .inl (by decide)⟩
  refine ⟨hown, ?_⟩
  exact (attribute_dispatch built_batteryServices noWrap_batteryServices _ _ (by decide)
    (by decide : batteryWrite.read 0 (5 : UInt16).toNat = le16 3 ++ [7, 8, 9])).2.2 rfl _ _ hown
    (by decide)

end CCode.Gatt
