import CCode.Lib.Cursor
import CCode.Gatt.Layout
import CCode.Gatt.Server

/-!
# Service and characteristic discovery

A client learns the layout of a server by asking for the first service, or the first
characteristic, in a range of handles, and asking again behind what it got. Each question
is a PDU that goes through `receive`; what the server's stack holds, and what lies behind
the PDU in memory, is anything.

On a database that registration built without a wrap of the handles both loops find
everything, once and in order, and end with Attribute Not Found.

## Main definitions

* `Session`, `request` — a server that is sent one request after the other.
* `askService`, `discoverServices` — the loop over Read By Group Type.
* `askCharacteristic`, `discoverCharacteristics` — the loop over Read By Type.
-/

namespace CCode.Gatt

open CCode.Lib

variable {σ : Type}

/-! ## The client's side -/

/-- A server, and for each request still to come the uninitialised variables of its
handler and the memory that the PDU is received into. -/
structure Session (σ : Type) where
  server : GattServices σ
  locals : ℕ → Locals
  buffer : ℕ → Mem

/-- Deliver a request to the server and collect the PDUs it sends. -/
def request (x : Session σ) (addr : BdAddr) (opcode : UInt8) (params : List UInt8) :
    Session σ × List (BdAddr × Pdu) :=
  let (server, es) := receive x.server (x.locals 0) addr opcode
    ((x.buffer 0).write 0 params) (UInt32.ofNat params.length)
  ({ server, locals := fun n => x.locals (n + 1), buffer := fun n => x.buffer (n + 1) },
    sentPdus es)

/-- How a discovery loop ends: on an Error Response with its code, or on anything else
that is not the expected response. -/
inductive Stop
  | error (code : UInt8)
  | unexpected
  deriving DecidableEq

/-- What the client makes of the PDUs it gets: the decoded parameters of the one response
it waits for, or the reason to stop. -/
def decodeReply {α : Type} (addr : BdAddr) (rsp : UInt8) (decode : List UInt8 → Option α) :
    List (BdAddr × Pdu) → α ⊕ Stop
  | [(peer, p)] =>
      if peer ≠ addr then .inr .unexpected
      else if p.opcode = rsp then
        match decode p.params with
        | some a => .inl a
        | none => .inr .unexpected
      else if p.opcode = btAttOpErrorRsp then
        match p.params with
        | [_, _, _, code] => .inr (.error code)
        | _ => .inr .unexpected
      else .inr .unexpected
  | _ => .inr .unexpected

/-- The handle range in a Read By Group Type response. -/
def decodeServiceRange : List UInt8 → Option (UInt16 × UInt16)
  | _ :: s₀ :: s₁ :: e₀ :: e₁ :: _ => some (ofLe16 s₀ s₁, ofLe16 e₀ e₁)
  | _ => none

/-- The declaration handle, the properties and the value handle in a Read By Type
response. -/
def decodeDeclaration : List UInt8 → Option (UInt16 × UInt8 × UInt16)
  | _ :: t₀ :: t₁ :: prop :: v₀ :: v₁ :: _ => some (ofLe16 t₀ t₁, prop, ofLe16 v₀ v₁)
  | _ => none

/-- The parameters of a request for the attributes of a 16-bit type in a range. -/
def rangeParams (start last type : UInt16) : List UInt8 := le16 start ++ le16 last ++ le16 type

/-- Read By Group Type for primary services from a handle to the end. -/
def askService (addr : BdAddr) (x : Session σ) (start : UInt16) :
    Session σ × ((UInt16 × UInt16) ⊕ Stop) :=
  let (x', sent) := request x addr btAttOpReadByGrpTypeReq (rangeParams start 0xFFFF 0x2800)
  (x', decodeReply addr btAttOpReadByGrpTypeRsp decodeServiceRange sent)

/-- Primary service discovery: go on behind the end of each service. -/
def discoverServices (addr : BdAddr) (fuel : ℕ) (x : Session σ) :
    List (UInt16 × UInt16) × Option Stop :=
  enumerate (askService addr) (fun range => range.2 + 1) fuel x 1

/-- Read By Type for characteristic declarations from a handle to `last`. -/
def askCharacteristic (addr : BdAddr) (last : UInt16) (x : Session σ) (start : UInt16) :
    Session σ × ((UInt16 × UInt8 × UInt16) ⊕ Stop) :=
  let (x', sent) := request x addr btAttOpReadByTypeReq (rangeParams start last 0x2803)
  (x', decodeReply addr btAttOpReadByTypeRsp decodeDeclaration sent)

/-- Characteristic discovery in a range: go on behind each declaration. -/
def discoverCharacteristics (addr : BdAddr) (start last : UInt16) (fuel : ℕ) (x : Session σ) :
    List (UInt16 × UInt8 × UInt16) × Option Stop :=
  enumerate (askCharacteristic addr last) (fun decl => decl.1 + 1) fuel x start

/-! ## One question -/

theorem u16_rangeParams (m : Mem) (start last type : UInt16) :
    (m.write 0 (rangeParams start last type)).u16 0 = start ∧
      (m.write 0 (rangeParams start last type)).u16 2 = last ∧
      (m.write 0 (rangeParams start last type)).u16 4 = type := by
  simp [Mem.u16, Mem.write, rangeParams, le16]

theorem requestUuid_rangeParams (m : Mem) (start last type : UInt16) (l : Locals) :
    requestUuid (m.write 0 (rangeParams start last type)) 6 l = .u16 type := by
  simp [requestUuid, (u16_rangeParams m start last type).2.2]

/-- A request for the attributes of a 16-bit type in a range reaches its handler with that
range and type, and changes no state. -/
theorem request_rangeParams (x : Session σ) (addr : BdAddr) (start last type : UInt16)
    (opcode : UInt8)
    (rsp : List (GattService σ) → BdAddr → HandleRange → BtUuid → Locals → List (Event σ))
    (hrsp : ∀ g l pdu len, receive g l addr opcode pdu len =
      (g, rsp g.serviceList addr ⟨pdu.u16 0, pdu.u16 2⟩ (requestUuid pdu len.toUInt16 l) l)) :
    (request x addr opcode (rangeParams start last type)).1.server = x.server ∧
      (request x addr opcode (rangeParams start last type)).2 =
        sentPdus (rsp x.server.serviceList addr ⟨start, last⟩ (.u16 type) (x.locals 0)) := by
  obtain ⟨hstart, hlast, -⟩ := u16_rangeParams (x.buffer 0) start last type
  have hlen : (UInt32.ofNat (rangeParams start last type).length).toUInt16 = 6 := rfl
  simp only [request, hrsp, hstart, hlast, hlen, requestUuid_rangeParams, and_self]

/-- The reply to a request for primary services: the entry of the first service inside the
range, or Attribute Not Found. -/
theorem request_readByGrpType (x : Session σ) (addr : BdAddr) (start last : UInt16) :
    (request x addr btAttOpReadByGrpTypeReq (rangeParams start last 0x2800)).1.server =
        x.server ∧
      (request x addr btAttOpReadByGrpTypeReq (rangeParams start last 0x2800)).2 =
        match x.server.serviceList.find? (findGattServiceByHandleRangeCb ⟨start, last⟩) with
        | some s => [(addr, ⟨btAttOpReadByGrpTypeRsp, readByGrpTypeEntry s⟩)]
        | none => [(addr, ⟨btAttOpErrorRsp, [btAttOpReadByGrpTypeReq] ++ le16 start ++
            [btAttErrorAttributeNotFound]⟩)] := by
  obtain ⟨hserver, hsent⟩ := request_rangeParams x addr start last 0x2800
    btAttOpReadByGrpTypeReq readByGrpTypeRsp fun _ _ _ _ => rfl
  refine ⟨hserver, ?_⟩
  have huuid : btUuidCmpStr (.u16 0x2800) gattPrimSvcUuidStr (x.locals 0).residue = 0 := by
    rw [btUuidCmpStr, btStringToUuid_gattPrimSvcUuidStr, Option.getD_some]
    decide
  simp only [hsent, readByGrpTypeRsp, huuid, if_true]
  cases x.server.serviceList.find? (findGattServiceByHandleRangeCb ⟨start, last⟩) with
  | none => exact sentPdus_sendAttError addr _ _ _
  | some s => exact sentPdus_gattSend addr _ (by decide)

/-- The reply to a request for characteristic declarations: the entry of the first one in
the first service that has one in the range, or Attribute Not Found. -/
theorem request_readByType (x : Session σ) (addr : BdAddr) (start last : UInt16) :
    (request x addr btAttOpReadByTypeReq (rangeParams start last 0x2803)).1.server =
        x.server ∧
      (request x addr btAttOpReadByTypeReq (rangeParams start last 0x2803)).2 =
        match findCharacteristic x.server.serviceList ⟨start, last⟩ with
        | some (s, c) => [(addr, ⟨btAttOpReadByTypeRsp, readByTypeEntry s c⟩)]
        | none => [(addr, ⟨btAttOpErrorRsp, [btAttOpReadByTypeReq] ++ le16 start ++
            [btAttErrorAttributeNotFound]⟩)] := by
  obtain ⟨hserver, hsent⟩ := request_rangeParams x addr start last 0x2803
    btAttOpReadByTypeReq readByTypeRsp fun _ _ _ _ => rfl
  refine ⟨hserver, ?_⟩
  have huuid : btUuidCmpStr (.u16 0x2803) gattCharacUuidStr (x.locals 0).residue = 0 := by
    rw [btUuidCmpStr, btStringToUuid_gattCharacUuidStr, Option.getD_some]
    decide
  simp only [hsent, readByTypeRsp, huuid, if_true]
  rcases findCharacteristic x.server.serviceList ⟨start, last⟩ with _ | ⟨s, c⟩
  · exact sentPdus_sendAttError addr _ _ _
  · exact sentPdus_gattSend addr _ (by decide)

/-- The answer to a question for a service. -/
theorem askService_eq (addr : BdAddr) (x : Session σ) (start : UInt16) :
    (askService addr x start).1.server = x.server ∧
      (askService addr x start).2 =
        (match x.server.serviceList.find? (findGattServiceByHandleRangeCb ⟨start, 0xFFFF⟩) with
        | some s => .inl (s.handleStart, s.handleEnd)
        | none => .inr (.error btAttErrorAttributeNotFound)) := by
  obtain ⟨hserver, hsent⟩ := request_readByGrpType x addr start 0xFFFF
  refine ⟨hserver, ?_⟩
  simp only [askService, hsent]
  cases x.server.serviceList.find? (findGattServiceByHandleRangeCb ⟨start, 0xFFFF⟩) with
  | none =>
      have hne : ¬ btAttOpErrorRsp = btAttOpReadByGrpTypeRsp := by decide
      simp [decodeReply, hne, le16]
  | some s => simp [decodeReply, readByGrpTypeEntry, le16, decodeServiceRange]

/-- The answer to a question for a characteristic. -/
theorem askCharacteristic_eq (addr : BdAddr) (last : UInt16) (x : Session σ) (start : UInt16) :
    (askCharacteristic addr last x start).1.server = x.server ∧
      (askCharacteristic addr last x start).2 =
        (match findCharacteristic x.server.serviceList ⟨start, last⟩ with
        | some (_, c) => .inl (c.typeHandle, c.prop.toUInt8, c.valueHandle)
        | none => .inr (.error btAttErrorAttributeNotFound)) := by
  obtain ⟨hserver, hsent⟩ := request_readByType x addr start last
  refine ⟨hserver, ?_⟩
  simp only [askCharacteristic, hsent]
  rcases findCharacteristic x.server.serviceList ⟨start, last⟩ with _ | ⟨s, c⟩
  · have hne : ¬ btAttOpErrorRsp = btAttOpReadByTypeRsp := by decide
    simp [decodeReply, hne, le16]
  · simp [decodeReply, readByTypeEntry, le16, decodeDeclaration]

/-! ## Services -/

/-- Behind the services `pre` the first one in the range to the end is the next one. -/
theorem find?_service_of_laid {pre ss : List (GattService σ)} {last last' : ℕ}
    (hpre : DbLaid 0 pre last) (hss : DbLaid last ss last') {start : UInt16}
    (hstart : start.toNat = last + 1) :
    (pre ++ ss).find? (findGattServiceByHandleRangeCb ⟨start, 0xFFFF⟩) = ss.head? := by
  have hbefore : pre.find? (findGattServiceByHandleRangeCb ⟨start, 0xFFFF⟩) = none := by
    rw [List.find?_eq_none]
    intro s hs
    have := hpre.range hs
    simp only [findGattServiceByHandleRangeCb, ge_iff_le, UInt16.le_iff_toNat_le,
      decide_eq_true_eq]
    omega
  rw [List.find?_append, hbefore, Option.none_or]
  cases hss with
  | nil => rfl
  | @cons _ _ s ss hs _ =>
      have hmatch : findGattServiceByHandleRangeCb ⟨start, 0xFFFF⟩ s = true := by
        have := hs.start
        have := s.handleEnd.toNat_lt
        simp only [findGattServiceByHandleRangeCb, ge_iff_le, UInt16.le_iff_toNat_le,
          UInt16.reduceToNat, decide_eq_true_eq]
        omega
      rw [List.find?_cons_of_pos hmatch]
      rfl

/-- Behind the services `pre` the loop finds the others in their order. -/
theorem yields_services (addr : BdAddr) {pre ss : List (GattService σ)} {last last' : ℕ}
    (hpre : DbLaid 0 pre last) (hss : DbLaid last ss last') (hle : last' ≤ 0xFFFE)
    (start : UInt16) (hstart : start.toNat = last + 1) :
    Yields (askService addr) (fun range => range.2 + 1)
      (fun x : Session σ => x.server.serviceList = pre ++ ss)
      (.error btAttErrorAttributeNotFound) start
      (ss.map fun s => (s.handleStart, s.handleEnd)) := by
  have hfind := find?_service_of_laid hpre hss hstart
  induction ss generalizing pre last start with
  | nil =>
      refine .done ?_
      intro x hx
      rw [(askService_eq addr x start).2, hx, hfind]
      rfl
  | cons s ss ih =>
      refine .item ?_ ?_
      · intro x hx
        obtain ⟨hserver, hans⟩ := askService_eq addr x start
        rw [hans, hserver, hx, hfind]
        exact ⟨rfl, rfl⟩
      · obtain ⟨hs, hss⟩ : ServiceLaid last s ∧ DbLaid s.handleEnd.toNat ss last' := by
          cases hss with
          | cons hs hss => exact ⟨hs, hss⟩
        have hpre' : DbLaid 0 (pre ++ [s]) s.handleEnd.toNat := hpre.append (.cons hs .nil)
        have hnext : (s.handleEnd + 1).toNat = s.handleEnd.toNat + 1 := by
          have := hss.le
          rw [UInt16.toNat_add]
          simp
          omega
        have htail := ih hpre' hss (s.handleEnd + 1) hnext (find?_service_of_laid hpre' hss hnext)
        rwa [List.append_assoc] at htail

/-- **Primary service discovery is complete and exact.** On a database that was built
without a wrap the loop returns the range of every service once, in the order of
registration, and ends with Attribute Not Found. -/
theorem discoverServices_eq (addr : BdAddr) (x : Session σ) {ss : List (GattService σ)}
    (hx : x.server.serviceList = ss) (hbuilt : Built ss) (hno : NoWrap ss) {fuel : ℕ}
    (hfuel : ss.length < fuel) :
    discoverServices addr fuel x =
      (ss.map fun s => (s.handleStart, s.handleEnd),
        some (.error btAttErrorAttributeNotFound)) := by
  obtain ⟨last, hlaid, hle⟩ := dbLaid_of_built hbuilt hno
  have hyields := yields_services addr .nil hlaid hle 1 rfl
  exact enumerate_eq hyields hx (by simpa using hfuel)

/-- The battery service on the handles 1 to 4, and behind it a service without
characteristics on the handle 5. -/
def batteryServices : List (GattService Unit) :=
  registerGattService
    (registerGattService []
      { (createService (.u16 0x180F) 0 0) with
          characterList := [createCharacter (.u16 0x2A19) 0x12] } .idle)
    (createService (.u16 0x1801) 0 0) .idle

/-- A client in front of it. -/
def batterySession : Session Unit where
  server := { serviceList := batteryServices, rspPdu := fun _ => 0, rspLen := 0, world := () }
  locals := fun _ => ⟨.u16 0, Vector.replicate 16 0, 0⟩
  buffer := fun _ _ => 0

theorem built_batteryServices : Built batteryServices := by
  refine .register _ (.register _ .nil ?_) ?_
  · intro c hc
    exact ⟨_, _, by simpa using hc⟩
  · intro c hc
    simp [createService] at hc

theorem noWrap_batteryServices : NoWrap batteryServices := by
  intro s hs
  have hmem : s ∈ [batteryServices[0], batteryServices[1]] := hs
  have hchars : ([batteryServices[0], batteryServices[1]].all fun s =>
      s.characterList.all fun c => c.handles.all fun h => h ≤ 0xFFFE) = true := by decide
  simp only [List.all_eq_true, decide_eq_true_eq] at hchars
  rcases List.mem_pair.mp hmem with rfl | rfl
  · exact ⟨by decide, by decide, hchars _ (by simp)⟩
  · exact ⟨by decide, by decide, hchars _ (by simp)⟩

theorem discoverServices_batterySession :
    discoverServices ⟨#v[1, 2, 3, 4, 5, 6]⟩ 3 batterySession =
      ([(1, 4), (5, 5)], some (.error btAttErrorAttributeNotFound)) :=
  discoverServices_eq _ batterySession rfl built_batteryServices noWrap_batteryServices
    (by decide)

/-! ## Characteristics -/

/-- Services whose ranges meet are the same. -/
theorem DbLaid.eq_of_meets {last last' : ℕ} {ss : List (GattService σ)}
    (h : DbLaid last ss last') {s t : GattService σ} (hs : s ∈ ss) (ht : t ∈ ss)
    (hst : s.handleStart ≤ t.handleEnd) (hts : t.handleStart ≤ s.handleEnd) : s = t := by
  rw [UInt16.le_iff_toNat_le] at hst hts
  induction h with
  | nil => simp at hs
  | @cons last last' u ss hu hss ih =>
      rcases List.mem_cons.mp hs with rfl | hs'
      · rcases List.mem_cons.mp ht with rfl | ht'
        · rfl
        · have := hss.range ht'
          omega
      · rcases List.mem_cons.mp ht with rfl | ht'
        · have := hss.range hs'
          omega
        · exact ih hs' ht'

/-- Inside the range of a service only that service has characteristics to offer. -/
theorem findCharacteristic_of_laid {ss : List (GattService σ)} {last : ℕ}
    (h : DbLaid 0 ss last) {s : GattService σ} (hs : s ∈ ss) {start : UInt16}
    (hstart : s.handleStart ≤ start) (hend : start ≤ s.handleEnd) :
    findCharacteristic ss ⟨start, s.handleEnd⟩ =
      (s.characterList.find? (findGattCharacterByHandleRangeCb ⟨start, s.handleEnd⟩)).map
        (s, ·) := by
  -- a service that the outer search accepts is `s`
  have honly : ∀ {t : GattService σ}, t ∈ ss →
      findChacInServiceByHandleRangeCb ⟨start, s.handleEnd⟩ t = true → t = s := by
    intro t ht hp
    simp only [findChacInServiceByHandleRangeCb, HandleRange.meets, ge_iff_le,
      decide_eq_true_eq] at hp
    exact h.eq_of_meets ht hs hp.1.1 (UInt16.le_trans hstart hp.1.2)
  rw [findCharacteristic, findInService]
  cases hfind : s.characterList.find?
      (findGattCharacterByHandleRangeCb ⟨start, s.handleEnd⟩) with
  | none =>
      have hnone : ss.find? (findChacInServiceByHandleRangeCb ⟨start, s.handleEnd⟩) = none := by
        rw [List.find?_eq_none]
        intro t ht hp
        obtain rfl := honly ht hp
        simp [findChacInServiceByHandleRangeCb, hfind] at hp
      rw [hnone]
      rfl
  | some c =>
      have hself : findChacInServiceByHandleRangeCb ⟨start, s.handleEnd⟩ s = true := by
        simp only [findChacInServiceByHandleRangeCb, HandleRange.meets, hfind,
          Option.isSome_some, and_true, ge_iff_le, decide_eq_true_eq]
        exact ⟨UInt16.le_trans hstart hend, hend⟩
      obtain ⟨t, ht⟩ : ∃ t, ss.find?
          (findChacInServiceByHandleRangeCb ⟨start, s.handleEnd⟩) = some t :=
        Option.isSome_iff_exists.mp (List.find?_isSome.mpr ⟨s, hs, hself⟩)
      obtain rfl := honly (List.mem_of_find?_eq_some ht) (List.find?_some ht)
      simp [ht, hfind]

/-- Behind the characteristics `pre` the first one in the range of the service is the next
one. -/
theorem find?_character_of_laid {pre cs : List GattCharacter} {e : ℕ} {start stop : UInt16}
    (hpre : ∀ c ∈ pre, c.typeHandle < start) (hcs : CharsLaid e cs stop.toNat)
    (hstart : start.toNat ≤ e + 1) :
    (pre ++ cs).find? (findGattCharacterByHandleRangeCb ⟨start, stop⟩) = cs.head? := by
  have hbefore : pre.find? (findGattCharacterByHandleRangeCb ⟨start, stop⟩) = none := by
    rw [List.find?_eq_none]
    intro c hc
    have := UInt16.lt_iff_toNat_lt.mp (hpre c hc)
    simp only [findGattCharacterByHandleRangeCb, HandleRange.covers, ge_iff_le,
      UInt16.le_iff_toNat_le, decide_eq_true_eq]
    omega
  rw [List.find?_append, hbefore, Option.none_or]
  cases hcs with
  | nil => rfl
  | @cons _ _ c cs hc hcs =>
      have hmatch : findGattCharacterByHandleRangeCb ⟨start, stop⟩ c = true := by
        have := hc.type
        have := hcs.le
        have := c.two_le_size
        simp only [findGattCharacterByHandleRangeCb, HandleRange.covers, ge_iff_le,
          UInt16.le_iff_toNat_le, decide_eq_true_eq]
        omega
      rw [List.find?_cons_of_pos hmatch]
      rfl

/-- What characteristic discovery is to find out about a characteristic. -/
def GattCharacter.declaration (c : GattCharacter) : UInt16 × UInt8 × UInt16 :=
  (c.typeHandle, c.prop.toUInt8, c.valueHandle)

/-- Behind the characteristics `pre` of a service the loop finds its others in their
order. -/
theorem yields_characteristics (addr : BdAddr) {ss : List (GattService σ)} {last : ℕ}
    (h : DbLaid 0 ss last) (hle : last ≤ 0xFFFE) {s : GattService σ} (hs : s ∈ ss)
    (pre : List GattCharacter) {cs : List GattCharacter} (hsplit : s.characterList = pre ++ cs)
    {e : ℕ} (hcs : CharsLaid e cs s.handleEnd.toNat) {start : UInt16}
    (hpre : ∀ c ∈ pre, c.typeHandle < start) (hlow : s.handleStart ≤ start)
    (hhigh : start.toNat ≤ e + 1) (hend : start ≤ s.handleEnd) :
    Yields (askCharacteristic addr s.handleEnd) (fun decl => decl.1 + 1)
      (fun x : Session σ => x.server.serviceList = ss)
      (.error btAttErrorAttributeNotFound) start (cs.map GattCharacter.declaration) := by
  induction cs generalizing pre e start with
  | nil =>
      refine .done ?_
      intro x hx
      rw [(askCharacteristic_eq addr s.handleEnd x start).2, hx,
        findCharacteristic_of_laid h hs hlow hend, hsplit,
        find?_character_of_laid hpre hcs hhigh]
      rfl
  | cons c cs ih =>
      refine .item ?_ ?_
      · intro x hx
        obtain ⟨hserver, hans⟩ := askCharacteristic_eq addr s.handleEnd x start
        rw [hans, hserver, hx, findCharacteristic_of_laid h hs hlow hend, hsplit,
          find?_character_of_laid hpre hcs hhigh]
        exact ⟨rfl, rfl⟩
      · obtain ⟨hc, hcs⟩ : CharLaid e c ∧ CharsLaid (e + c.size) cs s.handleEnd.toNat := by
          cases hcs with
          | cons hc hcs => exact ⟨hc, hcs⟩
        have htype := hc.type
        have htwo := c.two_le_size
        have hcle := hcs.le
        have hsend := (h.range hs).2.2
        have hnext : (c.typeHandle + 1).toNat = c.typeHandle.toNat + 1 := by
          rw [UInt16.toNat_add]
          simp
          omega
        rw [UInt16.le_iff_toNat_le] at hlow hend
        refine ih (pre ++ [c]) (by simpa using hsplit) hcs ?_ ?_ ?_ ?_
        · intro d hd
          rw [UInt16.lt_iff_toNat_lt]
          show d.typeHandle.toNat < (c.typeHandle + 1).toNat
          rcases List.mem_append.mp hd with hd | hd
          · have := UInt16.lt_iff_toNat_lt.mp (hpre d hd)
            omega
          · obtain rfl : d = c := by simpa using hd
            omega
        · show s.handleStart ≤ c.typeHandle + 1
          rw [UInt16.le_iff_toNat_le]
          omega
        · show (c.typeHandle + 1).toNat ≤ e + c.size + 1
          omega
        · show c.typeHandle + 1 ≤ s.handleEnd
          rw [UInt16.le_iff_toNat_le]
          omega

/-- The service at its place in a layout. -/
theorem DbLaid.serviceLaid {last last' : ℕ} {ss : List (GattService σ)}
    (h : DbLaid last ss last') {s : GattService σ} (hs : s ∈ ss) :
    ∃ l, ServiceLaid l s := by
  induction h with
  | nil => simp at hs
  | cons ht _ ih =>
      rcases List.mem_cons.mp hs with rfl | hs
      · exact ⟨_, ht⟩
      · exact ih hs

/-- **Characteristic discovery is complete and exact.** On a database that was built
without a wrap the loop over the range of a service returns each of its characteristics
once, in the order they were added, and ends with Attribute Not Found. -/
theorem discoverCharacteristics_eq (addr : BdAddr) (x : Session σ)
    {ss : List (GattService σ)} (hx : x.server.serviceList = ss) (hbuilt : Built ss)
    (hno : NoWrap ss) {s : GattService σ} (hs : s ∈ ss) {fuel : ℕ}
    (hfuel : s.characterList.length < fuel) :
    discoverCharacteristics addr s.handleStart s.handleEnd fuel x =
      (s.characterList.map GattCharacter.declaration,
        some (.error btAttErrorAttributeNotFound)) := by
  obtain ⟨last, hlaid, hle⟩ := dbLaid_of_built hbuilt hno
  obtain ⟨l, hsl⟩ := hlaid.serviceLaid hs
  have hstart := hsl.start
  have hyields := yields_characteristics addr hlaid hle hs [] rfl hsl.chars
    (by simp) (UInt16.le_refl _) (by omega) (UInt16.le_iff_toNat_le.mpr hsl.start_le_end)
  exact enumerate_eq hyields hx (by simpa using hfuel)

theorem discoverCharacteristics_batterySession :
    discoverCharacteristics ⟨#v[1, 2, 3, 4, 5, 6]⟩ 1 4 2 batterySession =
      ([(2, 0x12, 3)], some (.error btAttErrorAttributeNotFound)) :=
  discoverCharacteristics_eq _ batterySession rfl built_batteryServices noWrap_batteryServices
    (s := batteryServices[0]) List.mem_cons_self (by decide)

end CCode.Gatt
