import CCode.Gatt.Database

/-!
# The GATT server

`onReceive` of `gatt.c` with everything it calls: the handle lookup, the four discovery
and exchange responses, and the reads and writes that go to the callbacks of a service.

The PDU is memory, not a list: `onReceive` takes a length but reads its parameters
without looking at it, so what lies behind the received bytes is part of the input.
Automatic variables that a path may read before it writes them are part of the input as
well, in `Locals`. The mutex around the lookup is not modelled: one PDU is handled at a
time.

The result is the new state and the events in order: PDUs handed to the transport and
callbacks run. Callbacks are functions on the state of the services, so they send
nothing themselves.

## Main definitions

* `GattServices` — the state behind the server.
* `Event`, `sentPdus` — what the server does, and the PDUs among it.
* `getHandleInfo` — the lookup of an attribute by its handle.
* `readByTypeRsp`, `readByGrpTypeRsp`, `findInfoRsp`, `mtuRsp` — the common responses.
* `onReceive`, `receive` — a PDU handled by the server, and through the ATT layer.
-/

namespace CCode.Gatt

open CCode.Lib

variable {σ : Type}

/-- `struct gatt_services`, the static response buffer of `onReceive`, and the private
state of the services. -/
structure GattServices (σ : Type) where
  serviceList : List (GattService σ)
  rspPdu : Mem
  rspLen : UInt16
  world : σ

/-- The automatic variables of one call that may be read uninitialised: the UUID of a
request with a malformed length, the operand of a comparison that was never set, and the
descriptor value that a callback did not provide. -/
structure Locals where
  uuid : BtUuid
  residue : U128
  descValue : UInt16

/-- The callbacks that `onReceive` may run, with what they are given. -/
inductive Callback
  | characterRead (uuid : BtUuid)
  | characterReadBlob (uuid : BtUuid) (offset : UInt16)
  | characterWrite (uuid : BtUuid) (buf : List UInt8)
  | descriptorRead (uuid : BtUuid)
  | descriptorWrite (uuid : BtUuid) (desc : UInt16)
  | mtuChanged (mtu : UInt16)

/-- What the server does while it handles a PDU. -/
inductive Event (σ : Type)
  | send (addr : BdAddr) (pdu : Pdu)
  | call (service : GattService σ) (callback : Callback)

/-- The PDUs sent, each with the peer it went to. -/
def sentPdus : List (Event σ) → List (BdAddr × Pdu)
  | [] => []
  | .send addr pdu :: es => (addr, pdu) :: sentPdus es
  | .call _ _ :: es => sentPdus es

@[simp] theorem sentPdus_nil : sentPdus ([] : List (Event σ)) = [] := rfl
@[simp] theorem sentPdus_send (addr : BdAddr) (pdu : Pdu) (es : List (Event σ)) :
    sentPdus (.send addr pdu :: es) = (addr, pdu) :: sentPdus es := rfl
@[simp] theorem sentPdus_call (s : GattService σ) (c : Callback) (es : List (Event σ)) :
    sentPdus (.call s c :: es) = sentPdus es := rfl

@[simp] theorem sentPdus_append (es fs : List (Event σ)) :
    sentPdus (es ++ fs) = sentPdus es ++ sentPdus fs := by
  induction es with
  | nil => rfl
  | cons e es ih => cases e <;> simp [ih]

/-! ## Sending -/

/-- `gatt_send`. -/
def gattSend (addr : BdAddr) (opcode : UInt16) (rsp : List UInt8) : List (Event σ) :=
  (attSend opcode rsp).map (Event.send addr)

/-- `send_att_error`. -/
def sendAttError (addr : BdAddr) (opcode : UInt16) (handle : UInt16) (errCode : UInt8) :
    List (Event σ) :=
  gattSend addr btAttOpErrorRsp.toUInt16 ([opcode.toUInt8] ++ le16 handle ++ [errCode])

/-- A PDU whose opcode the ATT layer knows as a response is sent. -/
theorem sentPdus_gattSend (addr : BdAddr) {opcode : UInt8} (rsp : List UInt8)
    (h : getOpType opcode = .rsp) :
    sentPdus (gattSend addr opcode.toUInt16 rsp : List (Event σ)) = [(addr, ⟨opcode, rsp⟩)] := by
  simp [gattSend, attSend, h]

/-- An error response is sent with the opcode it answers in its first byte. -/
@[simp] theorem sentPdus_sendAttError (addr : BdAddr) (opcode : UInt8) (handle : UInt16)
    (errCode : UInt8) :
    sentPdus (sendAttError addr opcode.toUInt16 handle errCode : List (Event σ)) =
      [(addr, ⟨btAttOpErrorRsp, [opcode] ++ le16 handle ++ [errCode]⟩)] := by
  rw [sendAttError, sentPdus_gattSend addr _ (by decide)]
  simp

/-! ## Looking up a handle -/

/-- `handle_type_t`, as far as the lookup produces it. -/
inductive HandleType
  | character | descConf
  deriving DecidableEq

/-- `find_gatt_service_by_handle_cb`. -/
def findGattServiceByHandleCb (handle : UInt16) (s : GattService σ) : Bool :=
  s.handleStart ≤ handle ∧ s.handleEnd ≥ handle

/-- `find_gatt_character_by_handle_cb`. The handle before the value handle is computed
as an `int`, so it is negative for a value handle of zero. -/
def findGattCharacterByHandleCb (handle : UInt16) (c : GattCharacter) : Bool :=
  (handle.toNat : Int) = (c.valueHandle.toNat : Int) - 1 ∨ handle = c.valueHandle ∨
    handle = c.rptRefHandle ∨ handle = c.descHandle

/-- `get_handle_info`: the service, the characteristic and the kind of a handle, `none`
for `GATT_FAILED_NOEXIST`. -/
def getHandleInfo (serviceList : List (GattService σ)) (handle : UInt16) :
    Option (GattService σ × GattCharacter × HandleType) :=
  if handle = 0 ∨ handle ≥ 0xFFFF then none
  else
    match serviceList.find? (findGattServiceByHandleCb handle) with
    | none => none
    | some s =>
        match s.characterList.find? (findGattCharacterByHandleCb handle) with
        | none => none
        | some c =>
            if handle = c.valueHandle then some (s, c, .character)
            else if handle = c.descHandle then some (s, c, .descConf)
            else if handle = c.rptRefHandle then some (s, c, .descConf)
            else none

/-! ## The common responses -/

/-- `mtu_change_cb` over the service list. -/
def mtuChange (addr : BdAddr) (mtu : UInt16) :
    List (GattService σ) → σ → List (GattService σ) × σ × List (Event σ)
  | [], world => ([], world, [])
  | s :: ss, world =>
      let s' := { s with mtu := (mtu.toNat : Int) }
      let world := s.ioCb.onMtuChanged addr mtu.toNat world
      let (ss', world, es) := mtuChange addr mtu ss world
      (s' :: ss', world, .call s' (.mtuChanged mtu) :: es)

/-- `mtu_rsp`: the client's own MTU is echoed. -/
def mtuRsp (g : GattServices σ) (addr : BdAddr) (mtu : UInt16) :
    GattServices σ × List (Event σ) :=
  let (ss, world, es) := mtuChange addr mtu g.serviceList g.world
  ({ g with serviceList := ss, world }, gattSend addr btAttOpMtuRsp.toUInt16 (le16 mtu) ++ es)

/-- `struct handle_range`. -/
structure HandleRange where
  startHandle : UInt16
  endHandle : UInt16
  deriving DecidableEq

/-- The handle lies in the range. -/
def HandleRange.covers (r : HandleRange) (handle : UInt16) : Bool :=
  handle ≥ r.startHandle ∧ handle ≤ r.endHandle

/-- The part of `find_desc_in_service_by_handle_range_cb` and of
`find_chac_in_service_by_handle_range_cb` before the inner search: the service's range
meets the requested one. -/
def HandleRange.meets (r : HandleRange) (s : GattService σ) : Bool :=
  s.handleStart ≤ r.endHandle ∧ s.handleEnd ≥ r.startHandle

/-- `find_gatt_descreptor_by_handle_range_cb`. -/
def findGattDescreptorByHandleRangeCb (r : HandleRange) (c : GattCharacter) : Bool :=
  r.covers c.descHandle

/-- `find_desc_in_service_by_handle_range_cb`. -/
def findDescInServiceByHandleRangeCb (r : HandleRange) (s : GattService σ) : Bool :=
  r.meets s ∧ (s.characterList.find? (findGattDescreptorByHandleRangeCb r)).isSome

/-- `find_gatt_character_by_handle_range_cb`. -/
def findGattCharacterByHandleRangeCb (r : HandleRange) (c : GattCharacter) : Bool :=
  r.covers c.typeHandle

/-- `find_chac_in_service_by_handle_range_cb`. -/
def findChacInServiceByHandleRangeCb (r : HandleRange) (s : GattService σ) : Bool :=
  r.meets s ∧ (s.characterList.find? (findGattCharacterByHandleRangeCb r)).isSome

/-- `find_gatt_service_by_handle_range_cb`. -/
def findGattServiceByHandleRangeCb (r : HandleRange) (s : GattService σ) : Bool :=
  s.handleStart ≥ r.startHandle ∧ s.handleEnd ≤ r.endHandle

/-- The two nested searches of a response: the first service that `p` accepts and the
first characteristic in it that `q` accepts. -/
def findInService (p : GattService σ → Bool) (q : GattCharacter → Bool)
    (serviceList : List (GattService σ)) : Option (GattService σ × GattCharacter) := do
  let s ← serviceList.find? p
  let c ← s.characterList.find? q
  some (s, c)

/-- `find_info_rsp`. -/
def findInfoRsp (serviceList : List (GattService σ)) (addr : BdAddr) (r : HandleRange) :
    List (Event σ) :=
  match findInService (findDescInServiceByHandleRangeCb r)
      (findGattDescreptorByHandleRangeCb r) serviceList with
  | some (_, c) =>
      gattSend addr btAttOpFindInfoRsp.toUInt16
        ([findInfoUuidType16Bit] ++
          (if r.covers c.descHandle then le16 c.descHandle ++ le16 gattClientCharacCfgUuid
            else []) ++
          (if r.covers c.rptRefHandle then le16 c.rptRefHandle ++ le16 gattReportReference
            else []))
  | none =>
      sendAttError addr btAttOpFindInfoReq.toUInt16 r.startHandle btAttErrorAttributeNotFound

/-- The characteristic that answers a read by type, with its service. -/
def findCharacteristic (serviceList : List (GattService σ)) (r : HandleRange) :
    Option (GattService σ × GattCharacter) :=
  findInService (findChacInServiceByHandleRangeCb r) (findGattCharacterByHandleRangeCb r)
    serviceList

/-- The entry of a read-by-type response. A 16-bit UUID is written; otherwise the sixteen
bytes of the union are written if the *service's* UUID has 128 bits, and nothing if not.
The bytes of the union behind a 32-bit UUID are those that `bt_uuid32_create` cleared. -/
def readByTypeEntry (s : GattService σ) (c : GattCharacter) : List UInt8 :=
  [UInt8.ofNat (2 + 1 + 2 + c.uuid.type / 8)] ++ le16 c.typeHandle ++ [c.prop.toUInt8] ++
    le16 c.valueHandle ++
    match c.uuid, s.uuid with
    | .u16 v, _ => le16 v
    | .u128 v, .u128 _ => v.toList
    | .u32 v, .u128 _ => le32 v ++ List.replicate 12 0
    | .unspec v, .u128 _ => v.toList
    | _, _ => []

/-- `read_by_type_rsp`. -/
def readByTypeRsp (serviceList : List (GattService σ)) (addr : BdAddr) (r : HandleRange)
    (uuid : BtUuid) (l : Locals) : List (Event σ) :=
  let notFound : List (Event σ) :=
    sendAttError addr btAttOpReadByTypeReq.toUInt16 r.startHandle btAttErrorAttributeNotFound
  if btUuidCmpStr uuid gattCharacUuidStr l.residue = 0 then
    match findCharacteristic serviceList r with
    | some (s, c) =>
        gattSend addr btAttOpReadByTypeRsp.toUInt16 (readByTypeEntry s c)
    | none => notFound
  else notFound

/-- The entry of a read-by-group-type response. -/
def readByGrpTypeEntry (s : GattService σ) : List UInt8 :=
  [UInt8.ofNat (s.uuid.type / 8 + 4)] ++ le16 s.handleStart ++ le16 s.handleEnd ++
    match s.uuid with
    | .u16 v => le16 v
    | .u128 v => v.toList
    | .u32 _ | .unspec _ => []

/-- `read_by_grp_type_rsp`. -/
def readByGrpTypeRsp (serviceList : List (GattService σ)) (addr : BdAddr) (r : HandleRange)
    (uuid : BtUuid) (l : Locals) : List (Event σ) :=
  let notFound : List (Event σ) :=
    sendAttError addr btAttOpReadByGrpTypeReq.toUInt16 r.startHandle
      btAttErrorAttributeNotFound
  if btUuidCmpStr uuid gattPrimSvcUuidStr l.residue = 0 then
    match serviceList.find? (findGattServiceByHandleRangeCb r) with
    | some s => gattSend addr btAttOpReadByGrpTypeRsp.toUInt16 (readByGrpTypeEntry s)
    | none => notFound
  else notFound

/-! ## Reads and writes -/

/-- The branch of `onReceive` for a handle that names a characteristic's value. The
16-bit `rsp_len` is never negative, so the source's clamp has no effect. -/
def accessCharacter (g : GattServices σ) (addr : BdAddr) (opcode : UInt8) (pdu : Mem)
    (length : UInt16) (s : GattService σ) (c : GattCharacter) :
    GattServices σ × List (Event σ) :=
  if opcode = btAttOpWriteReq then
    let buf := pdu.read 2 (length - 2).toNat
    ({ g with world := s.ioCb.onCharacterWrite addr c.uuid buf g.world },
      gattSend addr btAttOpWriteRsp.toUInt16 [] ++ [.call s (.characterWrite c.uuid buf)])
  else if opcode = btAttOpReadReq then
    let (world, rspPdu, rspLen) := s.ioCb.onCharacterRead addr c.uuid g.world g.rspPdu 0
    ({ g with world, rspPdu, rspLen },
      .call s (.characterRead c.uuid) ::
        gattSend addr btAttOpReadRsp.toUInt16 (rspPdu.read 0 rspLen.toNat))
  else if opcode = btAttOpReadBlobReq then
    let offset := pdu.u16 2
    match s.ioCb.onCharacterReadBlob with
    | some onCharacterReadBlob =>
        let (world, rspPdu, rspLen) :=
          onCharacterReadBlob addr c.uuid g.world offset.toNat g.rspPdu 0
        ({ g with world, rspPdu, rspLen },
          .call s (.characterReadBlob c.uuid offset) ::
            gattSend addr btAttOpReadBlobRsp.toUInt16 (rspPdu.read 0 rspLen.toNat))
    | none =>
        (g, sendAttError addr opcode.toUInt16 0x0001 btAttErrorRequestNotSupported)
  else (g, [])

/-- The branch of `onReceive` for a handle that names a descriptor. It has no case for a
blob read. -/
def accessDescConf (g : GattServices σ) (addr : BdAddr) (opcode : UInt8) (pdu : Mem)
    (s : GattService σ) (c : GattCharacter) (l : Locals) :
    GattServices σ × List (Event σ) :=
  if opcode = btAttOpWriteReq then
    let descValue := pdu.u16 2
    ({ g with world := s.ioCb.onDescriptorWrite addr c.uuid descValue g.world },
      .call s (.descriptorWrite c.uuid descValue) ::
        gattSend addr btAttOpWriteRsp.toUInt16 [])
  else if opcode = btAttOpReadReq then
    let (world, descValue) := s.ioCb.onDescriptorRead addr c.uuid g.world l.descValue
    ({ g with world, rspLen := 0 },
      .call s (.descriptorRead c.uuid) ::
        gattSend addr btAttOpReadRsp.toUInt16 (le16 descValue))
  else (g, [])

/-- The branch of `onReceive` for reads, blob reads and writes. A handle that is not
found is only logged. -/
def accessHandle (g : GattServices σ) (addr : BdAddr) (opcode : UInt8) (pdu : Mem)
    (length : UInt16) (l : Locals) : GattServices σ × List (Event σ) :=
  match getHandleInfo g.serviceList (pdu.u16 0) with
  | some (s, c, .character) => accessCharacter g addr opcode pdu length s c
  | some (s, c, .descConf) => accessDescConf g addr opcode pdu s c l
  | none => (g, [])

/-- The attribute type of a read-by-type or read-by-group-type request. A length that is
neither that of a 16-bit nor of a 128-bit UUID is only logged, and the uninitialised
UUID is used. -/
def requestUuid (pdu : Mem) (length : UInt16) (l : Locals) : BtUuid :=
  let remainLen := length - 4
  if remainLen = 2 then .u16 (pdu.u16 4)
  else if remainLen = 16 then .u128 (Vector.ofFn fun i => pdu (4 + i))
  else l.uuid

/-- `onReceive`. -/
def onReceive (g : GattServices σ) (l : Locals) (addr : BdAddr) (opcode : UInt8) (pdu : Mem)
    (length : UInt16) : GattServices σ × List (Event σ) :=
  let range : HandleRange := ⟨pdu.u16 0, pdu.u16 2⟩
  if opcode = btAttOpErrorRsp then (g, [])
  else if opcode = btAttOpMtuReq then mtuRsp g addr (pdu.u16 0)
  else if opcode = btAttOpMtuRsp then (g, [])
  else if opcode = btAttOpFindInfoReq then (g, findInfoRsp g.serviceList addr range)
  else if opcode = btAttOpFindInfoRsp then (g, [])
  else if opcode = btAttOpReadByTypeReq then
    (g, readByTypeRsp g.serviceList addr range (requestUuid pdu length l) l)
  else if opcode = btAttOpReadByTypeRsp then (g, [])
  else if opcode = btAttOpReadByGrpTypeReq then
    (g, readByGrpTypeRsp g.serviceList addr range (requestUuid pdu length l) l)
  else if opcode = btAttOpReadByGrpTypeRsp then (g, [])
  else if opcode = btAttOpReadReq ∨ opcode = btAttOpReadBlobReq ∨ opcode = btAttOpWriteReq then
    accessHandle g addr opcode pdu length l
  else if opcode = btAttOpHandleValNot ∨ opcode = btAttOpHandleValInd ∨
      opcode = btAttOpReadRsp ∨ opcode = btAttOpWriteRsp then (g, [])
  -- everything else is "not support", a response or a confirmation as much as a request
  else (g, sendAttError addr opcode.toUInt16 0x0001 btAttErrorRequestNotSupported)

/-- A PDU on its way through the ATT layer into the server. -/
def receive (g : GattServices σ) (l : Locals) (addr : BdAddr) (opcode : UInt8) (pdu : Mem)
    (len : UInt32) : GattServices σ × List (Event σ) :=
  attIoReceive (onReceive g l) (g, []) addr opcode pdu len

end CCode.Gatt
