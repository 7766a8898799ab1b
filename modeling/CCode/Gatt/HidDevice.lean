import CCode.Gatt.Server

/-!
# The HID service and its server

`hid_device.c`, `generic_access.c` and what `gatt.c` has for them besides `onReceive`: the
notifications and the connection changes. `init_gatt_services` registers these two services.

The HID service keeps one `device` for all peers: the last accepted subscription, with the
UUID of the characteristic it was for, and the last MTU that anybody exchanged. A connection
of any peer resets the MTU, a disconnection of any peer clears everything. A subscription is
accepted if the link becomes secure in time; `att_get_security` asks the kernel, so its
results are part of the state.

`Input` is what happens to the server, one callback at a time: a PDU, a connection change, or
a key pressed on the console, which the service sends as two notifications.

## Main definitions

* `Device`, `Hid` — the state of the HID service.
* `hidCb`, `genericAccessCb`, `initGattServices` — the two services.
* `gattsSendNotification`, `sendAscII` — notifications.
* `Input`, `serve` — the server.
-/

namespace CCode.Gatt

open CCode.Lib

variable {σ τ : Type}

/-! ## Notifications and connections -/

/-- `find_chac_by_uuid_cb`. -/
def findChacByUuidCb (chacUuid : BtUuid) (c : GattCharacter) : Bool :=
  btUuidCmp c.uuid chacUuid = 0

/-- `find_chac_is_in_service_by_uuid_cb`. -/
def findChacIsInServiceByUuidCb (chacUuid : BtUuid) (s : GattService σ) : Bool :=
  (s.characterList.find? (findChacByUuidCb chacUuid)).isSome

/-- `find_chac_by_uuid`: the first characteristic with the UUID, in the first service that
has one. -/
def findChacByUuid (serviceList : List (GattService σ)) (chacUuid : BtUuid) :
    Option GattCharacter := do
  let s ← serviceList.find? (findChacIsInServiceByUuidCb chacUuid)
  s.characterList.find? (findChacByUuidCb chacUuid)

/-- `gatts_send_notification`. -/
def gattsSendNotification (serviceList : List (GattService σ)) (addr : BdAddr)
    (chacUuid : BtUuid) (buf : List UInt8) : List (Event σ) :=
  match findChacByUuid serviceList chacUuid with
  | some c => gattSend addr btAttOpHandleValNot.toUInt16 (le16 c.valueHandle ++ buf)
  | none => []

/-- `GATT_STATUS_CONNECTED`. -/
abbrev gattStatusConnected : Int := 0

/-- `GATT_STATUS_DISCONNECTED`. -/
abbrev gattStatusDisconnected : Int := 1

/-- `conn_change_cb`: every service is told. -/
def connChangeCb (g : GattServices σ) (addr : BdAddr) (status : Int) : GattServices σ :=
  { g with
    world := g.serviceList.foldl (fun w s => s.ioCb.onConnectionStateChange addr status w)
      g.world }

/-! ## The HID service -/

/-- `BT_SECURITY_HIGH`. -/
abbrev btSecurityHigh : Int := 3

/-- `DESCREPTOR_NOTIFICATION`. -/
abbrev descreptorNotification : UInt16 := 0x0001

/-- `hid_map`. -/
def hidMap : List UInt8 :=
  [0x05, 0x01, 0x09, 0x06, 0xa1, 0x01, 0x85, 0x01, 0x75, 0x01, 0x95, 0x08, 0x05, 0x07,
   0x19, 0xe0, 0x29, 0xe7, 0x15, 0x00, 0x25, 0x01, 0x81, 0x02, 0x95, 0x01, 0x75, 0x08,
   0x81, 0x03, 0x95, 0x05, 0x75, 0x01, 0x05, 0x08, 0x19, 0x01, 0x29, 0x05, 0x91, 0x02,
   0x95, 0x01, 0x75, 0x03, 0x91, 0x03, 0x95, 0x06, 0x75, 0x08, 0x15, 0x00, 0x26, 0xff,
   0x00, 0x05, 0x07, 0x19, 0x00, 0x29, 0xff, 0x81, 0x00, 0xc0, 0x05, 0x0c, 0x09, 0x01,
   0xa1, 0x01, 0x85, 0x02, 0x15, 0x00, 0x25, 0x01, 0x75, 0x01, 0x95, 0x0d, 0x0a, 0x24,
   0x02, 0x09, 0x40, 0x0a, 0x23, 0x02, 0x0a, 0xae, 0x01, 0x0a, 0x21, 0x02, 0x09, 0xb6,
   0x09, 0xcd, 0x09, 0xb5, 0x09, 0xe2, 0x09, 0xea, 0x09, 0xe9, 0x09, 0x30, 0x09, 0x40,
   0x81, 0x02, 0x95, 0x01, 0x75, 0x03, 0x81, 0x03, 0xc0]

/-- `hid_info`. -/
def hidInfo : List UInt8 := [0x01, 0x02, 0x00, 0x03]

/-- `key_map`: the modifier and the code of each ASCII character. -/
def keyMap : List (UInt8 × UInt8) :=
  [(0, 0x00), (0, 0x00), (0, 0x00), (0, 0x00), (0, 0x00), (0, 0x00), (0, 0x00), (0, 0x00),
   (0, 0x2A), (0, 0x2B), (0, 0x28), (0, 0x00), (0, 0x00), (0, 0x28), (0, 0x00), (0, 0x00),
   (0, 0x00), (0, 0x00), (0, 0x00), (0, 0x00), (0, 0x00), (0, 0x00), (0, 0x00), (0, 0x00),
   (0, 0x00), (0, 0x00), (0, 0x00), (0, 0x29), (0, 0x00), (0, 0x00), (0, 0x00), (0, 0x00),
   (0, 0x2C), (2, 0x1E), (2, 0x34), (2, 0x20), (2, 0x21), (2, 0x22), (2, 0x24), (0, 0x34),
   (2, 0x26), (2, 0x27), (2, 0x25), (2, 0x2E), (0, 0x36), (0, 0x2D), (0, 0x37), (0, 0x38),
   (0, 0x27), (0, 0x1E), (0, 0x1F), (0, 0x20), (0, 0x21), (0, 0x22), (0, 0x23), (0, 0x24),
   (0, 0x25), (0, 0x26), (2, 0x33), (0, 0x33), (2, 0x36), (0, 0x2E), (2, 0x37), (2, 0x38),
   (2, 0x1F), (2, 0x04), (2, 0x05), (2, 0x06), (2, 0x07), (2, 0x08), (2, 0x09), (2, 0x0A),
   (2, 0x0B), (2, 0x0C), (2, 0x0D), (2, 0x0E), (2, 0x0F), (2, 0x10), (2, 0x11), (2, 0x12),
   (2, 0x13), (2, 0x14), (2, 0x15), (2, 0x16), (2, 0x17), (2, 0x18), (2, 0x19), (2, 0x1A),
   (2, 0x1B), (2, 0x1C), (2, 0x1D), (0, 0x2F), (0, 0x31), (0, 0x30), (2, 0x23), (2, 0x2D),
   (0, 0x32), (0, 0x04), (0, 0x05), (0, 0x06), (0, 0x07), (0, 0x08), (0, 0x09), (0, 0x0A),
   (0, 0x0B), (0, 0x0C), (0, 0x0D), (0, 0x0E), (0, 0x0F), (0, 0x10), (0, 0x11), (0, 0x12),
   (0, 0x13), (0, 0x14), (0, 0x15), (0, 0x16), (0, 0x17), (0, 0x18), (0, 0x19), (0, 0x1A),
   (0, 0x1B), (0, 0x1C), (0, 0x1D), (2, 0x2F), (2, 0x31), (2, 0x30), (2, 0x32), (0, 0x2A)]

/-- `u_report_map`. -/
abbrev uReportMap : BtUuid := .u16 0x2A4B

/-- `u_hid_report`. -/
abbrev uHidReport : BtUuid := .u16 0x2A4D

/-- `u_hid_info`. -/
abbrev uHidInfo : BtUuid := .u16 0x2A4A

/-- `device`. -/
structure Device where
  status : UInt16
  addr : BdAddr
  descUuid : BtUuid
  mtu : Int
  isPaired : Bool

/-- A `device` of zeros. -/
def Device.zero : Device where
  status := 0
  addr := ⟨Vector.replicate 6 0⟩
  descUuid := .unspec (Vector.replicate 16 0)
  mtu := 0
  isPaired := false

/-- The state of `hid_device.c`: `device`, the first byte of `report`, what lies in memory
behind `hid_map`, and the results of `att_get_security` to come. -/
structure Hid where
  device : Device
  report : UInt8
  behindMap : Mem
  security : ℕ → Int

/-- A number as a `size_t`. -/
def sizeT (n : Int) : ℕ := (n % 2 ^ 64).toNat

namespace HidDevice

/-- `onConnectionStateChange`. -/
def onConnectionStateChange (newState : Int) (h : Hid) : Hid :=
  if newState = gattStatusDisconnected then { h with device := .zero }
  else
    { h with
      report := 0
      device := { h.device with mtu := btAttDefaultLeMtu, isPaired := false } }

/-- The memory from `hid_map` on. -/
def mapMem (h : Hid) : Mem := fun i => hidMap.getD i (h.behindMap (i - hidMap.length))

/-- The report map from an offset on, as much of it as the MTU of `device` leaves room for.
The comparison is one of `size_t`, so an MTU of zero leaves more room than any other, and
behind an offset past the end there is more than any MTU. -/
def readReportMap (h : Hid) (offset : Int) (buf : Mem) : Mem × UInt16 :=
  let left := sizeT (hidMap.length - offset)
  let room := sizeT (h.device.mtu - 1)
  let len := if room ≥ left then left else room
  (buf.write 0 ((mapMem h).read offset.toNat len), UInt16.ofNat len)

/-- `onCharacterRead`. -/
def onCharacterRead (h : Hid) (chacUuid : BtUuid) (buf : Mem) (len : UInt16) : Mem × UInt16 :=
  if btUuidCmp chacUuid uReportMap = 0 then readReportMap h 0 buf
  else if btUuidCmp chacUuid uHidInfo = 0 then (buf.write 0 hidInfo, UInt16.ofNat hidInfo.length)
  else (buf, len)

/-- `onCharacterReadBlob`. -/
def onCharacterReadBlob (h : Hid) (chacUuid : BtUuid) (offset : Int) (buf : Mem)
    (len : UInt16) : Mem × UInt16 :=
  if btUuidCmp chacUuid uReportMap = 0 then readReportMap h offset buf else (buf, len)

/-- `onDescriptorRead`: the report reference, with an id that counts the reads. -/
def onDescriptorRead (h : Hid) (descUuid : BtUuid) (retDesc : UInt16) : Hid × UInt16 :=
  if btUuidCmp descUuid uHidReport = 0 then
    ({ h with report := h.report + 1 }, ofLe16 (h.report + 1) 0x01)
  else (h, retDesc)

/-- The loop that waits for the link to become secure, with the tries that are left. -/
def waitSecure : ℕ → (ℕ → Int) → Bool × (ℕ → Int)
  | 0, security => (false, security)
  | cnt + 1, security =>
      if security 0 = btSecurityHigh then (true, fun n => security (n + 1))
      else waitSecure cnt fun n => security (n + 1)

/-- `onDescriptorWrite`: the subscription is stored under the UUID, if the link becomes
secure in time. -/
def onDescriptorWrite (addr : BdAddr) (descUuid : BtUuid) (desc : UInt16) (h : Hid) : Hid :=
  let (secure, security) := waitSecure 30 h.security
  if secure then
    { h with security
             device := { h.device with status := desc, addr, descUuid, isPaired := true } }
  else { h with security }

/-- `onMtuChanged`. -/
def onMtuChanged (mtu : Int) (h : Hid) : Hid := { h with device := { h.device with mtu } }

end HidDevice

/-- `io_cb` of `hid_device.c`, on the first part of the state. -/
def hidCb : GattsCb (Hid × τ) where
  onConnectionStateChange _ newState w := (HidDevice.onConnectionStateChange newState w.1, w.2)
  onCharacterRead _ chacUuid w buf len := (w, HidDevice.onCharacterRead w.1 chacUuid buf len)
  onCharacterWrite _ _ _ w := w
  onDescriptorRead _ descUuid w retDesc :=
    let (h, retDesc) := HidDevice.onDescriptorRead w.1 descUuid retDesc
    ((h, w.2), retDesc)
  onDescriptorWrite addr descUuid desc w :=
    (HidDevice.onDescriptorWrite addr descUuid desc w.1, w.2)
  onMtuChanged _ mtu w := (HidDevice.onMtuChanged mtu w.1, w.2)
  onCharacterReadBlob := some fun _ chacUuid w offset buf len =>
    (w, HidDevice.onCharacterReadBlob w.1 chacUuid offset buf len)

/-- `BT_GATT_CHRC_PROP_READ`. -/
abbrev btGattChrcPropRead : UInt16 := 0x02

/-- `BT_GATT_CHRC_PROP_WRITE`. -/
abbrev btGattChrcPropWrite : UInt16 := 0x08

/-- The service of `init_hid_device`: the report map, the HID information and two reports
with one UUID. -/
def hidService : GattService σ :=
  let prop := btGattChrcPropRead ||| btGattChrcPropWrite ||| btGattChrcPropNotify
  { createService (.u16 0x1812) 0 0 with
    characterList :=
      [createCharacter uReportMap prop, createCharacter uHidInfo prop,
       createCharacter uHidReport (prop ||| btGattChrcPropReportRef),
       createCharacter uHidReport (prop ||| btGattChrcPropReportRef)] }

/-- `send_ascII`, with what lies behind `key_map`: a negative `char` is an index past its
end, and no `char` is larger than 128. -/
def sendAscII (serviceList : List (GattService σ)) (h : Hid) (ch : UInt8)
    (beyond : UInt8 × UInt8) : List (Event σ) :=
  if h.device.isPaired ∧ h.device.status &&& descreptorNotification ≠ 0 then
    let key := keyMap.getD ch.toNat beyond
    if key.2 = 0 then []
    else
      let send := gattsSendNotification serviceList h.device.addr h.device.descUuid
      send [key.1, 0, key.2, 0, 0, 0, 0, 0] ++ send (List.replicate 8 0)
  else []

/-! ## The generic access service -/

namespace GenericAccess

/-- `device_name`, with its terminating zero. -/
def deviceName : List UInt8 :=
  [0x49, 0x6E, 0x67, 0x65, 0x6E, 0x69, 0x63, 0x20, 0x42, 0x6C, 0x75, 0x65, 0x5A, 0x00]

/-- `dev_apperance`. -/
def devApperance : List UInt8 := le16 193

/-- `dev_address`. -/
def devAddress : List UInt8 := [0x00, 0x11, 0x22, 0x33, 0x44, 0x55]

/-- `dev_conn_param`. -/
def devConnParam : List UInt8 := le16 6 ++ le16 300 ++ le16 10 ++ le16 2000

/-- The characteristics that can be read, with their values. -/
def values : List (BtUuid × List UInt8) :=
  [(.u16 0x2A00, deviceName), (.u16 0x2A01, devApperance), (.u16 0x2A03, devAddress),
   (.u16 0x2A04, devConnParam)]

/-- `onCharacterRead`. -/
def onCharacterRead (chacUuid : BtUuid) (buf : Mem) (len : UInt16) : Mem × UInt16 :=
  match values.find? fun v => btUuidCmp chacUuid v.1 = 0 with
  | some (_, bytes) => (buf.write 0 bytes, UInt16.ofNat bytes.length)
  | none => (buf, len)

end GenericAccess

/-- `io_cb` of `generic_access.c`. -/
def genericAccessCb : GattsCb σ :=
  { GattsCb.idle with
    onCharacterRead := fun _ chacUuid w buf len =>
      (w, GenericAccess.onCharacterRead chacUuid buf len) }

/-- The service of `init_generic_access`. -/
def genericAccessService : GattService σ :=
  { createService (.u16 0x1800) 0 0 with
    characterList := GenericAccess.values.map fun v => createCharacter v.1 btGattChrcPropRead }

/-- `init_gatt_services`. -/
def initGattServices : List (GattService (Hid × τ)) :=
  registerGattService (registerGattService [] hidService hidCb) genericAccessService
    genericAccessCb

/-! ## The server -/

/-- What happens to the server. -/
inductive Input
  /-- A PDU of a peer, with the memory it lies in and the automatic variables. -/
  | pdu (l : Locals) (addr : BdAddr) (opcode : UInt8) (pdu : Mem) (len : UInt32)
  /-- A peer connects. -/
  | connected (addr : BdAddr)
  /-- A peer disconnects. -/
  | disconnected (addr : BdAddr)
  /-- A key is pressed. -/
  | key (ch : UInt8) (beyond : UInt8 × UInt8)

/-- The server's next state and what it does. -/
def serve (g : GattServices (Hid × τ)) : Input → GattServices (Hid × τ) × List (Event (Hid × τ))
  | .pdu l addr opcode pdu len => receive g l addr opcode pdu len
  | .connected addr => (connChangeCb g addr gattStatusConnected, [])
  | .disconnected addr => (connChangeCb g addr gattStatusDisconnected, [])
  | .key ch beyond => (g, sendAscII g.serviceList g.world.1 ch beyond)

end CCode.Gatt
