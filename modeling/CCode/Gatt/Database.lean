import CCode.Gatt.Att

/-!
# Services, characteristics and their handles

The records of `gatt.c` and the handle allocator. A service gets its handles when it is
registered: one for itself, then two to four for each of its characteristics, counted
upwards in 16 bits from the end of the last registered service.

`init_service_handle_value` reports that no handle is left, but
`register_gatt_service` does not look at the report.

## Main definitions

* `GattCharacter`, `GattsCb`, `GattService` — the records.
* `initServiceHandleValueCb`, `initServiceHandleValue` — the allocator.
* `registerGattService` — registration on a list of services.
-/

namespace CCode.Gatt

open CCode.Lib

/-- `struct gatt_character`. A handle of zero stands for a descriptor that is absent. -/
structure GattCharacter where
  uuid : BtUuid
  typeHandle : UInt16
  valueHandle : UInt16
  descHandle : UInt16
  rptRefHandle : UInt16
  prop : UInt16
  deriving DecidableEq

/-- `create_character`: everything but the UUID and the properties is cleared. -/
def createCharacter (uuid : BtUuid) (prop : UInt16) : GattCharacter :=
  { uuid, prop, typeHandle := 0, valueHandle := 0, descHandle := 0, rptRefHandle := 0 }

/-- `struct gatts_cb`: the callbacks of a service, over the private state `σ` of the
services. A read callback gets the response buffer and its length, and leaves both
changed or not. Only `onCharacterReadBlob` may be missing. -/
structure GattsCb (σ : Type) where
  onConnectionStateChange : BdAddr → Int → σ → σ
  onCharacterRead : BdAddr → BtUuid → σ → Mem → UInt16 → σ × Mem × UInt16
  onCharacterWrite : BdAddr → BtUuid → List UInt8 → σ → σ
  onDescriptorRead : BdAddr → BtUuid → σ → UInt16 → σ × UInt16
  onDescriptorWrite : BdAddr → BtUuid → UInt16 → σ → σ
  onMtuChanged : BdAddr → Int → σ → σ
  onCharacterReadBlob :
    Option (BdAddr → BtUuid → σ → Int → Mem → UInt16 → σ × Mem × UInt16)

/-- `struct gatt_service`. -/
structure GattService (σ : Type) where
  handleStart : UInt16
  handleEnd : UInt16
  uuid : BtUuid
  characterList : List GattCharacter
  ioCb : GattsCb σ
  mtu : Int

/-- Callbacks that change nothing and provide nothing. -/
def GattsCb.idle {σ : Type} : GattsCb σ where
  onConnectionStateChange _ _ w := w
  onCharacterRead _ _ w buf len := (w, buf, len)
  onCharacterWrite _ _ _ w := w
  onDescriptorRead _ _ w desc := (w, desc)
  onDescriptorWrite _ _ _ w := w
  onMtuChanged _ _ w := w
  onCharacterReadBlob := none

/-- `create_service`. The handle fields come from `malloc` and hold anything; the
callbacks are set by the registration. -/
def createService {σ : Type} (uuid : BtUuid) (handleStart handleEnd : UInt16) : GattService σ :=
  { handleStart, handleEnd, uuid, characterList := [], ioCb := .idle, mtu := btAttDefaultLeMtu }

/-- A notifying or indicating characteristic has a client configuration descriptor. -/
def GattCharacter.hasDesc (c : GattCharacter) : Bool :=
  c.prop &&& btGattChrcPropNotify ≠ 0 ∨ c.prop &&& btGattChrcPropIndicate ≠ 0

/-- `init_service_handle_value_cb`: the handles of one characteristic after the handle
`handleEnd`, and the new end. All sums are 16-bit. -/
def initServiceHandleValueCb (c : GattCharacter) (handleEnd : UInt16) :
    GattCharacter × UInt16 :=
  if c.hasDesc then
    if c.prop &&& btGattChrcPropReportRef ≠ 0 then
      ({ c with
          typeHandle := handleEnd + 1
          valueHandle := handleEnd + 2
          descHandle := handleEnd + 3
          rptRefHandle := handleEnd + 4 }, handleEnd + 4)
    else
      ({ c with
          typeHandle := handleEnd + 1
          valueHandle := handleEnd + 2
          descHandle := handleEnd + 3 }, handleEnd + 3)
  else
    ({ c with
        typeHandle := handleEnd + 1
        valueHandle := handleEnd + 2
        descHandle := 0 }, handleEnd + 2)

/-- `queue_foreach(character_list, init_service_handle_value_cb, service)`. -/
def initCharacters : List GattCharacter → UInt16 → List GattCharacter × UInt16
  | [], handleEnd => ([], handleEnd)
  | c :: cs, handleEnd =>
      let (c', handleEnd') := initServiceHandleValueCb c handleEnd
      let (cs', last) := initCharacters cs handleEnd'
      (c' :: cs', last)

/-- The handle after which the next service is laid out: the end of the last registered
one, zero without one. -/
def lastHandleValue {σ : Type} (serviceList : List (GattService σ)) : UInt16 :=
  (serviceList.getLast?.map GattService.handleEnd).getD 0

/-- `init_service_handle_value`: the service with its handles, or `none` for
`GATT_FAILED_NOMEM`, which leaves it alone. -/
def initServiceHandleValue {σ : Type} (serviceList : List (GattService σ))
    (service : GattService σ) : Option (GattService σ) :=
  let last := lastHandleValue serviceList
  if last ≥ 0xFFFF then none
  else
    let start := last + 1
    let (cs, handleEnd) := initCharacters service.characterList start
    some { service with handleStart := start, handleEnd, characterList := cs }

/-- `register_gatt_service` of a service that is not in the list yet. The result of
`init_service_handle_value` is not looked at: a service for which it failed is appended
with the handle fields it had. -/
def registerGattService {σ : Type} (serviceList : List (GattService σ))
    (service : GattService σ) (ioCb : GattsCb σ) : List (GattService σ) :=
  let service := (initServiceHandleValue serviceList service).getD service
  serviceList ++ [{ service with ioCb }]

end CCode.Gatt
