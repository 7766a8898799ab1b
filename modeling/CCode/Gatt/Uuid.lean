import CCode.Lib.Bytes

/-!
# Bluetooth UUIDs

The `bt_uuid_t` of `lib/uuid.c`: a tagged union of a 16-bit, a 32-bit and a 128-bit
UUID. 128-bit UUIDs are stored big-endian whatever the host is; `bt_uuid_to_le` turns
one into the byte order of the ATT wire.

`bt_uuid_to_uuid128` has no case for an unset tag: it leaves its destination alone, and
the comparison that follows looks at whatever that destination held. The constructor
`BtUuid.unspec` carries these sixteen bytes.

## Main definitions

* `BtUuid`, `BtUuid.type` — `bt_uuid_t` and its tag.
* `btUuidToUuid128`, `btUuidCmp`, `btUuidCmpStr` — comparison through the 128-bit form.
* `btStringToUuid` — the textual forms.
* `btUuidToLe` — the ATT wire form.
-/

namespace CCode.Gatt

open CCode.Lib

/-- `uint128_t`: sixteen bytes. -/
abbrev U128 := Vector UInt8 16

/-- `bt_uuid_t`. -/
inductive BtUuid
  /-- `BT_UUID_UNSPEC`, or a tag that was never written. -/
  | unspec (residue : U128)
  /-- `BT_UUID16`, in host order. -/
  | u16 (value : UInt16)
  /-- `BT_UUID32`, in host order. -/
  | u32 (value : UInt32)
  /-- `BT_UUID128`, stored big-endian. -/
  | u128 (value : U128)
  deriving DecidableEq

/-- The tag of a UUID, which is also its width in bits. -/
def BtUuid.type : BtUuid → ℕ
  | .unspec _ => 0
  | .u16 _ => 16
  | .u32 _ => 32
  | .u128 _ => 128

/-- `bluetooth_base_uuid`. -/
def bluetoothBaseUuid : U128 :=
  #v[0x00, 0x00, 0x00, 0x00, 0x00, 0x00, 0x10, 0x00,
     0x80, 0x00, 0x00, 0x80, 0x5F, 0x9B, 0x34, 0xFB]

/-- `bt_uuid16_to_uuid128`: the big-endian word at `BASE_UUID16_OFFSET` of the base. -/
def btUuid16ToUuid128 (v : UInt16) : U128 :=
  (bluetoothBaseUuid.set 2 (v >>> 8).toUInt8).set 3 v.toUInt8

/-- `bt_uuid32_to_uuid128`: the big-endian word at `BASE_UUID32_OFFSET` of the base. -/
def btUuid32ToUuid128 (v : UInt32) : U128 :=
  (((bluetoothBaseUuid.set 0 (v >>> 24).toUInt8).set 1 (v >>> 16).toUInt8).set 2
    (v >>> 8).toUInt8).set 3 v.toUInt8

/-- `bt_uuid_to_uuid128`. -/
def btUuidToUuid128 : BtUuid → U128
  | .u128 v => v
  | .u32 v => btUuid32ToUuid128 v
  | .u16 v => btUuid16ToUuid128 v
  | .unspec residue => residue

/-- `bt_uuid_cmp`: `memcmp` of the two 128-bit forms. -/
def btUuidCmp (uuid₁ uuid₂ : BtUuid) : Int :=
  memcmp (btUuidToUuid128 uuid₁).toList (btUuidToUuid128 uuid₂).toList

/-! ## Textual forms -/

/-- The value of a hexadecimal digit. -/
def hexDigit (c : Char) : Option ℕ :=
  if '0' ≤ c ∧ c ≤ '9' then some (c.toNat - '0'.toNat)
  else if 'a' ≤ c ∧ c ≤ 'f' then some (c.toNat - 'a'.toNat + 10)
  else if 'A' ≤ c ∧ c ≤ 'F' then some (c.toNat - 'A'.toNat + 10)
  else none

/-- Up to `width` hexadecimal digits, with the number read so far, whether there was a
digit, and what is left of the text. -/
def hexDigits : (width : ℕ) → ℕ → Bool → List Char → ℕ × Bool × List Char
  | width + 1, acc, any, c :: cs =>
      match hexDigit c with
      | some d => hexDigits width (acc * 16 + d) true cs
      | none => (acc, any, c :: cs)
  | _, acc, any, cs => (acc, any, cs)

/-- `isspace`. -/
def isSpace (c : Char) : Bool := c = ' ' ∨ ('\t' ≤ c ∧ c ≤ '\r')

/-- What `strtol` and `scanf` accept as a hexadecimal number: blanks, a sign, a `0x`, and
digits. `none` without a digit. -/
def scanHex (width : ℕ) (s : List Char) : Option (Int × List Char) :=
  let s := s.dropWhile isSpace
  let (negative, width, s) :=
    match s with
    | '-' :: cs => (true, width - 1, cs)
    | '+' :: cs => (false, width - 1, cs)
    | cs => (false, width, cs)
  let (width, s) :=
    match s with
    | '0' :: 'x' :: c :: cs => if (hexDigit c).isSome then (width - 2, c :: cs) else (width, s)
    | '0' :: 'X' :: c :: cs => if (hexDigit c).isSome then (width - 2, c :: cs) else (width, s)
    | cs => (width, cs)
  match hexDigits width 0 false s with
  | (v, true, rest) => some (if negative then -(v : Int) else v, rest)
  | (_, false, _) => none

/-- `is_uuid128`. -/
def isUuid128 (s : List Char) : Bool :=
  s.length == 36 && s[8]? == some '-' && s[13]? == some '-' && s[18]? == some '-' &&
    s[23]? == some '-'

/-- `is_base_uuid128`: the text of the base UUID with any 16-bit word in it. The word is
scanned with `%04hx`, the letters after it in either case. -/
def isBaseUuid128 (s : List Char) : Bool :=
  isUuid128 s && s.take 4 == ['0', '0', '0', '0'] &&
    match scanHex 4 (s.drop 4) with
    | some (_, rest) =>
        rest.map Char.toLower == ['-', '0', '0', '0', '0', '-', '1', '0', '0', '0', '-',
          '8', '0', '0', '0', '-', '0', '0', '8', '0', '5', 'f', '9', 'b', '3', '4', 'f', 'b']
    | none => false

/-- `is_uuid32`. -/
def isUuid32 (s : List Char) : Bool := s.length == 8 || s.length == 10

/-- `is_uuid16`. -/
def isUuid16 (s : List Char) : Bool := s.length == 4 || s.length == 6

/-- `bt_string_to_uuid16`: `strtol` in base 16, up to the end or a dash. Without digits
`strtol` returns zero and stops where it started. -/
def btStringToUuid16 (s : List Char) : Option BtUuid :=
  match scanHex s.length s with
  | some (v, []) => some (.u16 (UInt16.ofInt v))
  | some (v, '-' :: _) => some (.u16 (UInt16.ofInt v))
  | some _ => none
  | none => if s.head? = some '-' ∨ s = [] then some (.u16 0) else none

/-- `bt_string_to_uuid32`. -/
def btStringToUuid32 (s : List Char) : Option BtUuid :=
  match scanHex s.length s with
  | some (v, []) => some (.u32 (UInt32.ofInt v))
  | some _ => none
  | none => if s = [] then some (.u32 0) else none

/-- One scanned field of a 128-bit UUID, followed by a dash where the format has one. -/
def scanField (width : ℕ) (dash : Bool) (s : List Char) : Option (Int × List Char) := do
  let (v, rest) ← scanHex width s
  match dash, rest with
  | false, _ => some (v, rest)
  | true, '-' :: cs => some (v, cs)
  | true, _ => none

/-- `bt_string_to_uuid128`: six fields, each stored big-endian. -/
def btStringToUuid128 (s : List Char) : Option BtUuid := do
  let (d₀, s) ← scanField 8 true s
  let (d₁, s) ← scanField 4 true s
  let (d₂, s) ← scanField 4 true s
  let (d₃, s) ← scanField 4 true s
  let (d₄, s) ← scanField 8 false s
  let (d₅, _) ← scanField 4 false s
  let b (v : Int) (shift : ℕ) : UInt8 := UInt8.ofInt (v / 2 ^ shift)
  some (.u128 #v[b d₀ 24, b d₀ 16, b d₀ 8, b d₀ 0, b d₁ 8, b d₁ 0, b d₂ 8, b d₂ 0,
    b d₃ 8, b d₃ 0, b d₄ 24, b d₄ 16, b d₄ 8, b d₄ 0, b d₅ 8, b d₅ 0])

/-- `bt_string_to_uuid`. -/
def btStringToUuid (s : List Char) : Option BtUuid :=
  if isBaseUuid128 s then btStringToUuid16 (s.drop 4)
  else if isUuid128 s then btStringToUuid128 s
  else if isUuid32 s then btStringToUuid32 s
  else if isUuid16 s then btStringToUuid16 s
  else none

/-- `bt_uuid_cmp_str`. A text that is no UUID leaves the second operand unset, with the
bytes `residue` in it. -/
def btUuidCmpStr (uuid₁ : BtUuid) (s : List Char) (residue : U128) : Int :=
  btUuidCmp uuid₁ ((btStringToUuid s).getD (.unspec residue))

/-- `GATT_PRIM_SVC_UUID_STR`. -/
def gattPrimSvcUuidStr : List Char := ['0', 'x', '2', '8', '0', '0']

/-- `GATT_CHARAC_UUID_STR`. -/
def gattCharacUuidStr : List Char := ['0', 'x', '2', '8', '0', '3']

theorem btStringToUuid_gattPrimSvcUuidStr :
    btStringToUuid gattPrimSvcUuidStr = some (.u16 0x2800) := by decide

theorem btStringToUuid_gattCharacUuidStr :
    btStringToUuid gattCharacUuidStr = some (.u16 0x2803) := by decide

/-! ## The wire form -/

/-- `bswap_128`. -/
def bswap128 (v : U128) : List UInt8 := v.toList.reverse

/-- `bt_uuid_to_le`: the little-endian wire form; an unset UUID has none. -/
def btUuidToLe : BtUuid → Option (List UInt8)
  | .u16 v => some (le16 v)
  | .u32 v => some (bswap128 (btUuid32ToUuid128 v))
  | .u128 v => some (bswap128 v)
  | .unspec _ => none

end CCode.Gatt
