import CCode.Lib.Bytes

/-!
# The packets of the LED controller

`protocol.c`, `led.c` and the loop of `main.c`: a device asks a server to log it in and sets its
three LEDs as it is told. It has one buffer, in which it receives and from which it sends, and
nothing clears it between two packets.

`check_buf` takes the length of a packet from the packet. The bytes of the length are signed
`char`s, and the expressions with them may be negative; a shift of a negative value is the
product that compilers make of it. So the place of the checksum may be anywhere, also before the
buffer, and what the buffer is in is a function on all offsets.

## Main definitions

* `Buffer`, `put` — memory around the buffer, and a write.
* `dataLen`, `checkBuf` — the check of a packet.
* `dispatch` — what the loop does with a packet that passes.
* `strLogin`, `strReport` — the packets that are sent.
* `Device.receive`, `Device.step` — a packet arrives, and a round of the loop.
-/

namespace CCode.LedCtrl

open CCode.Lib

/-- Memory, seen from `buffer`. -/
abbrev Buffer := ℤ → UInt8

/-- The bytes are written from `p` on. -/
def put (buf : Buffer) (p : ℤ) (bs : List UInt8) : Buffer := fun i =>
  if p ≤ i then (bs[(i - p).toNat]?).getD (buf i) else buf i

/-! ## Constants -/

/-- `LEN_POS`. -/
abbrev lenPos : ℤ := 2
/-- `VERSION_POS`. -/
abbrev versionPos : ℤ := 4
/-- `CMD_POS`. -/
abbrev cmdPos : ℤ := 8
/-- `DATA_POS`. -/
abbrev dataPos : ℤ := 10

/-- `PREAMBLE`. -/
def preamble : List UInt8 := [0x4A, 0x5A]
/-- `DEVICE_ID`. -/
def devId : Vector UInt8 16 :=
  #v[0x30, 0x30, 0x30, 0x30, 0x30, 0x30, 0x30, 0x30,
    0x30, 0x30, 0x30, 0x30, 0x30, 0x30, 0x30, 0x31]
/-- `VERSION`. -/
def version : List UInt8 := [0x00, 0x00, 0x01, 0x01]

/-- `CMD_LOGIN`. -/
abbrev cmdLogin : UInt8 := 0x01
/-- `CMD_ACK_LOGIN`. -/
abbrev cmdAckLogin : UInt8 := 0x02
/-- `CMD_SET_STATUS`. -/
abbrev cmdSetStatus : UInt8 := 0x03
/-- `CMD_GET_STATUS`. -/
abbrev cmdGetStatus : UInt8 := 0x04
/-- `CMD_REPORT_STATUS`. -/
abbrev cmdReportStatus : UInt8 := 0x05

/-! ## The check -/

/-- A `char` as an `int`. -/
def charVal (b : UInt8) : ℤ := b.toInt8.toInt

/-- `VERSION_POS+(buf[LEN_POS] << 8)+(buf[LEN_POS+1])`. -/
def dataLen (buf : Buffer) : ℤ :=
  versionPos + charVal (buf lenPos) * 2 ^ 8 + charVal (buf (lenPos + 1))

/-- The sum of the bytes from `VERSION_POS` to before the last one. -/
def sumTo (buf : Buffer) (len : ℤ) : UInt8 :=
  byteSum ((List.range (len - 1 - versionPos).toNat).map fun i : ℕ => buf (versionPos + i))

/-- The checksum is right. -/
def SumOk (buf : Buffer) : Prop := sumTo buf (dataLen buf) = buf (dataLen buf - 1)

instance (buf : Buffer) : Decidable (SumOk buf) := inferInstanceAs (Decidable (_ = _))

/-- The device is the one that is meant. -/
def IdOk (buf : Buffer) : Prop := ∀ i : Fin 16, buf (dataPos + (i : ℕ)) = devId[i]

instance (buf : Buffer) : Decidable (IdOk buf) :=
  inferInstanceAs (Decidable (∀ i : Fin 16, buf (dataPos + (i : ℕ)) = devId[i]))

/-- `check_buf`. -/
def checkBuf (buf : Buffer) (len : ℤ) : ℤ :=
  if len < versionPos then -1
  else if dataLen buf > len then -1
  else if ¬ SumOk buf then -2
  else if ¬ IdOk buf then -3
  else 0

/-! ## What is done with a packet -/

/-- What the loop of `main` does with a packet, with the arguments of the calls of
`led_ctrl`. -/
inductive Command
  | ackLogin
  | setStatus (calls : List (UInt8 × UInt8))
  | getStatus
  | unknown
  deriving DecidableEq, Repr

/-- The calls for `CMD_SET_STATUS`, with `'r'`, `'g'` and `'b'`. -/
def ledCalls (buf : Buffer) : List (UInt8 × UInt8) :=
  (if buf (dataPos + 16) = 1 then [(114, 48 + buf (dataPos + 17))] else []) ++
  (if buf (dataPos + 16) = 2 then [(103, 48 + buf (dataPos + 17))] else []) ++
  (if buf (dataPos + 16) = 3 then [(98, 48 + buf (dataPos + 17))] else [])

/-- The `switch` in `main`. -/
def dispatch (buf : Buffer) : Command :=
  if buf (cmdPos + 1) = cmdAckLogin then .ackLogin
  else if buf (cmdPos + 1) = cmdSetStatus then .setStatus (ledCalls buf)
  else if buf (cmdPos + 1) = cmdGetStatus then .getStatus
  else .unknown

/-- The verdict on the bytes just received and, if they are accepted, the command. -/
def handle (buf : Buffer) (recvNum : ℤ) : ℤ × Option Command :=
  (checkBuf buf recvNum, if checkBuf buf recvNum < 0 then none else some (dispatch buf))

/-- `led_state`. -/
abbrev LedState := Fin 3 → UInt8

/-- `led_ctrl`: the state, without the command for the shell. -/
def ledCtrl (leds : LedState) (led state : UInt8) : LedState :=
  if state ≠ 48 ∧ state ≠ 49 then leds
  else
    let on := if state = 48 then 0 else 1
    if led = 114 then Function.update leds 0 on
    else if led = 103 then Function.update leds 1 on
    else if led = 98 then Function.update leds 2 on
    else leds

/-- `checksum`. -/
def checksum (buf : Buffer) : Buffer :=
  put buf (dataLen buf - 1) [sumTo buf (dataLen buf)]

/-- What `str_login` and `str_report` have in common: the header, and the bytes behind the
command. -/
def strPacket (len : List UInt8) (cmd : UInt8) (data : List UInt8) (buf : Buffer) : Buffer :=
  let buf := put buf 0 preamble
  let buf := put buf lenPos len
  let buf := put buf versionPos version
  let buf := put buf cmdPos [0x00, cmd]
  checksum (put buf dataPos data)

/-- `str_login`. -/
def strLogin (buf : Buffer) : Buffer := strPacket [0x00, 0x17] cmdLogin devId.toList buf

/-- `str_report`. -/
def strReport (leds : LedState) (buf : Buffer) : Buffer :=
  strPacket [0x00, 0x1A] cmdReportStatus (devId.toList ++ [leds 0, leds 1, leds 2]) buf

/-! ## The device -/

/-- The buffer and the LEDs. -/
structure Device where
  buffer : Buffer
  ledState : LedState

/-- The command is carried out. A status that is set is also reported. -/
def Device.carryOut (d : Device) : Command → Device
  | .ackLogin | .unknown => d
  | .setStatus calls =>
      let leds := calls.foldl (fun leds call => ledCtrl leds call.1 call.2) d.ledState
      ⟨strReport leds d.buffer, leds⟩
  | .getStatus => ⟨strReport d.ledState d.buffer, d.ledState⟩

/-- A packet arrives. -/
def Device.receive (d : Device) (data : List UInt8) : Device :=
  let d := { d with buffer := put d.buffer 0 data }
  match (handle d.buffer data.length).2 with
  | none => d
  | some cmd => d.carryOut cmd

/-- What happens in the loop of `main`: a login request is sent, or a packet arrives. -/
inductive Event
  | login
  | packet (data : List UInt8)

/-- A round of the loop. -/
def Device.step (d : Device) : Event → Device
  | .login => { d with buffer := strLogin d.buffer }
  | .packet data => d.receive data

/-! ## Reads of what was written -/

/-- A byte that was written. -/
theorem put_apply (buf : Buffer) (p : ℤ) {bs : List UInt8} {i : ℕ} (h : i < bs.length) :
    put buf p bs (p + i) = bs[i] := by
  have hi : (p + i - p).toNat = i := by omega
  rw [put, if_pos (by omega), hi, List.getElem?_eq_getElem h, Option.getD_some]

/-- A byte of the packet does not depend on what was in the buffer. -/
theorem put_congr (buf buf' : Buffer) {bs : List UInt8} {i : ℕ} (h : i < bs.length) :
    put buf 0 bs i = put buf' 0 bs i := by
  have h₁ := put_apply buf 0 h
  have h₂ := put_apply buf' 0 h
  rw [zero_add] at h₁ h₂
  rw [h₁, h₂]

end CCode.LedCtrl
