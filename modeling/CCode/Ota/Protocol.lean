import CCode.Lib.Bytes

/-!
# The packets of the update protocol

`protocol.c`: a packet is a frame around *valid data*, which is encrypted or not, and the
valid data is a frame around a command and its data. Both frames have a header and a
big-endian length, the inner one also a time stamp and a checksum.

`parse_package` trusts these lengths more than it should. So the buffers are memory that
goes on behind the bytes that were received, the copies are those of `memcpy` with its
`size_t`, and a call also says which accesses it makes.

## Main definitions

* `EncIf`, `encIf` — the interface of the encryption device, and the one in the repository.
* `packValidData`, `packCommData` — the two frames.
* `parsePackage` — the parser, with its accesses.
-/

namespace CCode.Ota

open CCode.Lib

/-! ## Constants -/

/-- `eEncrypt_t`. -/
inductive Encrypt
  | null | rsa | aes
  /-- `TYPE_ENCRYPT`, which only says that the communication is to be encrypted. -/
  | init
  deriving DecidableEq, Repr

/-- The byte of an encryption type in a packet. -/
def Encrypt.byte : Encrypt → UInt8
  | null => 0
  | rsa => 1
  | aes => 2
  | init => 0xFF

/-- `CMD_REQ_ENCRYPT_COMM`. -/
abbrev cmdReqEncryptComm : UInt32 := 1
/-- `CMD_ACK_ENCRYPT_COMM`. -/
abbrev cmdAckEncryptComm : UInt32 := 2
/-- `CMD_REQ_ACTIVITION`. -/
abbrev cmdReqActivition : UInt32 := 6
/-- `CMD_ACK_ACTIVITION`. -/
abbrev cmdAckActivition : UInt32 := 7
/-- `CMD_REQ_NEW_VERSION`. -/
abbrev cmdReqNewVersion : UInt32 := 8
/-- `CMD_ACK_NEW_VERSION`. -/
abbrev cmdAckNewVersion : UInt32 := 9

/-- `COMM_DATA_HEADER`, an `X`. -/
abbrev commDataHeader : UInt8 := 0x58
/-- `VALID_DATA_HEADER[0]`, a `J`. -/
abbrev validDataHeader₀ : UInt8 := 0x4A
/-- `VALID_DATA_HEADER[1]`, a `Z`. -/
abbrev validDataHeader₁ : UInt8 := 0x5A

/-- `COMM_DATA_VALID_DATA_POS`. -/
abbrev commDataValidDataPos : ℕ := 4
/-- `VALID_DATA_TIME_STAMP_POS`. -/
abbrev validDataTimeStampPos : ℕ := 4
/-- `VALID_DATA_CMD_POS`. -/
abbrev validDataCmdPos : ℕ := 8
/-- `VALID_DATA_DATA_POS`. -/
abbrev validDataDataPos : ℕ := 10
/-- `VALID_DATA_MAX_LEN`, also the size of the `data` arrays of the callers. -/
abbrev validDataMaxLen : ℕ := 512

/-- `PARSE_SUCCESS` and so on. -/
inductive ParseResult
  | success | styleError | checksumError | decryptError | otherError
  deriving DecidableEq, Repr

/-! ## Encryption -/

/-- The functions of `enc_if.h`. Each of the first four writes as many bytes as it returns,
none if it fails. -/
structure EncIf where
  encryptRsa : List UInt8 → List UInt8
  decryptRsa : List UInt8 → List UInt8
  encryptAes : List UInt8 → List UInt8
  decryptAes : List UInt8 → List UInt8
  updateAes : List UInt8 → Int

/-- `enc_if.c`, which copies. -/
def encIf : EncIf := ⟨id, id, id, id, fun _ => 0⟩

/-! ## Packing -/

/-- `pack_valid_data`: the bytes it writes, where the clock says `now`. -/
def packValidData (now : Int) (timeOffset cmd : UInt32) (data : List UInt8) : List UInt8 :=
  let totalLen := 4 + 2 + data.length + 1
  let timeStamp := timeOffset + UInt32.ofInt now
  let body := [validDataHeader₀, validDataHeader₁] ++ be16 (UInt16.ofNat totalLen) ++
    be32 timeStamp ++ be16 cmd.toUInt16 ++ data
  body ++ [byteSum body]

/-- The outer frame. -/
def commFrame (type : UInt8) (commData : List UInt8) : List UInt8 :=
  [commDataHeader, type] ++ be16 (UInt16.ofNat commData.length) ++ commData

/-- `pack_comm_data`: the bytes it writes, `none` where it returns zero. -/
def packCommData (enc : EncIf) (mode : Encrypt) (data : List UInt8) : Option (List UInt8) := do
  let commData ← match mode with
    | .null => some data
    | .rsa => some (enc.encryptRsa data)
    | .aes => some (enc.encryptAes data)
    | .init => none
  if commData.length = 0 then none else some (commFrame mode.byte commData)

/-! ## Parsing -/

/-- `sProtocol_t`, without the encryption device and the buffer in which packets are made. -/
structure Protocol where
  mode : Encrypt
  timeStampOffset : Int32

/-- The variables of the caller that `parse_package` fills. -/
structure Reply where
  cmd : UInt32
  data : Mem
  dataLen : Int

/-- An access of `parse_package` to its buffers. -/
inductive Access
  /-- So many bytes of the packet are read from an offset on. -/
  | readBuf (off len : ℕ)
  /-- So many bytes of `data_buf` are read from an offset on. -/
  | readDataBuf (off len : ℕ)
  /-- So many decrypted bytes are written to `data_buf`. -/
  | writeDataBuf (len : ℕ)
  /-- So many bytes are written to the caller's `data`. -/
  | writeData (len : ℕ)
  /-- `data_buf` is freed. -/
  | free
  deriving DecidableEq, Repr

/-- What comes of a call of `parse_package`. -/
structure Outcome where
  ret : ParseResult
  pro : Protocol
  reply : Reply
  trace : List Access

/-- A number as the `size_t` that `memcpy` gets. -/
def sizeT (n : Int) : ℕ := (n % 2 ^ 64).toNat

/-- `check_value_data`, true where it returns zero. -/
def checkValueData (p : Mem) (len : ℕ) : Bool := byteSum (p.read 0 (len - 1)) = p (len - 1)

/-- Where the valid data is: in the packet, or decrypted in `data_buf`. -/
inductive Place
  | buf | dataBuf
  deriving DecidableEq, Repr

/-- A read of the valid data. -/
def Place.read (place : Place) (off len : ℕ) : Access :=
  match place with
  | buf => .readBuf (commDataValidDataPos + off) len
  | dataBuf => .readDataBuf off len

/-- The check of the length and the header of the valid data, true where it fails. -/
def formatError (p : Mem) (validLen : ℕ) : Bool :=
  validLen < validDataTimeStampPos || p 0 ≠ validDataHeader₀ || p 1 ≠ validDataHeader₁ ||
    (ofBe16 (p 2) (p 3)).toNat + validDataTimeStampPos ≠ validLen

/-- What that check reads before it is decided. -/
def formatReads (place : Place) (p : Mem) (validLen : ℕ) : List Access :=
  if validLen < validDataTimeStampPos then []
  else if p 0 ≠ validDataHeader₀ then [place.read 0 1]
  else if p 1 ≠ validDataHeader₁ then [place.read 0 1, place.read 1 1]
  else [place.read 0 1, place.read 1 1, place.read 2 2]

/-- `parse_package` from the check of the valid data on. -/
def parseValidData (now : Int) (pro : Protocol) (reply : Reply) (place : Place) (p : Mem)
    (validLen : ℕ) (trace : List Access) : Outcome :=
  let trace := trace ++ formatReads place p validLen
  if formatError p validLen then
    -- the message with the header in it is printed after the buffer is freed
    ⟨.styleError, pro, reply, trace ++ [.free, place.read 0 1, place.read 1 1]⟩
  else
    let trace := trace ++ [place.read 0 validLen]
    if ¬ checkValueData p validLen then ⟨.checksumError, pro, reply, trace ++ [.free]⟩
    else
      let timeStamp := ofBe32 (p 4) (p 5) (p 6) (p 7)
      let dataLen : Int := validLen - validDataDataPos - 1
      ⟨.success,
        { pro with timeStampOffset := (timeStamp - UInt32.ofInt now).toInt32 },
        { cmd := (ofBe16 (p 8) (p 9)).toUInt32
          dataLen
          data := fun i => if i < sizeT dataLen then p (validDataDataPos + i) else reply.data i },
        trace ++ [place.read validDataTimeStampPos 4, place.read validDataCmdPos 2,
          place.read validDataDataPos (sizeT dataLen), .writeData (sizeT dataLen), .free]⟩

/-- `parse_package` with a packet whose valid data is encrypted. -/
def parseEncrypted (decrypt : List UInt8 → List UInt8) (now : Int) (heap : Mem) (pro : Protocol)
    (reply : Reply) (buf : Mem) (validLen : ℕ) (trace : List Access) : Outcome :=
  let plain := decrypt (buf.read commDataValidDataPos validLen)
  let trace := trace ++ [.readBuf commDataValidDataPos validLen, .writeDataBuf plain.length]
  if plain.length = 0 then ⟨.decryptError, pro, reply, trace ++ [.free]⟩
  else parseValidData now pro reply .dataBuf (heap.write 0 plain) plain.length trace

/-- `parse_package` on `bufLen` bytes at `buf`, where the clock says `now` and `mem_malloc`
gives the block `heap`, or none. -/
def parsePackage (enc : EncIf) (now : Int) (heap : Option Mem) (pro : Protocol) (reply : Reply)
    (buf : Mem) (bufLen : ℕ) : Outcome :=
  match heap with
  | none => ⟨.otherError, pro, reply, []⟩
  | some heap =>
      if buf 0 ≠ commDataHeader then ⟨.styleError, pro, reply, [.readBuf 0 1, .free]⟩
      else
        let validLen := (ofBe16 (buf 2) (buf 3)).toNat
        if validLen + commDataValidDataPos ≠ bufLen then
          ⟨.styleError, pro, reply, [.readBuf 0 1, .readBuf 2 2, .free]⟩
        else
          let trace := [.readBuf 0 1, .readBuf 2 2, .readBuf 1 1]
          if buf 1 = Encrypt.null.byte then
            parseValidData now pro reply .buf (fun i => buf (commDataValidDataPos + i)) validLen
              trace
          else if buf 1 = Encrypt.rsa.byte then
            parseEncrypted enc.decryptRsa now heap pro reply buf validLen trace
          else if buf 1 = Encrypt.aes.byte then
            parseEncrypted enc.decryptAes now heap pro reply buf validLen trace
          else ⟨.decryptError, pro, reply, trace ++ [.free]⟩

end CCode.Ota
