import CCode.Gatt.Uuid

/-!
# The attribute protocol layer

The opcodes and error codes of `att.h`, the two opcode tables of `att.c`, and the two
functions through which every PDU passes: `att_io_receive` on the way in and `att_send`
on the way out. The tables are scanned linearly up to their terminating zero entry, as
the source does, so an opcode of zero is never found.

`add_att_pending` and `remove_att_pending` are empty in the source and have no
counterpart here.

## Main definitions

* `AttOpType`, `attOpcodeTypeTable`, `getOpType` — what kind of PDU an opcode starts.
* `attReqRspMappingTable`, `getReqOpcode` — the request a response answers.
* `attSend`, `attIoReceive` — the dispatch on that kind.
-/

namespace CCode.Gatt

open CCode.Lib

/-! ## Constants of `att.h` -/

abbrev btAttOpErrorRsp : UInt8 := 0x01
abbrev btAttOpMtuReq : UInt8 := 0x02
abbrev btAttOpMtuRsp : UInt8 := 0x03
abbrev btAttOpFindInfoReq : UInt8 := 0x04
abbrev btAttOpFindInfoRsp : UInt8 := 0x05
abbrev btAttOpFindByTypeValReq : UInt8 := 0x06
abbrev btAttOpFindByTypeValRsp : UInt8 := 0x07
abbrev btAttOpReadByTypeReq : UInt8 := 0x08
abbrev btAttOpReadByTypeRsp : UInt8 := 0x09
abbrev btAttOpReadReq : UInt8 := 0x0a
abbrev btAttOpReadRsp : UInt8 := 0x0b
abbrev btAttOpReadBlobReq : UInt8 := 0x0c
abbrev btAttOpReadBlobRsp : UInt8 := 0x0d
abbrev btAttOpReadMultReq : UInt8 := 0x0e
abbrev btAttOpReadMultRsp : UInt8 := 0x0f
abbrev btAttOpReadByGrpTypeReq : UInt8 := 0x10
abbrev btAttOpReadByGrpTypeRsp : UInt8 := 0x11
abbrev btAttOpWriteReq : UInt8 := 0x12
abbrev btAttOpWriteRsp : UInt8 := 0x13
abbrev btAttOpWriteCmd : UInt8 := 0x52
abbrev btAttOpSignedWriteCmd : UInt8 := 0xD2
abbrev btAttOpPrepWriteReq : UInt8 := 0x16
abbrev btAttOpPrepWriteRsp : UInt8 := 0x17
abbrev btAttOpExecWriteReq : UInt8 := 0x18
abbrev btAttOpExecWriteRsp : UInt8 := 0x19
abbrev btAttOpHandleValNot : UInt8 := 0x1B
abbrev btAttOpHandleValInd : UInt8 := 0x1D
abbrev btAttOpHandleValConf : UInt8 := 0x1E

abbrev btAttErrorRequestNotSupported : UInt8 := 0x06
abbrev btAttErrorAttributeNotFound : UInt8 := 0x0A

abbrev btGattChrcPropNotify : UInt16 := 0x10
abbrev btGattChrcPropIndicate : UInt16 := 0x20
abbrev btGattChrcPropReportRef : UInt16 := 0x0100

abbrev findInfoUuidType16Bit : UInt8 := 0x01

/-- `GATT_CLIENT_CHARAC_CFG_UUID`. -/
abbrev gattClientCharacCfgUuid : UInt16 := 0x2902

/-- `GATT_REPORT_REFERENCE`. -/
abbrev gattReportReference : UInt16 := 0x2908

/-- `BT_ATT_DEFAULT_LE_MTU`. -/
abbrev btAttDefaultLeMtu : Int := 23

/-! ## Opcode tables -/

/-- `enum att_op_type`. -/
inductive AttOpType
  | req | rsp | cmd | ind | not | conf | unknown
  deriving DecidableEq

/-- `att_opcode_type_table`, its terminating entry left out. -/
def attOpcodeTypeTable : List (UInt8 × AttOpType) :=
  [(btAttOpErrorRsp, .rsp),
   (btAttOpMtuReq, .req),
   (btAttOpMtuRsp, .rsp),
   (btAttOpFindInfoReq, .req),
   (btAttOpFindInfoRsp, .rsp),
   (btAttOpFindByTypeValReq, .req),
   (btAttOpFindByTypeValRsp, .rsp),
   (btAttOpReadByTypeReq, .req),
   (btAttOpReadByTypeRsp, .rsp),
   (btAttOpReadReq, .req),
   (btAttOpReadRsp, .rsp),
   (btAttOpReadBlobReq, .req),
   (btAttOpReadBlobRsp, .rsp),
   (btAttOpReadMultReq, .req),
   (btAttOpReadMultRsp, .rsp),
   (btAttOpReadByGrpTypeReq, .req),
   (btAttOpReadByGrpTypeRsp, .rsp),
   (btAttOpWriteReq, .req),
   (btAttOpWriteRsp, .rsp),
   (btAttOpWriteCmd, .cmd),
   (btAttOpSignedWriteCmd, .cmd),
   (btAttOpPrepWriteReq, .req),
   (btAttOpPrepWriteRsp, .rsp),
   (btAttOpExecWriteReq, .req),
   (btAttOpExecWriteRsp, .rsp),
   (btAttOpHandleValNot, .not),
   (btAttOpHandleValInd, .ind),
   (btAttOpHandleValConf, .conf)]

/-- `get_op_type`. -/
def getOpType (opcode : UInt8) : AttOpType :=
  ((attOpcodeTypeTable.find? fun e => e.1 == opcode).map Prod.snd).getD .unknown

/-- `att_req_rsp_mapping_table`, its terminating entry left out. -/
def attReqRspMappingTable : List (UInt8 × UInt8) :=
  [(btAttOpMtuReq, btAttOpMtuRsp),
   (btAttOpFindInfoReq, btAttOpFindInfoRsp),
   (btAttOpFindByTypeValReq, btAttOpFindByTypeValRsp),
   (btAttOpReadByTypeReq, btAttOpReadByTypeRsp),
   (btAttOpReadReq, btAttOpReadRsp),
   (btAttOpReadBlobReq, btAttOpReadBlobRsp),
   (btAttOpReadMultReq, btAttOpReadMultRsp),
   (btAttOpReadByGrpTypeReq, btAttOpReadByGrpTypeRsp),
   (btAttOpWriteReq, btAttOpWriteRsp),
   (btAttOpPrepWriteReq, btAttOpPrepWriteRsp),
   (btAttOpExecWriteReq, btAttOpExecWriteRsp)]

/-- `get_req_opcode`. -/
def getReqOpcode (rspOpcode : UInt8) : UInt8 :=
  ((attReqRspMappingTable.find? fun e => e.2 == rspOpcode).map Prod.fst).getD 0

/-! ## PDUs -/

/-- `bdaddr_t`. -/
structure BdAddr where
  b : Vector UInt8 6
  deriving DecidableEq

/-- An attribute protocol PDU: its opcode and its parameters. -/
structure Pdu where
  opcode : UInt8
  params : List UInt8
  deriving DecidableEq

/-- `att_send`: the PDUs handed to the peer's socket. An opcode of unknown type, and a
command, are not sent at all. -/
def attSend (opcode : UInt16) (pdu : List UInt8) : List Pdu :=
  match getOpType opcode.toUInt8 with
  | .req | .ind | .conf | .rsp | .not => [⟨opcode.toUInt8, pdu⟩]
  | .cmd | .unknown => []

/-- `att_io_receive`: `onReceive` sees requests, notifications, indications,
confirmations and responses; everything else is dropped here. The 32-bit length is
narrowed to the 16 bits of `onReceive`'s parameter. -/
def attIoReceive {α : Type} (onReceive : BdAddr → UInt8 → Mem → UInt16 → α) (dropped : α)
    (addr : BdAddr) (opcode : UInt8) (pdu : Mem) (len : UInt32) : α :=
  match getOpType opcode with
  | .req | .not | .ind | .conf | .rsp => onReceive addr opcode pdu len.toUInt16
  | .cmd | .unknown => dropped

end CCode.Gatt
