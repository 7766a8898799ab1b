import CCode.Lib.Bytes

/-!
# The process communication library

`proc_comm.c`: the server's receive callback, which answers a request in the buffer it
came in, and the client library's callbacks that write a request into that buffer and read
the reply out of it.

A registered client is a heap object, so its address is part of it: the list is searched
by id and unlinked by address. What `malloc` and the kernel return is an input, and so is
the status of a message that the server passes on.

## Main definitions

* `ClientId`, `IpcCmd`, `PcSClient`, `PcServer` — the records.
* `pcServerRecvCb` — the server's callback.
* `pcReqCreateClientReqCb`, `pcReqDestroyClientReqCb`, `pcCGetClientReqCb`,
  `pcCSendOutCb` — the requests.
* `pcReqCreateClientRspCb`, `pcReqDestroyClientRspCb`, `pcCGetClientRspCb` — the replies.
-/

namespace CCode.MemShare

open CCode.Lib

/-! ## Constants -/

abbrev cmdGetServerReq : UInt32 := 0
abbrev cmdGetServerRsp : UInt32 := 1
abbrev cmdCloseServerReq : UInt32 := 2
abbrev cmdCloseServerRsp : UInt32 := 3
abbrev cmdGetClientReq : UInt32 := 4
abbrev cmdGetClientRsp : UInt32 := 5
abbrev cmdDataSendReq : UInt32 := 6
abbrev cmdDataSendRsp : UInt32 := 7

/-- `CMD_SUCCESS`. -/
abbrev cmdSuccess : UInt32 := 0
/-- `CMD_FAILED`, which is -1. -/
abbrev cmdFailed : UInt32 := 0xFFFFFFFF
/-- `CMD_CLIENT_NOT_FOUNT`, which is -2. -/
abbrev cmdClientNotFount : UInt32 := 0xFFFFFFFE

/-- `MAX_CLIENT_ID_LEN`. -/
abbrev maxClientIdLen : ℕ := 8
/-- `RESERVE_SIZE`. -/
abbrev reserveSize : UInt32 := 64
/-- `CMD_NSEMS`. -/
abbrev cmdNsems : UInt32 := 3

/-! ## Records -/

/-- `struct client_id`. The bytes behind the length are whatever was there before. -/
structure ClientId where
  data : Vector UInt8 maxClientIdLen
  len : UInt32
  deriving DecidableEq

/-- The bytes of an id. -/
def ClientId.bytes (id : ClientId) : List UInt8 := id.data.toList.take id.len.toNat

/-- `struct ipc_cmd`: what identifies a channel. The size is as wide as it is sent. -/
structure IpcCmd where
  semid : UInt32
  nsems : UInt32
  shmid : UInt32
  size : UInt32
  deriving DecidableEq

/-- `struct pc_s_client` at its address. -/
structure PcSClient where
  addr : ℕ
  clientCmd : IpcCmd
  id : ClientId
  pid : UInt32
  deriving DecidableEq

/-- `struct pc_server`; either callback may be null. An id field of a message is the eight
bytes it has there. -/
structure PcServer where
  isBroadcaseCb : Option (List UInt8 → UInt32 → Bool)
  isBcMatchCb : Option (List UInt8 → List UInt8 → UInt32 → Bool)
  clientList : List PcSClient

/-- What `malloc` and the kernel return for a new client: its address, the old contents of
its id, and the identifiers of its semaphores and its memory. -/
structure Alloc where
  addr : ℕ
  residue : Vector UInt8 maxClientIdLen
  semid : UInt32
  shmid : UInt32

/-! ## The list of clients -/

/-- `list_find_client_cb`. -/
def listFindClientCb (id : List UInt8) (idLen : UInt32) (client : PcSClient) : Bool :=
  client.id.len = idLen ∧
    memcmp (client.id.data.toList.take idLen.toNat) (id.take idLen.toNat) = 0

/-- `find_client`. -/
def findClient (list : List PcSClient) (id : List UInt8) (idLen : UInt32) :
    Option PcSClient :=
  list.find? (listFindClientCb id idLen)

/-- `remove_client`: `queue_remove` compares pointers. -/
def removeClient (list : List PcSClient) (client : PcSClient) : List PcSClient :=
  list.eraseP fun c => c.addr = client.addr

/-- The id of a new client: `memcpy` of as many bytes as it has, over what its memory
held. -/
def ClientId.copied (residue : Vector UInt8 maxClientIdLen) (id : List UInt8) (idLen : UInt32) :
    ClientId where
  data := Vector.ofFn fun i => if i.val < idLen.toNat then id.getD i 0 else residue[i]
  len := idLen

/-- `create_remote_server`: the new client, or `none` for a null pointer. `alloc` is `none`
if an allocation or the creation of the channel fails. -/
def createRemoteServer (server : PcServer) (bufferSize : UInt32) (id : List UInt8)
    (idLen pid : UInt32) (alloc : Option Alloc) : PcServer × Option PcSClient :=
  match findClient server.clientList id idLen with
  | some _ => (server, none)
  | none =>
      if idLen.toInt32 > 8 then (server, none)
      else
        match alloc with
        | none => (server, none)
        | some a =>
            let client : PcSClient :=
              { addr := a.addr
                clientCmd := ⟨a.semid, cmdNsems, a.shmid, reserveSize + bufferSize⟩
                id := .copied a.residue id idLen
                pid }
            ({ server with clientList := server.clientList ++ [client] }, some client)

/-- `destroy_remote_server`, with whether it succeeded. -/
def destroyRemoteServer (server : PcServer) (id : List UInt8) (idLen : UInt32) :
    PcServer × Bool :=
  match findClient server.clientList id idLen with
  | none => (server, false)
  | some client =>
      ({ server with clientList := removeClient server.clientList client }, true)

/-! ## Messages -/

/-- `struct pc_comm_data`: the fields of a message in a buffer. -/
structure PcCommData where
  idLen : UInt32
  sId : List UInt8
  dId : List UInt8
  dataLen : UInt32
  data : List UInt8

/-- The message in the buffer of a `CMD_DATA_SEND_REQ`:
`| cmd | id_len | s_id | d_id | reserve | d_len | data |`. -/
def commData (buf : Mem) : PcCommData :=
  { idLen := buf.u32 4
    sId := buf.read 8 maxClientIdLen
    dId := buf.read 16 maxClientIdLen
    dataLen := buf.u32 40
    data := buf.read 44 (buf.u32 40).toNat }

/-- `broadcast_send_cb`: whether `pc_s_send` is called for the client. The sender is left
out by its address. -/
def broadcastSendCb (server : PcServer) (sender : Option PcSClient) (d : PcCommData)
    (client : PcSClient) : Bool :=
  sender.map PcSClient.addr ≠ some client.addr ∧
    (server.isBcMatchCb.map fun isBcMatchCb =>
      isBcMatchCb d.dId client.id.data.toList d.idLen) ≠ some false

/-- `broadcast_send`: the clients that get the message, in order. -/
def broadcastSend (server : PcServer) (d : PcCommData) : List PcSClient :=
  server.clientList.filter
    (broadcastSendCb server (findClient server.clientList d.sId d.idLen) d)

/-- A response: its opcode, its state, and what follows. -/
def rspBytes (cmd state : UInt32) (rest : List UInt8) : List UInt8 := le32 cmd ++ le32 state ++ rest

/-- The fields of a channel in a response. -/
def IpcCmd.bytes (c : IpcCmd) : List UInt8 :=
  le32 c.semid ++ le32 c.nsems ++ le32 c.shmid ++ le32 c.size

/-- `pc_server_recv_cb`: the server, the buffer it leaves, and the messages it passed on.
`alloc` is what a new client gets, `status` what `pc_s_send` leaves in `err` for the client
it sends to. -/
def pcServerRecvCb (server : PcServer) (buf : Mem) (alloc : Option Alloc)
    (status : PcSClient → UInt32) : PcServer × Mem × List (PcSClient × PcCommData) :=
  let cmd := buf.u32 0
  let idLen := buf.u32 4
  let id := buf.read 8 maxClientIdLen
  if cmd = cmdGetServerReq then
    match createRemoteServer server (buf.u32 16) id idLen (buf.u32 20) alloc with
    | (server, none) => (server, buf.write 0 (rspBytes cmdGetServerRsp cmdFailed []), [])
    | (server, some client) =>
        (server,
          buf.write 0 (rspBytes cmdGetServerRsp cmdSuccess client.clientCmd.bytes), [])
  else if cmd = cmdCloseServerReq then
    match destroyRemoteServer server id idLen with
    | (server, false) => (server, buf.write 0 (rspBytes cmdCloseServerRsp cmdFailed []), [])
    | (server, true) => (server, buf.write 0 (rspBytes cmdCloseServerRsp cmdSuccess []), [])
  else if cmd = cmdGetClientReq then
    match findClient server.clientList id idLen with
    | none => (server, buf.write 0 (rspBytes cmdGetClientRsp cmdFailed []), [])
    | some client =>
        (server,
          buf.write 0 (rspBytes cmdGetClientRsp cmdSuccess client.clientCmd.bytes), [])
  else if cmd = cmdDataSendReq then
    let d := commData buf
    if (server.isBroadcaseCb.map fun isBroadcaseCb => isBroadcaseCb d.dId d.idLen) = some true
    then
      (server, buf.write 0 (rspBytes cmdDataSendRsp cmdSuccess []),
        (broadcastSend server d).map (·, d))
    else
      match findClient server.clientList d.dId d.idLen with
      | none => (server, buf.write 0 (rspBytes cmdDataSendRsp cmdClientNotFount []), [])
      | some client =>
          (server, buf.write 0 (rspBytes cmdDataSendRsp (status client) []), [(client, d)])
  else (server, buf, [])

/-! ## The client library -/

/-- An id as it is sent: a cleared array with the bytes of the id copied in. -/
def ClientId.padded (id : ClientId) : List UInt8 :=
  id.bytes ++ List.replicate (maxClientIdLen - id.len.toNat) 0

/-- A request that starts with an id: `| cmd | id_len | id |` and what follows. -/
def idRequest (cmd : UInt32) (id : ClientId) (rest : List UInt8) (buf : Mem) : Mem :=
  buf.write 0 (le32 cmd ++ le32 id.len ++ id.padded ++ rest)

/-- `pc_req_create_client_req_cb`: `| cmd | id_len | id | mem_size | pid |`. -/
def pcReqCreateClientReqCb (id : ClientId) (size pid : UInt32) : Mem → Mem :=
  idRequest cmdGetServerReq id (le32 size ++ le32 pid)

/-- `pc_req_destroy_client_req_cb`: `| cmd | id_len | id |`. -/
def pcReqDestroyClientReqCb (id : ClientId) : Mem → Mem := idRequest cmdCloseServerReq id []

/-- `pc_c_get_client_req_cb`: `| cmd | id_len | id |`. -/
def pcCGetClientReqCb (id : ClientId) : Mem → Mem := idRequest cmdGetClientReq id []

/-- `pc_c_send_out_cb`: `| cmd | id_len | s_id | d_id | reserve | d_len | data |`. One
array serves both ids, so a shorter destination is followed by bytes of the sender's id.
`payload` is what `out_cb` writes. -/
def pcCSendOutCb (s d : ClientId) (payload : List UInt8) (buf : Mem) : Mem :=
  ((buf.write 0 (le32 cmdDataSendReq ++ le32 s.len ++ s.padded ++
    (d.bytes ++ s.padded.drop d.len.toNat))).write 44 payload).write 40
      (le32 (UInt32.ofNat payload.length))

/-- The channel in a response. -/
def readIpcCmd (buf : Mem) : IpcCmd := ⟨buf.u32 8, buf.u32 12, buf.u32 16, buf.u32 20⟩

/-- The channel in a successful response with the opcode. -/
def channelRsp (cmd : UInt32) (buf : Mem) : Option IpcCmd :=
  if buf.u32 0 ≠ cmd ∨ buf.u32 4 ≠ cmdSuccess then none else some (readIpcCmd buf)

/-- `pc_req_create_client_rsp_cb`: the new channel, or `none` where it is left cleared. -/
def pcReqCreateClientRspCb : Mem → Option IpcCmd := channelRsp cmdGetServerRsp

/-- `pc_c_get_client_rsp_cb`, up to the allocation of the device: its channel, or `none`
where the request failed. -/
def pcCGetClientRspCb : Mem → Option IpcCmd := channelRsp cmdGetClientRsp

/-- `pc_req_destroy_client_rsp_cb`, which only logs: whether it finds a success. -/
def pcReqDestroyClientRspCb (buf : Mem) : Bool :=
  ¬ (buf.u32 0 ≠ cmdCloseServerRsp ∨ buf.u32 4 ≠ cmdSuccess)

end CCode.MemShare
