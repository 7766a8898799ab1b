import CCode.MemShare.Message
import CCode.MemShare.SendStatus

/-!
# The segments of the bus and what is written into them

A message of `wi_send` has a header of 48 bytes: the fields of `proc_comm.c` and the flag.
`RESERVE_SIZE` leaves 64 bytes for it, on top of the 1800 of `WI_BUS_MAX_BUFFER_SIZE`. But
nobody compares the length with the room: `out_cb` copies `len` bytes behind the header,
whatever `len` is. The segment of a client is larger than that of the server, since the
server adds the reserve to a size that has it already, so the same payload may fit on the
way to one client and overrun on the way to the server, which relays broadcasts.

A run is a sequence of calls of any number of processes: registrations, unregistrations and
sends, with any result of every exchange. `bus_bounds_iff` says which sends stay inside.

## Main definitions

* `Store`, `Store.Inside` — bytes written into a segment.
* `pcCSendStores`, `sendOutStores` — what the encoders write.
* `BusMem`, `BusCall`, `BusMem.step` — the processes and the server.
* `BusMem.wiSendStores` — what one call of `wi_send` writes, itself and through the server.
-/

namespace CCode.MemShare

open CCode.Lib

variable {P : Type}

/-! ## The encoders -/

/-- Bytes written at an offset into a segment of some size. -/
structure Store where
  size : UInt32
  off : ℕ
  bytes : List UInt8

/-- The bytes are inside the segment. -/
def Store.Inside (x : Store) : Prop := x.off + x.bytes.length ≤ x.size.toNat

instance (x : Store) : Decidable x.Inside :=
  inferInstanceAs (Decidable (x.off + x.bytes.length ≤ x.size.toNat))

/-- The stores carried out. -/
def replay (stores : List Store) (buf : Mem) : Mem :=
  stores.foldl (fun m x => m.write x.off x.bytes) buf

/-- The stores of `pc_c_send_out_cb`, with those of the callback. -/
def pcCSendStores (size : UInt32) (s d : ClientId) (payload : List UInt8) : List Store :=
  [⟨size, 0, le32 cmdDataSendReq ++ le32 s.len ++ s.padded ++
      (d.bytes ++ s.padded.drop d.len.toNat)⟩,
   ⟨size, 44, payload⟩,
   ⟨size, 40, le32 (UInt32.ofNat payload.length)⟩]

theorem replay_pcCSendStores (size : UInt32) (s d : ClientId) (payload : List UInt8) (buf : Mem) :
    replay (pcCSendStores size s d payload) buf = pcCSendOutCb s d payload buf := rfl

/-- The stores of `send_out_cb`. -/
def sendOutStores (size : UInt32) (d : PcCommData) : List Store :=
  let n := d.idLen.toNat
  let id := d.sId.take n ++ List.replicate (maxClientIdLen - n) 0
  [⟨size, 0, le32 cmdDataSendReq ++ le32 d.idLen ++ id ++ (d.dId.take n ++ id.drop n)⟩,
   ⟨size, 40, le32 d.dataLen ++ d.data⟩]

theorem replay_sendOutStores (size : UInt32) (d : PcCommData) (buf : Mem) :
    replay (sendOutStores size d) buf = sendOutCb d buf := rfl

/-! ## The calls -/

/-- The server, its buffer after a request and what `ipc_send_cmd` makes of it. -/
def World.exchange (w : World) (req : Mem → Mem) (alloc : Option Alloc) (sent : SendResult) :
    World :=
  if sent.taken then w.recv (req w.buf) alloc
  else if sent = .pSendFailed then w
  else ⟨w.server, req w.buf⟩

/-- `struct wi_bus_list_data`, with the `dev_list` of its client. -/
structure WiBusData where
  localId : WiAddr
  devList : List PcSClient
  deriving DecidableEq

/-- The server and the `wi_bus_list` of every process. -/
structure BusMem (P : Type) where
  world : World
  wiBusList : P → List WiBusData

/-- A new server, and no client. -/
def BusMem.init (buf : Mem) : BusMem P := ⟨wiBusInit buf, fun _ => []⟩

/-- `get_current_wi_bus`. -/
def getCurrentWiBus (list : List WiBusData) (localId : WiAddr) : Option WiBusData :=
  list.find? fun e => e.localId = localId

/-- What a call of `wi_send` gets from outside: how the lookup of a peer ends and what the
allocations for it give, how the send ends, the response of the peer, and how each relay of
the server ends. -/
structure WiSendEnv where
  lookup : SendResult
  dev : Option (ℕ × Vector UInt8 maxClientIdLen × UInt32)
  sent : SendResult
  reply : Mem
  relayed : PcSClient → SendResult

/-- The calls of a process. -/
inductive BusCall
  | wiRegister (localId : WiAddr) (env : CreateEnv)
  | wiUnregister (localId : WiAddr) (sent : SendResult)
  | wiSend (localId remoteId : WiAddr) (buf : Mem) (len : Int32) (flag : UInt32)
      (env : WiSendEnv)

/-- The arguments of `pc_req_create_client` in `wi_register`. -/
def wiRegisterArgs (localId : WiAddr) : CreateArgs :=
  ⟨0x005FC0DE, 0x005FC0DE, wiBusMaxBufferSize, localId.toList, 8, true⟩

/-- The payload that `out_cb` copies: a negative length copies nothing. -/
def wiPayload (buf : Mem) (len : Int32) : List UInt8 := buf.read 0 len.toInt.toNat

/-- The server after the lookup of a peer. -/
def BusMem.lookupWorld (s : BusMem P) (remoteId : WiAddr) (env : WiSendEnv) : World :=
  s.world.exchange (pcCGetClientReqCb remoteId.peerId.toClientId) none env.lookup

/-- The two exchanges of a send to one peer. -/
def BusMem.sendEnv (s : BusMem P) (remoteId : WiAddr) (env : WiSendEnv) : SendEnv :=
  ⟨env.lookup, (s.lookupWorld remoteId env).buf, env.dev, env.sent, env.reply⟩

/-- The device that `pc_c_send` finds for the peer, in its list or through the server. -/
def BusMem.peerDev (s : BusMem P) (bus : WiBusData) (remoteId : WiAddr) (env : WiSendEnv) :
    Option PcSClient :=
  match knownDev remoteId.peerId.toClientId bus.devList with
  | some dev => some dev
  | none =>
      if env.lookup ≠ .completed then none
      else knownDev remoteId.peerId.toClientId (pcCGetClientRsp remoteId.peerId.toClientId
        (s.sendEnv remoteId env) ⟨bus.devList, 0, 0⟩).devList

/-- The messages that the server relays. -/
def BusMem.relays (s : BusMem P) (localId remoteId : WiAddr) (payload : List UInt8)
    (env : WiSendEnv) : List (PcSClient × PcCommData) :=
  if env.sent.taken then
    ((pcServerRecvCb s.world.server (pcCSendOutCb localId.peerId.toClientId
      remoteId.peerId.toClientId payload s.world.buf) none fun _ => cmdSuccess).2.2).filter
        fun m => env.relayed m.1 ≠ .pSendFailed
  else []

/-- What a call of `wi_send` writes into segments: its own message, and the relays of the
server. A call that fails before its `request_cb` writes nothing. -/
def BusMem.wiSendStores (s : BusMem P) (p : P) (localId remoteId : WiAddr) (buf : Mem)
    (len : Int32) (flag : UInt32) (env : WiSendEnv) : List Store :=
  let payload := outCb flag (wiPayload buf len)
  match getCurrentWiBus (s.wiBusList p) localId with
  | none => []
  | some bus =>
      if isBroadcastCb remoteId.toList 8 then
        if env.sent = .pSendFailed then []
        else
          pcCSendStores serverShmSize localId.peerId.toClientId remoteId.peerId.toClientId
              payload ++
            (s.relays localId remoteId payload env).flatMap fun m =>
              sendOutStores m.1.clientCmd.size m.2
      else
        match s.peerDev bus remoteId env with
        | none => []
        | some dev =>
            if env.sent = .pSendFailed then []
            else
              pcCSendStores dev.clientCmd.size localId.peerId.toClientId
                remoteId.peerId.toClientId payload

/-- Replace the `dev_list` of the entry that `get_current_wi_bus` finds. -/
def setDevList (localId : WiAddr) (devList : List PcSClient) : List WiBusData → List WiBusData
  | [] => []
  | e :: list =>
      if e.localId = localId then { e with devList } :: list
      else e :: setDevList localId devList list

section Steps

variable [DecidableEq P]

/-- `wi_register`. -/
def BusMem.wiRegister (s : BusMem P) (p : P) (localId : WiAddr) (env : CreateEnv) : BusMem P :=
  match pcReqCreateClient s.world (wiRegisterArgs localId) env with
  | (world, none) => { s with world }
  | (world, some _) =>
      ⟨world, Function.update s.wiBusList p (s.wiBusList p ++ [⟨localId, []⟩])⟩

/-- `wi_unregister`. -/
def BusMem.wiUnregister (s : BusMem P) (p : P) (localId : WiAddr) (sent : SendResult) : BusMem P :=
  match getCurrentWiBus (s.wiBusList p) localId with
  | none => s
  | some _ =>
      ⟨s.world.exchange (pcReqDestroyClientReqCb localId.peerId.toClientId) none sent,
        Function.update s.wiBusList p ((s.wiBusList p).filter fun e => e.localId ≠ localId)⟩

/-- `wi_send`, on the server and the list of peers. -/
def BusMem.wiSend (s : BusMem P) (p : P) (localId remoteId : WiAddr) (buf : Mem) (len : Int32)
    (flag : UInt32) (env : WiSendEnv) : BusMem P :=
  match getCurrentWiBus (s.wiBusList p) localId with
  | none => s
  | some bus =>
      if isBroadcastCb remoteId.toList 8 then
        { s with
          world := s.world.exchange (pcCSendOutCb localId.peerId.toClientId
            remoteId.peerId.toClientId (outCb flag (wiPayload buf len))) none env.sent }
      else
        let world :=
          if (knownDev remoteId.peerId.toClientId bus.devList).isSome then s.world
          else s.lookupWorld remoteId env
        let sent := pcCSend remoteId.peerId.toClientId (s.sendEnv remoteId env) ⟨bus.devList, 0, 0⟩
        ⟨world, Function.update s.wiBusList p
          (setDevList localId sent.1.devList (s.wiBusList p))⟩

/-- One call. -/
def BusMem.step (s : BusMem P) : P × BusCall → Option (BusMem P)
  | (p, .wiRegister localId env) => some (s.wiRegister p localId env)
  | (p, .wiUnregister localId sent) => some (s.wiUnregister p localId sent)
  | (p, .wiSend localId remoteId buf len flag env) =>
      some (s.wiSend p localId remoteId buf len flag env)

end Steps

/-! ## The sizes of the segments -/

/-- The client has a segment of the size that all clients of the bus get. -/
def Sized (c : PcSClient) : Prop := c.clientCmd.size = clientShmSize

/-- All clients and all devices have one. -/
structure BusSized (s : BusMem P) : Prop where
  clients : ∀ c ∈ s.world.server.clientList, Sized c
  devices : ∀ p, ∀ e ∈ s.wiBusList p, ∀ d ∈ e.devList, Sized d

theorem createRemoteServer_sized {server : PcServer} (h : ∀ c ∈ server.clientList, Sized c)
    (id : List UInt8) (idLen pid : UInt32) (alloc : Option Alloc) :
    ∀ c ∈ (createRemoteServer server serverShmSize id idLen pid alloc).1.clientList, Sized c := by
  rw [createRemoteServer.eq_def]
  split
  · exact h
  split_ifs
  · exact h
  split
  · exact h
  intro c hc
  rcases List.mem_append.mp hc with hc | hc
  · exact h c hc
  · rw [List.mem_singleton.mp hc]
    rfl

theorem destroyRemoteServer_sized {server : PcServer} (h : ∀ c ∈ server.clientList, Sized c)
    (id : List UInt8) (idLen : UInt32) :
    ∀ c ∈ (destroyRemoteServer server id idLen).1.clientList, Sized c := by
  rw [destroyRemoteServer]
  split
  · exact h
  · intro c hc
    exact h c (List.mem_of_mem_eraseP hc)

/-- The server keeps the sizes, if a registration asks for the size of its own segment. -/
theorem pcServerRecvCb_sized {server : PcServer} (h : ∀ c ∈ server.clientList, Sized c)
    {buf : Mem} (hreq : buf.u32 0 = cmdGetServerReq → buf.u32 16 = serverShmSize)
    (alloc : Option Alloc) (status : PcSClient → UInt32) :
    ∀ c ∈ (pcServerRecvCb server buf alloc status).1.clientList, Sized c := by
  simp only [pcServerRecvCb]
  split_ifs with hcreate
  · have hsized := createRemoteServer_sized h (buf.read 8 maxClientIdLen) (buf.u32 4)
      (buf.u32 20) alloc
    rw [hreq hcreate]
    rcases hres : createRemoteServer server serverShmSize (buf.read 8 maxClientIdLen)
      (buf.u32 4) (buf.u32 20) alloc with ⟨server', _ | client⟩
    all_goals
      rw [hres] at hsized
      exact hsized
  · have hsized := destroyRemoteServer_sized h (buf.read 8 maxClientIdLen) (buf.u32 4)
    rcases hres : destroyRemoteServer server (buf.read 8 maxClientIdLen) (buf.u32 4) with
      ⟨server', _ | _⟩
    all_goals
      rw [hres] at hsized
      exact hsized
  · split <;> exact h
  · exact h
  · split <;> exact h
  · exact h

theorem World.recv_sized {w : World} (h : ∀ c ∈ w.server.clientList, Sized c) {buf : Mem}
    (hreq : buf.u32 0 = cmdGetServerReq → buf.u32 16 = serverShmSize) (alloc : Option Alloc) :
    ∀ c ∈ (w.recv buf alloc).server.clientList, Sized c := by
  have hsized := pcServerRecvCb_sized h hreq alloc fun _ => cmdSuccess
  rw [World.recv]
  rcases hres : pcServerRecvCb w.server buf alloc fun _ => cmdSuccess with ⟨server, buf', sent⟩
  rw [hres] at hsized
  exact hsized

theorem World.exchange_sized {w : World} (h : ∀ c ∈ w.server.clientList, Sized c)
    {req : Mem → Mem} (hreq : (req w.buf).u32 0 = cmdGetServerReq →
      (req w.buf).u32 16 = serverShmSize) (alloc : Option Alloc) (sent : SendResult) :
    ∀ c ∈ (w.exchange req alloc sent).server.clientList, Sized c := by
  rw [World.exchange]
  split_ifs
  · exact World.recv_sized h hreq alloc
  · exact h
  · exact h

/-- A request that is no registration asks for no size. -/
theorem noSize_idRequest {cmd : UInt32} (hcmd : cmd ≠ cmdGetServerReq) (id : PeerId) (m : Mem) :
    (idRequest cmd id.toClientId [] m).u32 0 = cmdGetServerReq →
      (idRequest cmd id.toClientId [] m).u32 16 = serverShmSize := by
  intro h
  rw [(idRequest_fields cmd id [] m).1] at h
  exact absurd h hcmd

/-- The answer to a lookup carries the channel of a client, if it carries one. -/
theorem lookup_channel {w : World} {id : PeerId} {sent : SendResult} (htaken : sent.taken = true)
    {cmd : IpcCmd} (h : pcCGetClientRspCb
      (w.exchange (pcCGetClientReqCb id.toClientId) none sent).buf = some cmd) :
    ∃ c ∈ w.server.clientList, c.clientCmd = cmd := by
  have hcmd := (idRequest_fields cmdGetClientReq id [] w.buf).1
  change (pcCGetClientReqCb id.toClientId w.buf).u32 0 = _ at hcmd
  have hne₁ : ¬ cmdGetClientReq = cmdGetServerReq := by decide
  have hne₂ : ¬ cmdGetClientReq = cmdCloseServerReq := by decide
  simp only [World.exchange, htaken, if_true, World.recv, pcServerRecvCb, hcmd, hne₁, hne₂,
    if_false] at h
  split at h
  · rw [pcCGetClientRspCb, channelRsp_failed] at h
    cases h
  · next c hc =>
    rw [pcCGetClientRspCb, channelRsp_success] at h
    exact ⟨c, List.mem_of_find?_eq_some hc, Option.some.inj h⟩

/-- Attaching to a channel by its identifiers keeps its size. -/
theorem size_of_ipcCmdRemoteInit {cmd : IpcCmd} {c : RemoteCmd}
    (h : ipcCmdRemoteInit none ⟨0, 0, cmd⟩ = some c) : c.cmd.size = cmd.size := by
  have hkey : ¬ ((0 : Int32) < 0 ∧ (0 : Int32) < 0) := by decide
  rw [ipcCmdRemoteInit, if_neg hkey] at h
  split_ifs at h
  rw [← Option.some.inj h]

/-- The callback of a lookup adds a device of the same size. -/
theorem pcCGetClientRsp_sized {w : World} (hw : ∀ c ∈ w.server.clientList, Sized c) (id : PeerId)
    (env : SendEnv) (htaken : env.lookup.taken = true)
    (hreply : env.lookupReply =
      (w.exchange (pcCGetClientReqCb id.toClientId) none env.lookup).buf)
    {s : SendState} (h : ∀ d ∈ s.devList, Sized d) :
    ∀ d ∈ (pcCGetClientRsp id.toClientId env s).devList, Sized d := by
  by_cases hrsp : env.lookupReply.u32 0 ≠ cmdGetClientRsp ∨ env.lookupReply.u32 4 ≠ cmdSuccess
  · simp only [pcCGetClientRsp, if_pos hrsp]
    exact h
  have hchannel : pcCGetClientRspCb env.lookupReply = some (readIpcCmd env.lookupReply) := by
    rw [pcCGetClientRspCb, channelRsp, if_neg hrsp]
  rw [hreply] at hchannel
  obtain ⟨c, hc, hcmd⟩ := lookup_channel htaken hchannel
  rw [← hreply] at hcmd
  simp only [pcCGetClientRsp, if_neg hrsp]
  split
  · exact h
  split
  · exact h
  · next hinit =>
    intro d hd
    rcases List.mem_cons.mp hd with rfl | hd
    · rw [Sized, size_of_ipcCmdRemoteInit hinit, ← hcmd]
      exact hw c hc
    · exact h d hd

/-! ## Every call keeps the sizes -/

@[simp] theorem pcCSendRetCb_devList (reply : Mem) (s : SendState) :
    (pcCSendRetCb reply s).devList = s.devList := by
  simp only [pcCSendRetCb, retCb]
  split <;> rfl

theorem sendToDev_devList (dev : PcSClient) (env : SendEnv) (s : SendState) :
    (sendToDev dev env s).1.devList =
      if env.sent ≠ .completed then removeClient s.devList dev else s.devList := by
  simp only [sendToDev]
  by_cases hans : env.sent.answered = true
  · simp only [hans, if_true]
    split_ifs <;> simp
  · simp only [if_neg hans]
    split_ifs
    · rfl
    · rfl

theorem sendToDev_sized (dev : PcSClient) (env : SendEnv) {s : SendState}
    (h : ∀ d ∈ s.devList, Sized d) : ∀ d ∈ (sendToDev dev env s).1.devList, Sized d := by
  rw [sendToDev_devList]
  split_ifs
  · intro d hd
    exact h d (List.mem_of_mem_eraseP hd)
  · exact h

/-- A send to one peer keeps the sizes in the list of devices. -/
theorem pcCSend_sized {w : World} (hw : ∀ c ∈ w.server.clientList, Sized c) {id : PeerId}
    {env : SendEnv} (hreply : env.lookupReply =
      (w.exchange (pcCGetClientReqCb id.toClientId) none env.lookup).buf)
    {s : SendState} (h : ∀ d ∈ s.devList, Sized d) :
    ∀ d ∈ (pcCSend id.toClientId env s).1.devList, Sized d := by
  have hlooked : ∀ d ∈ (if env.lookup.answered then pcCGetClientRsp id.toClientId env s
      else s).devList, Sized d := by
    split_ifs with hans
    · have htaken : env.lookup.taken = true := by
        cases hl : env.lookup <;> rw [hl] at hans <;> first | rfl | cases hans
      exact pcCGetClientRsp_sized hw id env htaken hreply h
    · exact h
  revert hlooked
  simp only [pcCSend]
  generalize (if env.lookup.answered then pcCGetClientRsp id.toClientId env s else s) = s'
  intro hlooked
  cases findClient s.devList id.data.toList id.len with
  | some dev => exact sendToDev_sized dev env h
  | none =>
      by_cases hlookup : env.lookup = .completed
      · simp only [hlookup, ne_eq, not_true, if_false]
        cases findClient s'.devList id.data.toList id.len with
        | some dev => exact sendToDev_sized dev env hlooked
        | none => exact hlooked
      · simp only [ne_eq, hlookup, not_false_eq_true, if_true]
        exact hlooked

theorem mem_setDevList {localId : WiAddr} {devList : List PcSClient} {list : List WiBusData}
    {e : WiBusData} (h : e ∈ setDevList localId devList list) :
    e ∈ list ∨ e.devList = devList := by
  induction list with
  | nil => exact .inl h
  | cons e' list ih =>
      rw [setDevList] at h
      split_ifs at h
      · rcases List.mem_cons.mp h with rfl | h
        · exact .inr rfl
        · exact .inl (List.mem_cons_of_mem _ h)
      · rcases List.mem_cons.mp h with rfl | h
        · exact .inl List.mem_cons_self
        · exact (ih h).imp_left (List.mem_cons_of_mem _)

theorem BusSized.lookupWorld {s : BusMem P} (h : BusSized s) (remoteId : WiAddr) (env : WiSendEnv) :
    ∀ c ∈ (s.lookupWorld remoteId env).server.clientList, Sized c :=
  World.exchange_sized h.clients (noSize_idRequest (by decide) _ _) _ _

section Steps

variable [DecidableEq P] {s : BusMem P}

/-- The list of one process changes. -/
theorem BusSized.update (h : BusSized s) {world : World}
    (hw : ∀ c ∈ world.server.clientList, Sized c) (p : P) {list : List WiBusData}
    (hlist : ∀ e ∈ list, ∀ d ∈ e.devList, Sized d) :
    BusSized ⟨world, Function.update s.wiBusList p list⟩ where
  clients := hw
  devices q e he := by
    by_cases hq : q = p
    · subst hq
      simp only [Function.update_self] at he
      exact hlist e he
    · simp only [Function.update_of_ne hq] at he
      exact h.devices q e he

theorem pcReqCreateClient_world (w : World) (args : CreateArgs) (env : CreateEnv) :
    (pcReqCreateClient w args env).1 = w ∨
      (pcReqCreateClient w args env).1 = exchangeWorld w args env := by
  simp only [pcReqCreateClient]
  cases ipcCmdRemoteInit env.found (serverCmd args env) with
  | none =>
      left
      split_ifs <;> rfl
  | some cmdServer =>
      dsimp only
      cases ipcCmdRemoteInit none ⟨0, 0, (pcReqCreateClientRspCb
        (exchangeWorld w args env).buf).getD ⟨0, 0, 0, 0⟩⟩ with
      | none => split_ifs <;> simp
      | some cmdL => split_ifs <;> simp

theorem BusSized.wiRegister (h : BusSized s) (p : P) (localId : WiAddr) (env : CreateEnv) :
    BusSized (s.wiRegister p localId env) := by
  have hw : ∀ c ∈ (pcReqCreateClient s.world (wiRegisterArgs localId) env).1.server.clientList,
      Sized c := by
    rcases pcReqCreateClient_world s.world (wiRegisterArgs localId) env with heq | heq
    · rw [heq]
      exact h.clients
    · have hpos : 1 ≤ (wiRegisterArgs localId).idLen := by simp [wiRegisterArgs]
      have hle : (wiRegisterArgs localId).idLen ≤ maxClientIdLen := by simp [wiRegisterArgs]
      rw [heq]
      refine World.exchange_sized h.clients ?_ env.alloc env.sent
      intro _
      exact (pcReqCreateClientReqCb_fields ((wiRegisterArgs localId).peerId env hpos hle) _ env.pid
        s.world.buf).1
  rw [BusMem.wiRegister]
  rcases hres : pcReqCreateClient s.world (wiRegisterArgs localId) env with ⟨world, _ | client⟩
  · rw [hres] at hw
    exact ⟨hw, h.devices⟩
  · rw [hres] at hw
    refine h.update hw p ?_
    intro e he
    rcases List.mem_append.mp he with he | he
    · exact h.devices p e he
    · rw [List.mem_singleton.mp he]
      intro d hd
      exact absurd hd List.not_mem_nil

theorem BusSized.wiUnregister (h : BusSized s) (p : P) (localId : WiAddr) (sent : SendResult) :
    BusSized (s.wiUnregister p localId sent) := by
  rw [BusMem.wiUnregister]
  split
  · exact h
  · refine h.update (World.exchange_sized h.clients (noSize_idRequest (by decide) _ _) _ _) p ?_
    intro e he
    exact h.devices p e (List.mem_of_mem_filter he)

theorem BusSized.wiSend (h : BusSized s) (p : P) (localId remoteId : WiAddr) (buf : Mem)
    (len : Int32) (flag : UInt32) (env : WiSendEnv) :
    BusSized (s.wiSend p localId remoteId buf len flag env) := by
  rw [BusMem.wiSend]
  split
  · exact h
  next bus hbus =>
  have hdevs := h.devices p bus (List.mem_of_find?_eq_some hbus)
  split_ifs
  · refine ⟨World.exchange_sized h.clients ?_ _ _, h.devices⟩
    intro hcmd
    rw [(commData_pcCSendOutCb rfl rfl _ _).1] at hcmd
    exact absurd hcmd (by decide)
  all_goals
    refine h.update ?_ p ?_
    · first | exact h.clients | exact h.lookupWorld remoteId env
    · intro e he
      rcases mem_setDevList he with he | he
      · exact h.devices p e he
      · rw [he]
        exact pcCSend_sized h.clients rfl hdevs

/-- **In every run of the bus every client and every device has the same size.** -/
theorem busSized_of_runs {buf : Mem} {calls : List (P × BusCall)}
    (hrun : Runs BusMem.step (fun _ _ => True) (BusMem.init buf) calls s) : BusSized s := by
  refine hrun.invariant ⟨?_, ?_⟩ ?_
  · intro c hc
    exact absurd hc List.not_mem_nil
  · intro p e he
    exact absurd he List.not_mem_nil
  · intro u a v hu _ hstep
    obtain ⟨p, call⟩ := a
    cases call with
    | wiRegister localId env => exact Option.some.inj hstep ▸ hu.wiRegister p localId env
    | wiUnregister localId sent => exact Option.some.inj hstep ▸ hu.wiUnregister p localId sent
    | wiSend localId remoteId buf len flag env =>
        exact Option.some.inj hstep ▸ hu.wiSend p localId remoteId buf len flag env

end Steps

/-! ## The bounds -/

/-- The longest payload that fits behind the header: 1816 bytes in the segment of the server,
1880 in that of a client. -/
def roomFor (remoteId : WiAddr) : Int := if isBroadcastCb remoteId.toList 8 then 1816 else 1880

/-- The call gets to writing its message: the sender is registered, the peer, if it is one,
is in the list or is found by the server, and no `semop` before the write fails. -/
def BusMem.Writes (s : BusMem P) (p : P) (localId remoteId : WiAddr) (env : WiSendEnv) : Prop :=
  ∃ bus, getCurrentWiBus (s.wiBusList p) localId = some bus ∧ env.sent ≠ .pSendFailed ∧
    (isBroadcastCb remoteId.toList 8 ∨ (s.peerDev bus remoteId env).isSome)

theorem length_wiPayload (buf : Mem) (len : Int32) :
    (wiPayload buf len).length = len.toInt.toNat := by
  simp [wiPayload]

/-- The message fits a segment if its payload fits behind the header. -/
theorem pcCSendStores_inside_iff (size : UInt32) (hsize : 48 ≤ size.toNat) (s d : WiAddr)
    (flag : UInt32) (payload : List UInt8) :
    (∀ x ∈ pcCSendStores size s.peerId.toClientId d.peerId.toClientId (outCb flag payload),
        x.Inside) ↔ 48 + payload.length ≤ size.toNat := by
  have hs : s.peerId.padded = s.toList := padded_of_len rfl
  have hd : d.peerId.bytes = d.toList := bytes_of_len rfl
  have hlen : s.peerId.len = 8 ∧ d.peerId.len = 8 := ⟨rfl, rfl⟩
  simp only [pcCSendStores, List.forall_mem_cons, Store.Inside, hs, hd, hlen.1, hlen.2, outCb,
    List.length_append, length_le32, Vector.length_toList, List.length_drop]
  constructor
  · rintro ⟨-, h, -⟩
    omega
  · intro h
    refine ⟨?_, ?_, ?_, ?_⟩
    · simp
      omega
    · omega
    · omega
    · intro x hx
      exact absurd hx List.not_mem_nil

/-- The server relays to its clients only. -/
theorem fst_of_mem_sent {server : PcServer} {buf : Mem} {alloc : Option Alloc}
    {status : PcSClient → UInt32} (hcmd : buf.u32 0 = cmdDataSendReq)
    {sent : PcSClient × PcCommData} (h : sent ∈ (pcServerRecvCb server buf alloc status).2.2) :
    sent.1 ∈ server.clientList := by
  have hne₁ : ¬ cmdDataSendReq = cmdGetServerReq := by decide
  have hne₂ : ¬ cmdDataSendReq = cmdCloseServerReq := by decide
  have hne₃ : ¬ cmdDataSendReq = cmdGetClientReq := by decide
  simp only [pcServerRecvCb, hcmd, hne₁, hne₂, hne₃, if_false, if_true] at h
  split at h
  · obtain ⟨c, hc, rfl⟩ := List.mem_map.mp h
    exact List.mem_of_mem_filter hc
  · split at h
    · exact absurd h List.not_mem_nil
    · next c hc =>
      rw [List.mem_singleton.mp h]
      exact List.mem_of_find?_eq_some hc

/-- What the server relays fits the segment of a client, if it fitted the server's own. -/
theorem relays_inside {s : BusMem P} (h : BusSized s) {localId remoteId : WiAddr} {flag : UInt32}
    {payload : List UInt8} (hfit : 48 + payload.length ≤ serverShmSize.toNat) (env : WiSendEnv)
    {m : PcSClient × PcCommData}
    (hm : m ∈ s.relays localId remoteId (outCb flag payload) env) :
    ∀ x ∈ sendOutStores m.1.clientCmd.size m.2, x.Inside := by
  have hroom : serverShmSize.toNat = 1864 := rfl
  have hcarries := carries_pcCSendOutCb localId remoteId (outCb flag payload) s.world.buf
  have hlen : (outCb flag payload).length = 4 + payload.length := by simp [outCb]
  rw [BusMem.relays] at hm
  split_ifs at hm
  · have hm := List.mem_of_mem_filter hm
    have hsize : m.1.clientCmd.size.toNat = 1928 :=
      congrArg UInt32.toNat (h.clients _ (fst_of_mem_sent hcarries.cmd hm))
    rw [snd_of_mem_sent hcarries.cmd hm, hcarries.commData_eq (by omega)]
    simp only [sendOutStores, List.forall_mem_cons, Store.Inside, hsize, List.length_append,
      length_le32, hlen]
    refine ⟨?_, ?_, ?_⟩
    · simp
    · omega
    · intro x hx
      exact absurd hx List.not_mem_nil
  · exact absurd hm List.not_mem_nil

/-- The device of a peer has the size of all clients. -/
theorem BusSized.peerDev {s : BusMem P} (h : BusSized s) {p : P} {bus : WiBusData}
    (hbus : bus ∈ s.wiBusList p) {remoteId : WiAddr} {env : WiSendEnv} {dev : PcSClient}
    (hdev : s.peerDev bus remoteId env = some dev) : Sized dev := by
  rw [BusMem.peerDev.eq_def] at hdev
  split at hdev
  · next dev' hknown =>
    rw [← Option.some.inj hdev]
    exact h.devices p bus hbus dev' (List.mem_of_find?_eq_some hknown)
  · split_ifs at hdev with hlookup
    have htaken : (s.sendEnv remoteId env).lookup.taken = true := by
      rw [BusMem.sendEnv, not_not.mp hlookup]
      rfl
    have hdevs := pcCGetClientRsp_sized h.clients remoteId.peerId (s.sendEnv remoteId env) htaken
      rfl (s := ⟨bus.devList, 0, 0⟩) (h.devices p bus hbus)
    rw [knownDev, findClient] at hdev
    exact hdevs dev (List.mem_of_find?_eq_some hdev)

section Writes

variable {s : BusMem P} {p : P} {localId remoteId : WiAddr} {buf : Mem} {len : Int32}
  {flag : UInt32} {env : WiSendEnv} {bus : WiBusData}

theorem wiSendStores_of_not_writes (h : ¬ s.Writes p localId remoteId env) :
    s.wiSendStores p localId remoteId buf len flag env = [] := by
  rw [BusMem.wiSendStores.eq_def]
  cases hbus : getCurrentWiBus (s.wiBusList p) localId with
  | none => rfl
  | some bus =>
      dsimp only
      by_cases hsent : env.sent = .pSendFailed
      · rw [if_pos hsent]
        cases s.peerDev bus remoteId env <;> simp [hsent]
      by_cases hbc : isBroadcastCb remoteId.toList 8 = true
      · exact absurd ⟨bus, hbus, hsent, .inl hbc⟩ h
      · rw [if_neg hbc]
        cases hdev : s.peerDev bus remoteId env with
        | none => rfl
        | some dev => exact absurd ⟨bus, hbus, hsent, .inr (by rw [hdev]; rfl)⟩ h

/-- A broadcast goes into the segment of the server, and from there to its clients. -/
theorem wiSendStores_broadcast (hbus : getCurrentWiBus (s.wiBusList p) localId = some bus)
    (hsent : env.sent ≠ .pSendFailed) (hbc : isBroadcastCb remoteId.toList 8 = true) :
    s.wiSendStores p localId remoteId buf len flag env =
      pcCSendStores serverShmSize localId.peerId.toClientId remoteId.peerId.toClientId
          (outCb flag (wiPayload buf len)) ++
        (s.relays localId remoteId (outCb flag (wiPayload buf len)) env).flatMap fun m =>
          sendOutStores m.1.clientCmd.size m.2 := by
  simp only [BusMem.wiSendStores, hbus, if_pos hbc, if_neg hsent]

/-- A message to a peer goes into the segment of the peer. -/
theorem wiSendStores_peer (hbus : getCurrentWiBus (s.wiBusList p) localId = some bus)
    (hsent : env.sent ≠ .pSendFailed) (hbc : ¬ isBroadcastCb remoteId.toList 8 = true)
    {dev : PcSClient} (hdev : s.peerDev bus remoteId env = some dev) :
    s.wiSendStores p localId remoteId buf len flag env =
      pcCSendStores dev.clientCmd.size localId.peerId.toClientId remoteId.peerId.toClientId
        (outCb flag (wiPayload buf len)) := by
  simp only [BusMem.wiSendStores, hbus, if_neg hbc, hdev, if_neg hsent]

end Writes

/-- **A call of `wi_send` writes inside the segments exactly if it writes nothing or its
payload leaves room for the header**, after any calls of any processes. -/
theorem bus_bounds_iff [DecidableEq P] {s : BusMem P} {start : Mem} {calls : List (P × BusCall)}
    (hrun : Runs BusMem.step (fun _ _ => True) (BusMem.init start) calls s) (p : P)
    (localId remoteId : WiAddr) (buf : Mem) (len : Int32) (flag : UInt32) (env : WiSendEnv) :
    (∀ x ∈ s.wiSendStores p localId remoteId buf len flag env, x.Inside) ↔
      ¬ s.Writes p localId remoteId env ∨ len.toInt ≤ roomFor remoteId := by
  have hsized := busSized_of_runs hrun
  have hlen := length_wiPayload buf len
  have hserver : serverShmSize.toNat = 1864 := rfl
  by_cases hwrites : s.Writes p localId remoteId env
  swap
  · rw [wiSendStores_of_not_writes hwrites]
    simp [hwrites]
  simp only [hwrites, not_true, false_or]
  obtain ⟨bus, hbus, hsent, hdest⟩ := hwrites
  by_cases hbc : isBroadcastCb remoteId.toList 8 = true
  · have hroom : 48 + (wiPayload buf len).length ≤ serverShmSize.toNat ↔
        len.toInt ≤ roomFor remoteId := by
      rw [hlen, hserver, roomFor, if_pos hbc]
      omega
    have hdirect := pcCSendStores_inside_iff serverShmSize (by decide) localId remoteId flag
      (wiPayload buf len)
    rw [wiSendStores_broadcast hbus hsent hbc]
    constructor
    · intro h
      exact hroom.mp (hdirect.mp fun x hx => h x (List.mem_append_left _ hx))
    · intro hfit x hx
      rcases List.mem_append.mp hx with hx | hx
      · exact hdirect.mpr (hroom.mpr hfit) x hx
      · obtain ⟨m, hm, hx⟩ := List.mem_flatMap.mp hx
        exact relays_inside hsized (hroom.mpr hfit) env hm x hx
  · obtain ⟨dev, hdev⟩ := Option.isSome_iff_exists.mp (hdest.resolve_left hbc)
    have hsize : dev.clientCmd.size.toNat = 1928 := congrArg UInt32.toNat
      (hsized.peerDev (List.mem_of_find?_eq_some hbus) hdev)
    rw [wiSendStores_peer hbus hsent hbc hdev, pcCSendStores_inside_iff _ (by omega), hlen, hsize,
      roomFor, if_neg hbc]
    omega

/-- The first client registers. -/
def firstRegistered : BusMem Unit :=
  (BusMem.init fun _ => 0).wiRegister () firstAddr (kernelGives 5)

theorem firstRegistered_runs : Runs BusMem.step (fun _ _ => True) (BusMem.init fun _ => 0)
    [((), .wiRegister firstAddr (kernelGives 5))] firstRegistered :=
  .snoc .refl trivial rfl

/-- Everything succeeds. -/
def wiSendOk : WiSendEnv :=
  ⟨.completed, none, .completed, statusReply cmdSuccess, fun _ => .completed⟩

theorem getCurrentWiBus_firstRegistered :
    getCurrentWiBus (firstRegistered.wiBusList ()) firstAddr = some ⟨firstAddr, []⟩ := by
  decide

/-- A broadcast of 1816 bytes is written, and fits the segment of the server. -/
theorem bus_bounds_largest :
    firstRegistered.wiSendStores () firstAddr secondGroup (fun _ => 0) 1816 1 wiSendOk ≠ [] ∧
      ∀ x ∈ firstRegistered.wiSendStores () firstAddr secondGroup (fun _ => 0) 1816 1 wiSendOk,
        x.Inside := by
  refine ⟨?_, (bus_bounds_iff firstRegistered_runs () firstAddr secondGroup (fun _ => 0) 1816 1
    wiSendOk).mpr (.inr (by decide))⟩
  rw [wiSendStores_broadcast getCurrentWiBus_firstRegistered (by decide) (by decide)]
  simp [pcCSendStores]

/-- One of 1817 bytes does not, and the call goes through. -/
theorem bus_overrun : ¬ ∀ x ∈ firstRegistered.wiSendStores () firstAddr secondGroup
    (fun _ => 0) 1817 1 wiSendOk, x.Inside := by
  intro h
  rw [wiSendStores_broadcast getCurrentWiBus_firstRegistered (by decide) (by decide)] at h
  have hfit := (pcCSendStores_inside_iff serverShmSize (by decide) firstAddr secondGroup 1
    (wiPayload (fun _ => 0) 1817)).mp fun x hx => h x (List.mem_append_left _ hx)
  rw [length_wiPayload] at hfit
  exact absurd hfit (by decide)

end CCode.MemShare
