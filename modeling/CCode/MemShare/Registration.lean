import CCode.MemShare.WiBus

/-!
# Registration

`pc_req_create_client` decides in two processes whether a client is registered. The server
adds the client to its list and answers with the channel; the library then attaches to the
channel with `ipc_cmd_remote_init`, which has conditions of its own on the identifiers.
The creating side takes every identifier from zero on for a good one (`semid < 0` is what
it calls a failure), but the attaching side wants them positive. So a channel whose
semaphore set or memory has the identifier zero is registered by the server and refused by
the library, and nobody ever serves it.

`registration_agrees_iff` says for which answers of the kernel the two sides agree.

## Main definitions

* `RemoteCmd`, `ipcCmdRemoteInit` — a channel that is attached to.
* `pcReqCreateClient` — the call, from the check of its arguments to its result.
* `Agrees` — the library and the server agree on the outcome.
-/

namespace CCode.MemShare

open CCode.Lib

/-! ## The code -/

/-- A `struct ipc_cmd` with the keys that it may be found by. -/
structure RemoteCmd where
  semKey : Int32
  shmKey : Int32
  cmd : IpcCmd

/-- `ipc_cmd_remote_init`: the channel it has attached to, or `none` for a failure. By keys
the identifiers are what the kernel finds for them, if anything; by identifiers, `shmat` is
called, but a failure of it is not noticed, as no pointer is less than zero. -/
def ipcCmdRemoteInit (found : Option (UInt32 × UInt32)) (c : RemoteCmd) : Option RemoteCmd :=
  if 0 < c.semKey ∧ 0 < c.shmKey then
    found.map fun (semid, shmid) => { c with cmd := ⟨semid, cmdNsems, shmid, c.cmd.size⟩ }
  else if 0 < c.cmd.semid.toInt32 ∧ 0 < c.cmd.nsems.toInt32 ∧ 0 < c.cmd.shmid.toInt32 ∧
      0 < c.cmd.size then
    some { c with cmd := { c.cmd with nsems := cmdNsems } }
  else none

/-- How `ipc_send_cmd` ends: it returns zero, or one of its `semop` calls fails. If the wait
for the answer fails, the receiver may have taken the request or not. -/
inductive SendResult
  | completed
  | pSendFailed
  | vSReadFailed
  | pCReadFailed (taken : Bool)
  | vSendFailed
  deriving DecidableEq

/-- The receiver has handled the request. -/
def SendResult.taken : SendResult → Bool
  | .completed | .vSendFailed => true
  | .pCReadFailed taken => taken
  | .pSendFailed | .vSReadFailed => false

/-- The arguments of `pc_req_create_client`. A negative length of the id is undefined in the
`memcpy` behind the check, and left out. -/
structure CreateArgs where
  semKey : Int32
  shmKey : Int32
  bufferSize : UInt32
  clientId : List UInt8
  idLen : ℕ
  callback : Bool

/-- What the call gets from its surroundings: whether its allocations succeed, what its
memory held, what the kernel finds for the keys, its process, how the exchange ends, and
what the server's allocations give. -/
structure CreateEnv where
  mallocs : Bool
  cmdResidue : IpcCmd
  idResidue : Vector UInt8 maxClientIdLen
  found : Option (UInt32 × UInt32)
  pid : UInt32
  sent : SendResult
  alloc : Option Alloc

/-- `struct pc_c_client`, without its list of peers, which is empty, and its callbacks. -/
structure PcCClient where
  cmdServer : RemoteCmd
  cmdL : RemoteCmd
  id : ClientId

/-- The channel of the server, as far as it is filled in before `ipc_cmd_remote_init`. -/
def serverCmd (args : CreateArgs) (env : CreateEnv) : RemoteCmd :=
  ⟨args.semKey, args.shmKey, { env.cmdResidue with size := reserveSize + args.bufferSize }⟩

/-- The id of the new client, in the memory it got. -/
def CreateArgs.id (args : CreateArgs) (env : CreateEnv) : ClientId :=
  .copied env.idResidue args.clientId (UInt32.ofNat args.idLen)

/-- The server after the exchange. -/
def exchangeWorld (w : World) (args : CreateArgs) (env : CreateEnv) : World :=
  let buf := pcReqCreateClientReqCb (args.id env) (reserveSize + args.bufferSize) env.pid w.buf
  if env.sent.taken then w.recv buf env.alloc
  else if env.sent = .pSendFailed then w
  else ⟨w.server, buf⟩

/-- `pc_req_create_client`: the server afterwards, and the client or `none` for a null
pointer. `cmd_l` is cleared before the response callback fills it in. -/
def pcReqCreateClient (w : World) (args : CreateArgs) (env : CreateEnv) :
    World × Option PcCClient :=
  if args.idLen = 0 ∨ args.idLen > maxClientIdLen then (w, none)
  else if ¬ args.callback then (w, none)
  else if ¬ env.mallocs then (w, none)
  else
    match ipcCmdRemoteInit env.found (serverCmd args env) with
    | none => (w, none)
    | some cmdServer =>
        let w' := exchangeWorld w args env
        if env.sent ≠ .completed then (w', none)
        else
          let cmdL := (pcReqCreateClientRspCb w'.buf).getD ⟨0, 0, 0, 0⟩
          match ipcCmdRemoteInit none ⟨0, 0, cmdL⟩ with
          | none => (w', none)
          | some cmdL => (w', some ⟨cmdServer, cmdL, args.id env⟩)

/-! ## What it is for -/

/-- The call has added an entry for the id to the server's list. -/
def AddedEntry (w w' : World) (id : List UInt8) (c : PcSClient) : Prop :=
  w'.server.clientList = w.server.clientList ++ [c] ∧ c.key = id

/-- The library and the server agree: there is a client exactly if the server has added
the id, then it is attached to the channel of that entry, and where the library gives up
after a completed exchange the list of the server is as it was. -/
structure Agrees (w : World) (args : CreateArgs) (env : CreateEnv) : Prop where
  added : (pcReqCreateClient w args env).2.isSome ↔
    ∃ c, AddedEntry w (pcReqCreateClient w args env).1 (args.id env).bytes c
  channel : ∀ client, (pcReqCreateClient w args env).2 = some client →
    ∀ c, AddedEntry w (pcReqCreateClient w args env).1 (args.id env).bytes c →
      client.cmdL.cmd = c.clientCmd
  clean : (pcReqCreateClient w args env).2 = none → env.sent = .completed →
    (pcReqCreateClient w args env).1.server.clientList = w.server.clientList

/-- The request reaches the server, and the server can do what it asks for: the library
accepts the arguments, has its memory and finds the server, the id is not registered, and
the server has its memory and the channel. -/
def Grants (w : World) (args : CreateArgs) (env : CreateEnv) (a : Alloc) : Prop :=
  1 ≤ args.idLen ∧ args.idLen ≤ maxClientIdLen ∧ args.callback = true ∧ env.mallocs = true ∧
    (ipcCmdRemoteInit env.found (serverCmd args env)).isSome ∧ env.sent.taken = true ∧
    findClient w.server.clientList (args.id env).padded (args.id env).len = none ∧
    env.alloc = some a

/-- The kernel's identifiers are positive and the memory is not empty. -/
def Attachable (args : CreateArgs) (a : Alloc) : Prop :=
  0 < a.semid.toInt32 ∧ 0 < a.shmid.toInt32 ∧
    0 < (a.channel (reserveSize + args.bufferSize)).size

instance (args : CreateArgs) (a : Alloc) : Decidable (Attachable args a) :=
  inferInstanceAs (Decidable (0 < a.semid.toInt32 ∧ 0 < a.shmid.toInt32 ∧
    0 < (a.channel (reserveSize + args.bufferSize)).size))

/-! ## The call -/

/-- A length that the library accepts is sent as it is. -/
theorem CreateArgs.toNat_len_id {args : CreateArgs} (env : CreateEnv)
    (h : args.idLen ≤ maxClientIdLen) : (args.id env).len.toNat = args.idLen := by
  have hle : args.idLen ≤ 8 := h
  simp only [CreateArgs.id, ClientId.copied, UInt32.toNat_ofNat']
  omega

/-- The id that is sent, where the library accepts its length. -/
def CreateArgs.peerId (args : CreateArgs) (env : CreateEnv) (h₁ : 1 ≤ args.idLen)
    (h₂ : args.idLen ≤ maxClientIdLen) : PeerId where
  toClientId := args.id env
  pos := (toNat_len_id env h₂).symm ▸ h₁
  le := (toNat_len_id env h₂).symm ▸ h₂

/-- The library attaches to a channel by its identifiers if they are positive. -/
theorem ipcCmdRemoteInit_channel (args : CreateArgs) (a : Alloc) :
    ipcCmdRemoteInit none ⟨0, 0, a.channel (reserveSize + args.bufferSize)⟩ =
      if Attachable args a then some ⟨0, 0, a.channel (reserveSize + args.bufferSize)⟩
      else none := by
  have hkey : ¬ ((0 : Int32) < 0 ∧ (0 : Int32) < 0) := by decide
  have hnsems : (0 : Int32) < UInt32.toInt32 3 := by decide
  simp only [ipcCmdRemoteInit, hkey, if_false, Attachable, Alloc.channel, hnsems, true_and]
  rfl

/-- A cleared channel is not attached to. -/
theorem ipcCmdRemoteInit_cleared : ipcCmdRemoteInit none ⟨0, 0, ⟨0, 0, 0, 0⟩⟩ = none := by
  decide

section Call

variable {w : World} {args : CreateArgs} {env : CreateEnv}

/-- The server after a granted request, whatever then becomes of the exchange. -/
theorem exchangeWorld_granted {a : Alloc} (h : Grants w args env a) :
    ∃ (c : PcSClient) (m : Mem), exchangeWorld w args env =
        ⟨{ w.server with clientList := w.server.clientList ++ [c] },
          m.write 0 (rspBytes cmdGetServerRsp cmdSuccess c.clientCmd.bytes)⟩ ∧
      c.key = (args.id env).bytes ∧
      c.clientCmd = a.channel (reserveSize + args.bufferSize) := by
  obtain ⟨h₁, h₂, -, -, -, htaken, hfind, halloc⟩ := h
  have hlen : ¬ (args.id env).len.toInt32 > 8 := not_toInt32_gt (args.peerId env h₁ h₂).le
  have hrecv := recv_createRemoteServer w (args.peerId env h₁ h₂) (reserveSize + args.bufferSize)
    env.pid env.alloc
  simp only [CreateArgs.peerId, createRemoteServer, hfind, hlen, if_false, halloc] at hrecv
  refine ⟨newClient (args.peerId env h₁ h₂) (reserveSize + args.bufferSize) env.pid a,
    pcReqCreateClientReqCb (args.id env) (reserveSize + args.bufferSize) env.pid w.buf, ?_,
    key_newClient _ _ _ _, rfl⟩
  simp only [exchangeWorld, htaken, if_true, halloc]
  exact hrecv

/-- Where the request is granted, the server adds the client, and the library has one if
the exchange completes and the channel can be attached to. -/
theorem pcReqCreateClient_granted {a : Alloc} (h : Grants w args env a) :
    ∃ c : PcSClient, AddedEntry w (pcReqCreateClient w args env).1 (args.id env).bytes c ∧
      (pcReqCreateClient w args env).2.map (fun client => client.cmdL.cmd) =
        if env.sent = .completed ∧ Attachable args a then some c.clientCmd else none := by
  obtain ⟨c, m, hworld, hkey, hcmd⟩ := exchangeWorld_granted h
  obtain ⟨h₁, h₂, hcallback, hmallocs, hinit, -, -, -⟩ := h
  obtain ⟨cmdServer, hserver⟩ := Option.isSome_iff_exists.mp hinit
  have hrange : ¬ (args.idLen = 0 ∨ args.idLen > maxClientIdLen) := by omega
  refine ⟨c, ?_⟩
  simp only [pcReqCreateClient, hrange, if_false, hcallback, hmallocs, not_true, hserver, hworld,
    pcReqCreateClientRspCb, channelRsp_success, Option.getD_some, hcmd,
    ipcCmdRemoteInit_channel]
  by_cases hsent : env.sent = .completed
  · by_cases hatt : Attachable args a
    · simp [hsent, hatt, AddedEntry, hkey]
    · simp [hsent, hatt, AddedEntry, hkey]
  · simp [hsent, AddedEntry, hkey]

/-- The server after a request that it refuses or does not get. -/
theorem exchangeWorld_refused (w : World) (env : CreateEnv) (h₁ : 1 ≤ args.idLen)
    (h₂ : args.idLen ≤ maxClientIdLen)
    (h : env.sent.taken = true →
      findClient w.server.clientList (args.id env).padded (args.id env).len = none →
      env.alloc = none) :
    (exchangeWorld w args env).server = w.server ∧
      (env.sent.taken = true → pcReqCreateClientRspCb (exchangeWorld w args env).buf = none) := by
  by_cases htaken : env.sent.taken = true
  · have hlen : ¬ (args.id env).len.toInt32 > 8 := not_toInt32_gt (args.peerId env h₁ h₂).le
    have hrecv := recv_createRemoteServer w (args.peerId env h₁ h₂)
      (reserveSize + args.bufferSize) env.pid env.alloc
    have hcreate : createRemoteServer w.server (reserveSize + args.bufferSize)
        (args.id env).padded (args.id env).len env.pid env.alloc = (w.server, none) := by
      cases hfind : findClient w.server.clientList (args.id env).padded (args.id env).len with
      | some c => simp only [createRemoteServer, hfind]
      | none => simp only [createRemoteServer, hfind, hlen, if_false, h htaken hfind]
    simp only [CreateArgs.peerId, hcreate] at hrecv
    simp only [exchangeWorld, htaken, if_true, hrecv, pcReqCreateClientRspCb, channelRsp_failed,
      implies_true, and_self]
  · refine ⟨?_, fun ht => absurd ht htaken⟩
    rw [exchangeWorld, if_neg htaken]
    by_cases hp : env.sent = .pSendFailed
    · rw [if_pos hp]
    · rw [if_neg hp]

/-- Where it is not, the list of the server stays as it is, and there is no client. -/
theorem pcReqCreateClient_not_granted (h : ∀ a, ¬ Grants w args env a) :
    (pcReqCreateClient w args env).1.server.clientList = w.server.clientList ∧
      (pcReqCreateClient w args env).2 = none := by
  by_cases hrange : args.idLen = 0 ∨ args.idLen > maxClientIdLen
  · simp [pcReqCreateClient, hrange]
  by_cases hcallback : args.callback = true
  swap
  · simp [pcReqCreateClient, hcallback]
  by_cases hmallocs : env.mallocs = true
  swap
  · simp [pcReqCreateClient, hmallocs]
  cases hinit : ipcCmdRemoteInit env.found (serverCmd args env) with
  | none => simp [pcReqCreateClient, hinit]
  | some cmdServer =>
      have h₁ : 1 ≤ args.idLen := by omega
      have h₂ : args.idLen ≤ maxClientIdLen := by omega
      obtain ⟨hserver, hbuf⟩ := exchangeWorld_refused w env h₁ h₂ <| by
        intro htaken hfind
        by_contra hne
        obtain ⟨a, ha⟩ := Option.ne_none_iff_exists'.mp hne
        exact h a ⟨h₁, h₂, hcallback, hmallocs, by simp [hinit], htaken, hfind, ha⟩
      simp only [pcReqCreateClient, hrange, if_false, hcallback, hmallocs, not_true, hinit]
      by_cases hsent : env.sent = .completed
      · have hcleared := hbuf (by rw [hsent]; rfl)
        simp [hsent, hcleared, ipcCmdRemoteInit_cleared, hserver]
      · simp [hsent, hserver]

/-- **Registration agreement.** For every server, every call and all answers of the kernel:
the library and the server agree exactly if the request is not granted, or the exchange
completes and the identifiers of the new channel are positive. -/
theorem registration_agrees_iff (w : World) (args : CreateArgs) (env : CreateEnv) :
    Agrees w args env ↔
      ∀ a, Grants w args env a → env.sent = .completed ∧ Attachable args a := by
  constructor
  · intro hagrees a hgrants
    obtain ⟨c, hadded, hclient⟩ := pcReqCreateClient_granted hgrants
    have hsome := hagrees.added.mpr ⟨c, hadded⟩
    by_contra hno
    rw [if_neg hno, Option.map_eq_none_iff] at hclient
    simp [hclient] at hsome
  · intro h
    by_cases hgrants : ∃ a, Grants w args env a
    · obtain ⟨a, ha⟩ := hgrants
      obtain ⟨c, hadded, hclient⟩ := pcReqCreateClient_granted ha
      rw [if_pos (h a ha), Option.map_eq_some_iff] at hclient
      obtain ⟨client, hsome, hcmd⟩ := hclient
      refine ⟨?_, ?_, ?_⟩
      · simp only [hsome, Option.isSome_some, true_iff]
        exact ⟨c, hadded⟩
      · intro client' hclient' c' hadded'
        obtain rfl : client = client' := Option.some.inj (hsome.symm.trans hclient')
        have hlist := hadded.1.symm.trans hadded'.1
        obtain rfl : c = c' := by simpa using hlist
        exact hcmd
      · intro hnone
        simp [hsome] at hnone
    · obtain ⟨hlist, hnone⟩ := pcReqCreateClient_not_granted fun a ha => hgrants ⟨a, ha⟩
      refine ⟨?_, ?_, fun _ _ => hlist⟩
      · simp only [hnone, Option.isSome_none, Bool.false_eq_true, false_iff]
        rintro ⟨c, hadded, -⟩
        simp [hlist] at hadded
      · intro client hclient
        simp [hnone] at hclient

end Call

/-- A call of `wi_register`, with the keys of the bus. -/
def registerFirst : CreateArgs := ⟨0x005FC0DE, 0x005FC0DE, 1800, firstId.data.toList, 8, true⟩

/-- Everything succeeds, and the kernel gives the new semaphore set an identifier. -/
def kernelGives (semid : UInt32) : CreateEnv :=
  ⟨true, ⟨0, 0, 0, 0⟩, Vector.replicate 8 0, some (1, 1), 7, .completed,
    some ⟨1, Vector.replicate 8 0, semid, 6⟩⟩

/-- With the identifier zero the first client of a new server gets nothing, but is in the
list. -/
theorem registration_disagrees_at_zero :
    ¬ Agrees (World.init none none fun _ => 0) registerFirst (kernelGives 0) := by
  intro h
  have hnone : (pcReqCreateClient (World.init none none fun _ => 0) registerFirst
      (kernelGives 0)).2.isNone = true := by decide
  have hlist : (pcReqCreateClient (World.init none none fun _ => 0) registerFirst
      (kernelGives 0)).1.server.clientList.length = 1 := by decide
  have hclean := h.clean (Option.isNone_iff_eq_none.mp hnone) rfl
  rw [hclean] at hlist
  exact absurd hlist (by decide)

end CCode.MemShare
