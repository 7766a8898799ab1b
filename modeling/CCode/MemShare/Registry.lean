import CCode.Lib.KeyedList
import CCode.Lib.Transition
import CCode.MemShare.ProcComm

/-!
# The client registry as a finite map

A request travels from the client library through the shared buffer into the server's
callback, and the reply back. `serve` is that round trip: the library's encoder, the
server, the library's decoder, all on the one buffer and whatever it held before.

`registry_refines` says that the registry is a finite map from ids to channels: over any
sequence of requests ids stay unique, every request does to the map what it is for, and
the library learns it. The allocator is asked for one thing, that a new object is not at
the address of one that is still registered.

## Main definitions

* `PeerId` — an id as the library sends it, of one to eight bytes.
* `Request`, `Outcome`, `serve` — the round trip.
* `ClientMap`, `spec` — the map and what the requests mean on it.
* `RegistryInv` — what holds of the list between requests.
-/

namespace CCode.MemShare

open CCode.Lib

/-- An id that the client library accepts. -/
structure PeerId extends ClientId where
  pos : 1 ≤ len.toNat
  le : len.toNat ≤ maxClientIdLen

/-- The requests of the library that concern the registry. -/
inductive Request
  | create (id : PeerId) (size pid : UInt32) (alloc : Alloc)
  | close (id : PeerId)
  | getClient (id : PeerId)

/-- What the library makes of the reply. -/
inductive Outcome
  | channel (c : IpcCmd)
  | closed
  | refused
  deriving DecidableEq

/-- The server and the buffer of its channel. -/
structure World where
  server : PcServer
  buf : Mem

/-- A server as `pc_create_server` makes it, with anything in the buffer. -/
def World.init (isBroadcaseCb : Option (List UInt8 → UInt32 → Bool))
    (isBcMatchCb : Option (List UInt8 → List UInt8 → UInt32 → Bool)) (buf : Mem) : World :=
  ⟨⟨isBroadcaseCb, isBcMatchCb, []⟩, buf⟩

/-- The server's callback on the buffer. No message is passed on for these requests, so
the status of one does not matter. -/
def World.recv (w : World) (buf : Mem) (alloc : Option Alloc) : World :=
  let (server, buf, _) := pcServerRecvCb w.server buf alloc fun _ => cmdSuccess
  ⟨server, buf⟩

/-- The outcome of a reply that carries a channel. -/
def Outcome.ofChannel : Option IpcCmd → Outcome
  | some c => .channel c
  | none => .refused

/-- A request, from the library and back to it. -/
def serve (w : World) : Request → World × Outcome
  | .create id size pid alloc =>
      let w' := w.recv (pcReqCreateClientReqCb id.toClientId size pid w.buf) (some alloc)
      (w', .ofChannel (pcReqCreateClientRspCb w'.buf))
  | .close id =>
      let w' := w.recv (pcReqDestroyClientReqCb id.toClientId w.buf) none
      (w', if pcReqDestroyClientRspCb w'.buf then .closed else .refused)
  | .getClient id =>
      let w' := w.recv (pcCGetClientReqCb id.toClientId w.buf) none
      (w', .ofChannel (pcCGetClientRspCb w'.buf))

/-! ## The map -/

/-- A map from ids to channels. -/
abbrev ClientMap := List UInt8 → Option IpcCmd

/-- The channel that a new client gets. -/
def Alloc.channel (a : Alloc) (size : UInt32) : IpcCmd :=
  ⟨a.semid, cmdNsems, a.shmid, reserveSize + size⟩

/-- What the requests mean: create a new entry, remove an entry, look one up. -/
def spec (m : ClientMap) : Request → ClientMap × Outcome
  | .create id size _ alloc =>
      match m id.bytes with
      | some _ => (m, .refused)
      | none =>
          (Function.update m id.bytes (some (alloc.channel size)), .channel (alloc.channel size))
  | .close id =>
      match m id.bytes with
      | some _ => (Function.update m id.bytes none, .closed)
      | none => (m, .refused)
  | .getClient id => (m, .ofChannel (m id.bytes))

/-- The id of a registered client. -/
def PcSClient.key (c : PcSClient) : List UInt8 := c.id.bytes

/-- The map that a list of clients stands for. -/
def toMap (list : List PcSClient) : ClientMap := fun id =>
  (lookupKey PcSClient.key list id).map PcSClient.clientCmd

/-- What holds of the list between requests: ids and addresses are unique, and the ids have
at most eight bytes. -/
structure RegistryInv (list : List PcSClient) : Prop where
  keys : (list.map PcSClient.key).Nodup
  addrs : (list.map PcSClient.addr).Nodup
  len_le : ∀ c ∈ list, c.id.len.toNat ≤ maxClientIdLen

/-! ## Ids -/

theorem ClientId.length_bytes {id : ClientId} (h : id.len.toNat ≤ maxClientIdLen) :
    id.bytes.length = id.len.toNat := by
  simpa [bytes] using h

theorem ClientId.length_padded {id : ClientId} (h : id.len.toNat ≤ maxClientIdLen) :
    id.padded.length = maxClientIdLen := by
  simp [padded, length_bytes h]
  omega

theorem ClientId.take_padded {id : ClientId} (h : id.len.toNat ≤ maxClientIdLen) :
    id.padded.take id.len.toNat = id.bytes := by
  rw [padded, List.take_left' (length_bytes h)]

/-- The search condition compares ids, both their length and their bytes. -/
theorem listFindClientCb_iff {id : ClientId} (h : id.len.toNat ≤ maxClientIdLen)
    {c : PcSClient} (hc : c.id.len.toNat ≤ maxClientIdLen) :
    listFindClientCb id.padded id.len c = true ↔ c.key = id.bytes := by
  simp only [listFindClientCb, ClientId.take_padded h, decide_eq_true_eq, PcSClient.key]
  constructor
  · rintro ⟨hlen, hcmp⟩
    rw [← hlen] at hcmp
    have hbytes : c.id.bytes.length = id.bytes.length := by
      rw [ClientId.length_bytes hc, ClientId.length_bytes h, hlen]
    exact (memcmp_eq_zero_iff hbytes).mp hcmp
  · intro hkey
    have hlen : c.id.len = id.len := by
      apply UInt32.toNat_inj.mp
      rw [← ClientId.length_bytes hc, ← ClientId.length_bytes h, hkey]
    refine ⟨hlen, ?_⟩
    rw [← hlen]
    exact (memcmp_eq_zero_iff (by rw [← hkey]; rfl)).mpr hkey

/-- The search of the source is the lookup of a key. -/
theorem findClient_eq {list : List PcSClient} (h : RegistryInv list) (id : PeerId) :
    findClient list id.padded id.len = lookupKey PcSClient.key list id.bytes := by
  have hlen := h.len_le
  clear h
  induction list with
  | nil => rfl
  | cons c list ih =>
      have hiff := listFindClientCb_iff id.le (hlen c (by simp))
      have htail := ih fun d hd => hlen d (by simp [hd])
      simp only [findClient, lookupKey] at htail ⊢
      by_cases hc : c.key = id.bytes
      · simp [hiff.mpr hc, hc]
      · have hno : listFindClientCb id.padded id.len c = false := by
          simpa using mt hiff.mp hc
        simp [hno, hc, htail]

/-! ## The buffer -/

/-- The opcode, the length and the id of a request are read back. -/
theorem idRequest_fields (cmd : UInt32) (id : PeerId) (rest : List UInt8) (m : Mem) :
    (idRequest cmd id.toClientId rest m).u32 0 = cmd ∧
      (idRequest cmd id.toClientId rest m).u32 4 = id.len ∧
      (idRequest cmd id.toClientId rest m).read 8 maxClientIdLen = id.padded := by
  refine ⟨?_, ?_, ?_⟩
  · exact m.u32_write_of_eq [] _ (by simp; rfl) rfl
  · exact m.u32_write_of_eq (le32 cmd) _ (by simp; rfl) rfl
  · exact m.read_write_of_eq (le32 cmd ++ le32 id.len) _ (by simp; rfl) rfl
      (ClientId.length_padded id.le)

/-- The size and the process in a creation are read back. -/
theorem pcReqCreateClientReqCb_fields (id : PeerId) (size pid : UInt32) (m : Mem) :
    (pcReqCreateClientReqCb id.toClientId size pid m).u32 16 = size ∧
      (pcReqCreateClientReqCb id.toClientId size pid m).u32 20 = pid := by
  have hlen : (le32 cmdGetServerReq ++ le32 id.len ++ id.padded).length = 16 := by
    simp [ClientId.length_padded id.le, maxClientIdLen]
  refine ⟨?_, ?_⟩
  · exact m.u32_write_of_eq _ _ rfl hlen
  · refine m.u32_write_of_eq (le32 cmdGetServerReq ++ le32 id.len ++ id.padded ++ le32 size) []
      (by simp) ?_
    rw [List.length_append, hlen, length_le32]

/-- The opcode and the state of a response are read back. -/
theorem response_fields (m : Mem) (cmd state : UInt32) (rest : List UInt8) :
    (m.write 0 (rspBytes cmd state rest)).u32 0 = cmd ∧
      (m.write 0 (rspBytes cmd state rest)).u32 4 = state := by
  refine ⟨?_, ?_⟩
  · exact m.u32_write_of_eq [] _ (by simp [rspBytes]; rfl) rfl
  · exact m.u32_write_of_eq (le32 cmd) _ (by simp [rspBytes]; rfl) rfl

/-- And so is the channel in it. -/
theorem readIpcCmd_response (m : Mem) (cmd state : UInt32) (c : IpcCmd) :
    readIpcCmd (m.write 0 (rspBytes cmd state c.bytes)) = c := by
  have hsem : (m.write 0 (rspBytes cmd state c.bytes)).u32 8 = c.semid :=
    m.u32_write_of_eq (le32 cmd ++ le32 state) _ (by simp [rspBytes, IpcCmd.bytes]; rfl) rfl
  have hnsems : (m.write 0 (rspBytes cmd state c.bytes)).u32 12 = c.nsems :=
    m.u32_write_of_eq (le32 cmd ++ le32 state ++ le32 c.semid) _
      (by simp [rspBytes, IpcCmd.bytes]; rfl) rfl
  have hshm : (m.write 0 (rspBytes cmd state c.bytes)).u32 16 = c.shmid :=
    m.u32_write_of_eq (le32 cmd ++ le32 state ++ le32 c.semid ++ le32 c.nsems) _
      (by simp [rspBytes, IpcCmd.bytes]; rfl) rfl
  have hsize : (m.write 0 (rspBytes cmd state c.bytes)).u32 20 = c.size :=
    m.u32_write_of_eq (le32 cmd ++ le32 state ++ le32 c.semid ++ le32 c.nsems ++ le32 c.shmid) []
      (by simp [rspBytes, IpcCmd.bytes]) rfl
  rw [readIpcCmd, hsem, hnsems, hshm, hsize]

/-- The library decodes a failure as one, and a success with its channel. -/
theorem channelRsp_failed (cmd : UInt32) (m : Mem) :
    channelRsp cmd (m.write 0 (rspBytes cmd cmdFailed [])) = none := by
  obtain ⟨hcmd, hstate⟩ := response_fields m cmd cmdFailed []
  have hne : ¬ cmdFailed = cmdSuccess := by decide
  simp [channelRsp, hcmd, hstate, hne]

theorem channelRsp_success (cmd : UInt32) (m : Mem) (c : IpcCmd) :
    channelRsp cmd (m.write 0 (rspBytes cmd cmdSuccess c.bytes)) = some c := by
  obtain ⟨hcmd, hstate⟩ := response_fields m cmd cmdSuccess c.bytes
  simp [channelRsp, hcmd, hstate, readIpcCmd_response]

/-! ## The requests on the list -/

/-- The client that a successful creation adds. -/
def newClient (id : PeerId) (size pid : UInt32) (a : Alloc) : PcSClient where
  addr := a.addr
  clientCmd := a.channel size
  id := .copied a.residue id.padded id.len
  pid := pid

/-- The new client has the id that was asked for, whatever its memory held before. -/
theorem key_newClient (id : PeerId) (size pid : UInt32) (a : Alloc) :
    (newClient id size pid a).key = id.bytes := by
  rw [← ClientId.take_padded id.le]
  have hle := id.le
  apply List.ext_getElem
  · simp [PcSClient.key, newClient, ClientId.copied, ClientId.bytes, ClientId.length_padded id.le]
  · intro i h₁ h₂
    have hi : i < id.len.toNat := by
      simp [PcSClient.key, newClient, ClientId.copied, ClientId.bytes] at h₁
      omega
    have hpad : i < id.padded.length := by
      rw [ClientId.length_padded id.le]
      omega
    simp [PcSClient.key, newClient, ClientId.copied, ClientId.bytes, hi, hpad]

theorem not_toInt32_gt {len : UInt32} (h : len.toNat ≤ maxClientIdLen) : ¬ len.toInt32 > 8 := by
  have hlen : len = UInt32.ofNat len.toNat := by simp
  revert h hlen
  generalize len.toNat = n
  rintro h rfl
  interval_cases n <;> decide

/-- A creation reaches `create_remote_server` with what was asked for, and its result comes
back in the response. -/
theorem recv_createRemoteServer (w : World) (id : PeerId) (size pid : UInt32)
    (alloc : Option Alloc) :
    let buf := pcReqCreateClientReqCb id.toClientId size pid w.buf
    w.recv buf alloc =
      match createRemoteServer w.server size id.padded id.len pid alloc with
      | (server, none) => ⟨server, buf.write 0 (rspBytes cmdGetServerRsp cmdFailed [])⟩
      | (server, some client) =>
          ⟨server, buf.write 0 (rspBytes cmdGetServerRsp cmdSuccess client.clientCmd.bytes)⟩ := by
  intro buf
  obtain ⟨hcmd, hlen, hid⟩ :=
    idRequest_fields cmdGetServerReq id (le32 size ++ le32 pid) w.buf
  obtain ⟨hsize, hpid⟩ := pcReqCreateClientReqCb_fields id size pid w.buf
  change buf.u32 0 = _ at hcmd
  change buf.u32 4 = _ at hlen
  change buf.read 8 _ = _ at hid
  change buf.u32 16 = _ at hsize
  change buf.u32 20 = _ at hpid
  simp only [World.recv, pcServerRecvCb, hcmd, hlen, hid, hsize, hpid, if_true]
  rcases createRemoteServer w.server size id.padded id.len pid alloc with ⟨server, _ | client⟩ <;>
    rfl

section Requests

variable {w : World} (h : RegistryInv w.server.clientList) (id : PeerId)
include h

/-- A creation appends the new client, unless the id is there. -/
theorem recv_create (size pid : UInt32) (alloc : Alloc) :
    let buf := pcReqCreateClientReqCb id.toClientId size pid w.buf
    w.recv buf (some alloc) =
      match lookupKey PcSClient.key w.server.clientList id.bytes with
      | some _ => ⟨w.server, buf.write 0 (rspBytes cmdGetServerRsp cmdFailed [])⟩
      | none =>
          ⟨{ w.server with
              clientList := w.server.clientList ++ [newClient id size pid alloc] },
            buf.write 0 (rspBytes cmdGetServerRsp cmdSuccess (alloc.channel size).bytes)⟩ := by
  intro buf
  rw [recv_createRemoteServer]
  simp only [createRemoteServer, findClient_eq h id, not_toInt32_gt id.le, if_false]
  cases lookupKey PcSClient.key w.server.clientList id.bytes <;> rfl

/-- A removal filters the id out, if it is there. -/
theorem recv_close :
    let buf := pcReqDestroyClientReqCb id.toClientId w.buf
    w.recv buf none =
      match lookupKey PcSClient.key w.server.clientList id.bytes with
      | none => ⟨w.server, buf.write 0 (rspBytes cmdCloseServerRsp cmdFailed [])⟩
      | some _ =>
          ⟨{ w.server with
              clientList := w.server.clientList.filter fun c => c.key ≠ id.bytes },
            buf.write 0 (rspBytes cmdCloseServerRsp cmdSuccess [])⟩ := by
  intro buf
  obtain ⟨hcmd, hlen, hid⟩ := idRequest_fields cmdCloseServerReq id [] w.buf
  change buf.u32 0 = _ at hcmd
  change buf.u32 4 = _ at hlen
  change buf.read 8 _ = _ at hid
  have hne : ¬ cmdCloseServerReq = cmdGetServerReq := by decide
  simp only [World.recv, pcServerRecvCb, hcmd, hlen, hid, hne, if_true, if_false,
    destroyRemoteServer, findClient_eq h id]
  cases hfind : lookupKey PcSClient.key w.server.clientList id.bytes with
  | none => rfl
  | some c =>
      obtain ⟨hc, hkey⟩ := mem_of_lookupKey hfind
      simp only [removeClient, eraseP_eq_filter h.addrs h.keys hc, hkey]

/-- A lookup changes nothing and answers with the channel of the id. -/
theorem recv_getClient :
    let buf := pcCGetClientReqCb id.toClientId w.buf
    w.recv buf none =
      match lookupKey PcSClient.key w.server.clientList id.bytes with
      | none => ⟨w.server, buf.write 0 (rspBytes cmdGetClientRsp cmdFailed [])⟩
      | some c =>
          ⟨w.server, buf.write 0 (rspBytes cmdGetClientRsp cmdSuccess c.clientCmd.bytes)⟩ := by
  intro buf
  obtain ⟨hcmd, hlen, hid⟩ := idRequest_fields cmdGetClientReq id [] w.buf
  change buf.u32 0 = _ at hcmd
  change buf.u32 4 = _ at hlen
  change buf.read 8 _ = _ at hid
  have hne₁ : ¬ cmdGetClientReq = cmdGetServerReq := by decide
  have hne₂ : ¬ cmdGetClientReq = cmdCloseServerReq := by decide
  simp only [World.recv, pcServerRecvCb, hcmd, hlen, hid, hne₁, hne₂, if_true, if_false,
    findClient_eq h id]
  cases lookupKey PcSClient.key w.server.clientList id.bytes <;> rfl

end Requests

/-! ## Refinement -/

theorem toMap_append {list : List PcSClient} {c : PcSClient} (h : c.key ∉ list.map PcSClient.key) :
    toMap (list ++ [c]) = Function.update (toMap list) c.key (some c.clientCmd) := by
  funext k
  rw [toMap, lookupKey_append h]
  by_cases hk : k = c.key
  · simp [hk]
  · simp [hk, toMap]

theorem toMap_filter (list : List PcSClient) (id : List UInt8) :
    toMap (list.filter fun c => c.key ≠ id) = Function.update (toMap list) id none := by
  funext k
  rw [toMap, lookupKey_filter]
  by_cases hk : k = id
  · simp [hk]
  · simp [hk, toMap]

/-- The opcode that the reply to a request has. -/
def Request.rspCmd : Request → UInt32
  | .create .. => cmdGetServerRsp
  | .close _ => cmdCloseServerRsp
  | .getClient _ => cmdGetClientRsp

/-- The state that a reply with an outcome has. -/
def Outcome.state : Outcome → UInt32
  | .channel _ | .closed => cmdSuccess
  | .refused => cmdFailed

/-- The request does to the list what it means on the map, the library learns the outcome,
a refused request leaves the list alone, and the reply in the buffer says so. -/
structure Refines (w : World) (r : Request) : Prop where
  map : toMap (serve w r).1.server.clientList = (spec (toMap w.server.clientList) r).1
  outcome : (serve w r).2 = (spec (toMap w.server.clientList) r).2
  unchanged : (serve w r).2 = .refused →
    (serve w r).1.server.clientList = w.server.clientList
  opcode : (serve w r).1.buf.u32 0 = r.rspCmd
  state : (serve w r).1.buf.u32 4 = (serve w r).2.state

theorem Refines.of_refused {w : World} {r : Request} {m : Mem}
    (hserve : serve w r = (⟨w.server, m.write 0 (rspBytes r.rspCmd cmdFailed [])⟩, .refused))
    (hspec : spec (toMap w.server.clientList) r = (toMap w.server.clientList, .refused)) :
    Refines w r := by
  obtain ⟨hcmd, hstate⟩ := response_fields m r.rspCmd cmdFailed []
  exact ⟨by rw [hserve, hspec], by rw [hserve, hspec], fun _ => by rw [hserve],
    by rw [hserve]; exact hcmd, by rw [hserve]; exact hstate⟩

theorem Refines.of_success {w : World} {r : Request} {m : Mem} (list : List PcSClient)
    (o : Outcome) (rest : List UInt8) (ho : o.state = cmdSuccess)
    (hserve : serve w r =
      (⟨{ w.server with clientList := list }, m.write 0 (rspBytes r.rspCmd cmdSuccess rest)⟩, o))
    (hspec : spec (toMap w.server.clientList) r = (toMap list, o)) : Refines w r := by
  obtain ⟨hcmd, hstate⟩ := response_fields m r.rspCmd cmdSuccess rest
  have hne : o ≠ .refused := by
    rintro rfl
    exact absurd ho (by decide)
  refine ⟨by rw [hserve, hspec], by rw [hserve, hspec], ?_, by rw [hserve]; exact hcmd,
    by rw [hserve, ho]; exact hstate⟩
  intro h
  rw [hserve] at h
  exact absurd h hne

/-- **Every request refines its meaning on the map**, from a list in order. -/
theorem RegistryInv.refines {w : World} (h : RegistryInv w.server.clientList) (r : Request) :
    Refines w r := by
  cases r with
  | create id size pid alloc =>
      have hrecv := recv_create h id size pid alloc
      cases hfind : lookupKey PcSClient.key w.server.clientList id.bytes with
      | some c =>
          simp only [hfind] at hrecv
          refine .of_refused (m := pcReqCreateClientReqCb id.toClientId size pid w.buf) ?_ ?_
          · simp [serve, hrecv, pcReqCreateClientRspCb, channelRsp_failed, Outcome.ofChannel,
              Request.rspCmd]
          · simp [spec, toMap, hfind]
      | none =>
          simp only [hfind] at hrecv
          have hnew : (newClient id size pid alloc).key ∉
              w.server.clientList.map PcSClient.key := by
            rw [key_newClient]
            exact lookupKey_eq_none_iff.mp hfind
          refine .of_success (m := pcReqCreateClientReqCb id.toClientId size pid w.buf)
            (w.server.clientList ++ [newClient id size pid alloc])
            (.channel (alloc.channel size)) (alloc.channel size).bytes rfl ?_ ?_
          · simp [serve, hrecv, pcReqCreateClientRspCb, channelRsp_success, Outcome.ofChannel,
              Request.rspCmd]
          · rw [toMap_append hnew, key_newClient]
            simp [spec, toMap, hfind, newClient]
  | close id =>
      have hrecv := recv_close h id
      cases hfind : lookupKey PcSClient.key w.server.clientList id.bytes with
      | none =>
          simp only [hfind] at hrecv
          obtain ⟨hcmd, hstate⟩ := response_fields (pcReqDestroyClientReqCb id.toClientId w.buf)
            cmdCloseServerRsp cmdFailed []
          have hne : ¬ cmdFailed = cmdSuccess := by decide
          refine .of_refused (m := pcReqDestroyClientReqCb id.toClientId w.buf) ?_ ?_
          · simp [serve, hrecv, pcReqDestroyClientRspCb, hstate, hne, Request.rspCmd]
          · simp [spec, toMap, hfind]
      | some c =>
          simp only [hfind] at hrecv
          obtain ⟨hcmd, hstate⟩ := response_fields (pcReqDestroyClientReqCb id.toClientId w.buf)
            cmdCloseServerRsp cmdSuccess []
          refine .of_success (m := pcReqDestroyClientReqCb id.toClientId w.buf)
            (w.server.clientList.filter fun c => c.key ≠ id.bytes) .closed [] rfl ?_ ?_
          · simp [serve, hrecv, pcReqDestroyClientRspCb, hcmd, hstate, Request.rspCmd]
          · rw [toMap_filter]
            simp [spec, toMap, hfind]
  | getClient id =>
      have hrecv := recv_getClient h id
      cases hfind : lookupKey PcSClient.key w.server.clientList id.bytes with
      | none =>
          simp only [hfind] at hrecv
          refine .of_refused (m := pcCGetClientReqCb id.toClientId w.buf) ?_ ?_
          · simp [serve, hrecv, pcCGetClientRspCb, channelRsp_failed, Outcome.ofChannel,
              Request.rspCmd]
          · simp [spec, toMap, hfind, Outcome.ofChannel]
      | some c =>
          simp only [hfind] at hrecv
          refine .of_success (m := pcCGetClientReqCb id.toClientId w.buf)
            w.server.clientList (.channel c.clientCmd) c.clientCmd.bytes rfl ?_ ?_
          · simp [serve, hrecv, pcCGetClientRspCb, channelRsp_success, Outcome.ofChannel,
              Request.rspCmd]
          · simp [spec, toMap, hfind, Outcome.ofChannel]

/-! ## The invariant along a run -/

/-- The allocator does not return the address of an object that is still registered. -/
def AddrFresh (w : World) : Request → Prop
  | .create _ _ _ alloc => ∀ c ∈ w.server.clientList, c.addr ≠ alloc.addr
  | .close _ | .getClient _ => True

theorem registryInv_nil : RegistryInv [] := ⟨List.nodup_nil, List.nodup_nil, by simp⟩

theorem RegistryInv.append {list : List PcSClient} (h : RegistryInv list) {c : PcSClient}
    (hkey : c.key ∉ list.map PcSClient.key) (haddr : ∀ d ∈ list, d.addr ≠ c.addr)
    (hlen : c.id.len.toNat ≤ maxClientIdLen) : RegistryInv (list ++ [c]) where
  keys := by simpa [List.nodup_append, h.keys] using hkey
  addrs := by
    simpa [List.nodup_append, h.addrs] using haddr
  len_le d hd := by
    rcases List.mem_append.mp hd with hd | hd
    · exact h.len_le d hd
    · obtain rfl : d = c := by simpa using hd
      exact hlen

theorem RegistryInv.filter {list : List PcSClient} (h : RegistryInv list)
    (p : PcSClient → Bool) : RegistryInv (list.filter p) where
  keys := h.keys.sublist (List.filter_sublist.map _)
  addrs := h.addrs.sublist (List.filter_sublist.map _)
  len_le c hc := h.len_le c (List.mem_filter.mp hc).1

/-- **Every request keeps the list in order.** -/
theorem RegistryInv.serve {w : World} (h : RegistryInv w.server.clientList) {r : Request}
    (hfresh : AddrFresh w r) : RegistryInv (serve w r).1.server.clientList := by
  cases r with
  | create id size pid alloc =>
      have hrecv := recv_create h id size pid alloc
      simp only [MemShare.serve, hrecv]
      cases hfind : lookupKey PcSClient.key w.server.clientList id.bytes with
      | some c => exact h
      | none =>
          refine h.append ?_ hfresh id.le
          rw [key_newClient]
          exact lookupKey_eq_none_iff.mp hfind
  | close id =>
      have hrecv := recv_close h id
      simp only [MemShare.serve, hrecv]
      cases lookupKey PcSClient.key w.server.clientList id.bytes with
      | none => exact h
      | some c => exact h.filter _
  | getClient id =>
      have hrecv := recv_getClient h id
      simp only [MemShare.serve, hrecv]
      cases lookupKey PcSClient.key w.server.clientList id.bytes <;> exact h

/-- A creation of a new id appends the client. -/
theorem serve_create_of_new {w : World} (h : RegistryInv w.server.clientList) {id : PeerId}
    (hnew : lookupKey PcSClient.key w.server.clientList id.bytes = none) (size pid : UInt32)
    (alloc : Alloc) :
    (MemShare.serve w (.create id size pid alloc)).1.server.clientList =
        w.server.clientList ++ [newClient id size pid alloc] ∧
      (MemShare.serve w (.create id size pid alloc)).2 = .channel (alloc.channel size) := by
  have hrecv := recv_create h id size pid alloc
  simp only [hnew] at hrecv
  simp [MemShare.serve, hrecv, pcReqCreateClientRspCb, channelRsp_success, Outcome.ofChannel]

/-- A creation of a registered id is refused. -/
theorem serve_create_of_registered {w : World} (h : RegistryInv w.server.clientList)
    {id : PeerId} {c : PcSClient}
    (hold : lookupKey PcSClient.key w.server.clientList id.bytes = some c) (size pid : UInt32)
    (alloc : Alloc) :
    (MemShare.serve w (.create id size pid alloc)).1.server = w.server ∧
      (MemShare.serve w (.create id size pid alloc)).2 = .refused := by
  have hrecv := recv_create h id size pid alloc
  simp only [hold] at hrecv
  simp [MemShare.serve, hrecv, pcReqCreateClientRspCb, channelRsp_failed, Outcome.ofChannel]

/-- A removal leaves the clients with other ids. -/
theorem serve_close_list {w : World} (h : RegistryInv w.server.clientList) (id : PeerId) :
    (MemShare.serve w (.close id)).1.server.clientList =
      w.server.clientList.filter fun c => c.key ≠ id.bytes := by
  have hrecv := recv_close h id
  simp only [MemShare.serve, hrecv]
  cases hfind : lookupKey PcSClient.key w.server.clientList id.bytes with
  | some c => rfl
  | none =>
      symm
      rw [List.filter_eq_self]
      intro c hc
      have hne : c.key ≠ id.bytes := fun heq =>
        lookupKey_eq_none_iff.mp hfind (heq ▸ List.mem_map_of_mem hc)
      simpa using hne

/-- A lookup leaves the server alone, and what its reply carries is the channel of the
client that has the id. -/
theorem serve_getClient {w : World} (h : RegistryInv w.server.clientList) (dest : PeerId) :
    (MemShare.serve w (.getClient dest)).1.server = w.server ∧
      pcCGetClientRspCb (MemShare.serve w (.getClient dest)).1.buf =
        toMap w.server.clientList dest.bytes := by
  have hrecv := recv_getClient h dest
  cases hfind : lookupKey PcSClient.key w.server.clientList dest.bytes with
  | none =>
      simp only [hfind] at hrecv
      simp only [MemShare.serve, hrecv, pcCGetClientRspCb, channelRsp_failed, toMap, hfind,
        Option.map_none, and_self]
  | some c =>
      simp only [hfind] at hrecv
      simp only [MemShare.serve, hrecv, pcCGetClientRspCb, channelRsp_success, toMap, hfind,
        Option.map_some, and_self]

/-- No request changes the callbacks of the server. -/
theorem serve_callbacks {w : World} (h : RegistryInv w.server.clientList) (r : Request) :
    (MemShare.serve w r).1.server.isBroadcaseCb = w.server.isBroadcaseCb ∧
      (MemShare.serve w r).1.server.isBcMatchCb = w.server.isBcMatchCb := by
  cases r with
  | create id size pid alloc =>
      simp only [MemShare.serve, recv_create h id size pid alloc]
      cases lookupKey PcSClient.key w.server.clientList id.bytes <;> exact ⟨rfl, rfl⟩
  | close id =>
      simp only [MemShare.serve, recv_close h id]
      cases lookupKey PcSClient.key w.server.clientList id.bytes <;> exact ⟨rfl, rfl⟩
  | getClient id =>
      simp only [MemShare.serve, recv_getClient h id]
      cases lookupKey PcSClient.key w.server.clientList id.bytes <;> exact ⟨rfl, rfl⟩

/-- A request as a transition. -/
def serveStep (w : World) (r : Request) : Option World := some (MemShare.serve w r).1

/-- **The registry refines a finite map.** After every sequence of requests the ids are
unique, and the next request does to the map from ids to channels what it is for, with the
outcome that the library decodes. -/
theorem registry_refines {isBroadcaseCb : Option (List UInt8 → UInt32 → Bool)}
    {isBcMatchCb : Option (List UInt8 → List UInt8 → UInt32 → Bool)} {buf : Mem}
    {rs : List Request} {w : World}
    (h : Runs serveStep AddrFresh (World.init isBroadcaseCb isBcMatchCb buf) rs w) :
    (w.server.clientList.map PcSClient.key).Nodup ∧ ∀ r, Refines w r := by
  have hinv : RegistryInv w.server.clientList := by
    refine h.invariant (P := fun w => RegistryInv w.server.clientList) registryInv_nil ?_
    intro w r w' hinv hfresh hs
    obtain rfl : (MemShare.serve w r).1 = w' := Option.some.inj hs
    exact hinv.serve hfresh
  exact ⟨hinv.keys, hinv.refines⟩

/-- The ids `01 02` and `01`, one a prefix of the other. -/
def longId : PeerId := ⟨⟨#v[1, 2, 0, 0, 0, 0, 0, 0], 2⟩, by decide, by decide⟩

def shortId : PeerId := ⟨⟨#v[1, 2, 0, 0, 0, 0, 0, 0], 1⟩, by decide, by decide⟩

/-- The creation of a client with each of them. -/
def createLong : Request := .create longId 100 7 ⟨1, Vector.replicate 8 0, 5, 6⟩

def createShort : Request := .create shortId 100 7 ⟨2, Vector.replicate 8 9, 7, 8⟩

theorem registry_refines_prefixes :
    ∃ w, Runs serveStep AddrFresh (World.init none none fun _ => 0) [createLong, createShort] w ∧
      w.server.clientList.map PcSClient.key = [[1, 2], [1]] ∧ Refines w (.close shortId) := by
  have h₁ : Runs serveStep AddrFresh (World.init none none fun _ => 0) [createLong]
      (serve (World.init none none fun _ => 0) createLong).1 :=
    .snoc .refl (fun c hc => absurd hc List.not_mem_nil) rfl
  have h₂ := Runs.snoc (a := createShort) h₁
    (show ∀ c ∈ (serve (World.init none none fun _ => 0) createLong).1.server.clientList,
      c.addr ≠ 2 by decide) rfl
  exact ⟨_, h₂, by decide, (registry_refines h₂).2 _⟩

end CCode.MemShare
