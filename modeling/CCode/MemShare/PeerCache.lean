import CCode.MemShare.Channel
import CCode.MemShare.SendStatus

/-!
# The cache of peers

`pc_c_send` keeps the channels it has asked the server for in `dev_list`, and nobody tells
it when a peer goes away. What keeps the cache coherent is the kernel: the server removes
the semaphores of a client that unregisters, every `semop` on them fails from then on, and
`pc_c_send` takes a failed send as a reason to drop the entry.

`Net` is the registry together with any number of senders, each in one `pc_c_send` at a
time, and the receive loops of the registered clients. A request to the server is one step,
as its channel serves one at a time; the exchange with a peer is a step per `semop` and per
callback, and registrations and unregistrations may come between any two of them.
`peer_cache_coherent` says that ids are unique in every `dev_list`, that a send over a
channel that is gone fails and forgets the peer, and that what a receiver takes was sent to
the id that its channel is registered for at that moment.

The kernel is asked not to use an identifier again, and the allocators not to return the
address of an object that is still there.

## Main definitions

* `Net`, `Call`, `NetAction`, `Net.step` — the system.
* `NetFresh` — what the kernel and the allocators are asked for.
* `NetInv` — the invariant.
-/

namespace CCode.MemShare

open CCode.Lib

variable {ι : Type}

/-! ## The system -/

/-- Where a sender is in `pc_c_send`: not in it, before the request to the server, or in
`ipc_send_cmd` on the channel of a device. `err` is what `data.err` holds. -/
inductive Call
  | idle
  | resolving (dest : PeerId) (err : UInt32)
  | sending (dest : PeerId) (dev : PcSClient) (err : UInt32)

/-- The server with every client it ever created; the semaphores and the memory of the
channels, by their identifiers, the memory with the destination of the message in it; the
`dev_list` of each sender, where it is in its call, and what the last call returned. -/
structure Net (ι : Type) where
  world : World
  made : List PcSClient
  chan : UInt32 → Channel ι
  buf : UInt32 → Option PeerId
  devList : ι → List PcSClient
  call : ι → Call
  ret : ι → Option UInt32

/-- A new server, and nobody in a call. -/
def Net.init (w : World) : Net ι where
  world := w
  made := []
  chan := fun _ => Channel.init
  buf := fun _ => none
  devList := fun _ => []
  call := fun _ => .idle
  ret := fun _ => none

/-- The registered clients. -/
def Net.clients (s : Net ι) : List PcSClient := s.world.server.clientList

/-- The semaphores are there: those of a client that unregisters are removed. -/
def Net.Alive (s : Net ι) (semid : UInt32) : Prop := ∃ c ∈ s.clients, c.clientCmd.semid = semid

instance (s : Net ι) (semid : UInt32) : Decidable (s.Alive semid) :=
  inferInstanceAs (Decidable (∃ c ∈ s.clients, c.clientCmd.semid = semid))

/-- The stage is before a `semop`, not inside a callback. -/
def Stage.semop : Stage → Bool
  | .pSend | .vSRead | .pCRead | .vSend => true
  | .idle | .request | .response => false

section Steps

variable [DecidableEq ι]

/-- A move on one of the channels. -/
def Net.move (s : Net ι) (semid : UInt32) (m : Move ι) : Option (Net ι) :=
  ((s.chan semid).step m).map fun c => { s with chan := Function.update s.chan semid c }

/-- `pc_c_send` ends with a result. -/
def Net.finish (s : Net ι) (i : ι) (res : UInt32) : Net ι :=
  { s with call := Function.update s.call i .idle, ret := Function.update s.ret i (some res) }

/-- Enter `ipc_send_cmd` on the channel of a device. -/
def Net.enter (s : Net ι) (i : ι) (dest : PeerId) (dev : PcSClient) (err : UInt32) :
    Option (Net ι) :=
  (s.move dev.clientCmd.semid (.enter i)).map fun s' =>
    { s' with call := Function.update s'.call i (.sending dest dev err) }

/-- `pc_req_create_client` of a remote client, as the server sees it. A channel is created
with its semaphores set. -/
def Net.register (s : Net ι) (id : PeerId) (size pid : UInt32) (alloc : Alloc) : Net ι :=
  let r := serve s.world (.create id size pid alloc)
  if r.2 = .refused then { s with world := r.1 }
  else
    { s with
        world := r.1
        made := s.made ++ [newClient id size pid alloc]
        chan := Function.update s.chan alloc.semid Channel.init
        buf := Function.update s.buf alloc.shmid none }

/-- `pc_c_send` of a sender, up to its first `ipc_send_cmd`. -/
def Net.send (s : Net ι) (i : ι) (dest : PeerId) (err : UInt32) : Option (Net ι) :=
  match s.call i with
  | .idle =>
      match knownDev dest.toClientId (s.devList i) with
      | some dev => s.enter i dest dev err
      | none => some { s with call := Function.update s.call i (.resolving dest err) }
  | .resolving .. | .sending .. => none

/-- The request to the server for the channel of a peer, how it ends, and the allocation of
the device. -/
def Net.resolve (s : Net ι) (i : ι) (lookup : SendResult)
    (dev : Option (ℕ × Vector UInt8 maxClientIdLen × UInt32)) : Option (Net ι) :=
  match s.call i with
  | .resolving dest err =>
      let w := if lookup.taken then (serve s.world (.getClient dest)).1 else s.world
      let data : SendState := ⟨s.devList i, err, 0⟩
      let data := if lookup.answered then
          pcCGetClientRsp dest.toClientId ⟨lookup, w.buf, dev, lookup, w.buf⟩ data
        else data
      let s := { s with world := w, devList := Function.update s.devList i data.devList }
      if lookup ≠ .completed then some (s.finish i cmdFailed)
      else
        match knownDev dest.toClientId data.devList with
        | none => some (s.finish i cmdFailed)
        | some dev => s.enter i dest dev data.err
  | .idle | .sending .. => none

/-- What a sender does besides its move: the request callback writes the message, and after
the last `semop` `pc_c_send` returns. -/
def Net.effect (s : Net ι) (i : ι) (dest : PeerId) (dev : PcSClient) (err : UInt32) :
    Stage → Net ι
  | .request => { s with buf := Function.update s.buf dev.clientCmd.shmid (some dest) }
  | .vSend => s.finish i err
  | .idle | .pSend | .vSRead | .pCRead | .response => s

/-- The next step of a sender in `ipc_send_cmd`. A `semop` on semaphores that have been
removed fails, also while it waits; then the device is dropped. -/
def Net.goOn (s : Net ι) (i : ι) : Option (Net ι) :=
  match s.call i with
  | .sending dest dev err =>
      let semid := dev.clientCmd.semid
      let stage := (s.chan semid).sender i
      if stage.semop ∧ ¬ s.Alive semid then
        (s.move semid (.fail i)).map fun s' =>
          { s' with devList :=
              Function.update s'.devList i (removeClient (s'.devList i) dev) }.finish i cmdFailed
      else
        (stage.move i).bind fun m =>
          (s.move semid m).map fun s' => s'.effect i dest dev err stage
  | .idle | .resolving .. => none

/-- The next step of the receive loop on a channel. It ends when the semaphores are
removed. -/
def Net.receive (s : Net ι) (semid : UInt32) : Option (Net ι) :=
  if s.Alive semid then s.move semid (s.chan semid).receiver.move else none

/-- The steps of the system. -/
inductive NetAction (ι : Type)
  | register (id : PeerId) (size pid : UInt32) (alloc : Alloc)
  | unregister (id : PeerId)
  | send (i : ι) (dest : PeerId) (err : UInt32)
  | resolve (i : ι) (lookup : SendResult)
      (dev : Option (ℕ × Vector UInt8 maxClientIdLen × UInt32))
  | goOn (i : ι)
  | receive (semid : UInt32)

/-- One step. -/
def Net.step (s : Net ι) : NetAction ι → Option (Net ι)
  | .register id size pid alloc => some (s.register id size pid alloc)
  | .unregister id => some { s with world := (serve s.world (.close id)).1 }
  | .send i dest err => s.send i dest err
  | .resolve i lookup dev => s.resolve i lookup dev
  | .goOn i => s.goOn i
  | .receive semid => s.receive semid

end Steps

/-- The kernel uses no identifier again, and no object gets the address of another one. -/
def NetFresh (s : Net ι) : NetAction ι → Prop
  | .register id size pid alloc =>
      AddrFresh s.world (.create id size pid alloc) ∧
        ∀ c ∈ s.made, c.clientCmd.semid ≠ alloc.semid ∧ c.clientCmd.shmid ≠ alloc.shmid
  | .resolve i _ dev => ∀ x ∈ dev, ∀ d ∈ s.devList i, d.addr ≠ x.1
  | .unregister _ | .send .. | .goOn _ | .receive _ => True

/-! ## The invariant -/

/-- The device stands for the client: it has its id and its channel. -/
structure StandsFor (dev c : PcSClient) : Prop where
  key : dev.key = c.key
  semid : dev.clientCmd.semid = c.clientCmd.semid
  shmid : dev.clientCmd.shmid = c.clientCmd.shmid

/-- The invariant. The registry is in order and made of clients the server created, no two
of which ever had a semaphore set or a memory in common. Every `dev_list` is in order and
made of devices that stand for such clients; a sender in a send has the device in its list,
and one that asks the server has none for the destination. A sender is in `ipc_send_cmd` on
the channel that its call says, on the channels of registered clients the tokens are
accounted for, and the message that was posted there is the sender's. -/
structure NetInv (s : Net ι) : Prop where
  registry : RegistryInv s.clients
  registered : ∀ c ∈ s.clients, c ∈ s.made
  semids : (s.made.map fun c => c.clientCmd.semid).Nodup
  shmids : (s.made.map fun c => c.clientCmd.shmid).Nodup
  devices : ∀ i, RegistryInv (s.devList i)
  known : ∀ i, ∀ d ∈ s.devList i, ∃ c ∈ s.made, StandsFor d c
  sending : ∀ i dest dev err, s.call i = .sending dest dev err →
    dev ∈ s.devList i ∧ dev.key = dest.bytes
  resolving : ∀ i dest err, s.call i = .resolving dest err →
    knownDev dest.toClientId (s.devList i) = none
  stage : ∀ semid i, (s.chan semid).sender i ≠ .idle ↔
    ∃ dest dev err, s.call i = .sending dest dev err ∧ dev.clientCmd.semid = semid
  accounted : ∀ semid, s.Alive semid → (s.chan semid).Accounted
  message : ∀ c ∈ s.clients, ∀ i p, (s.chan c.clientCmd.semid).At i p →
    p = .posted ∨ p = .waiting →
      ∃ dest dev err, s.call i = .sending dest dev err ∧ s.buf c.clientCmd.shmid = some dest

theorem netInv_init (isBroadcaseCb : Option (List UInt8 → UInt32 → Bool))
    (isBcMatchCb : Option (List UInt8 → List UInt8 → UInt32 → Bool)) (buf : Mem) :
    NetInv (Net.init (World.init isBroadcaseCb isBcMatchCb buf) : Net ι) where
  registry := registryInv_nil
  registered c hc := absurd hc List.not_mem_nil
  semids := List.nodup_nil
  shmids := List.nodup_nil
  devices _ := registryInv_nil
  known i d hd := absurd hd List.not_mem_nil
  sending i dest dev err h := by cases h
  resolving i dest err h := by cases h
  stage semid i := by simp [Net.init, Channel.init]
  accounted semid _ := .inl Channel.free_init
  message c hc := absurd hc List.not_mem_nil

/-- The search in a list of devices is the lookup of a key. -/
theorem knownDev_eq {list : List PcSClient} (h : RegistryInv list) (id : PeerId) :
    knownDev id.toClientId list = lookupKey PcSClient.key list id.bytes := by
  rw [← findClient_eq h id, knownDev, findClient, findClient]
  congr 1
  funext c
  simp only [listFindClientCb, ClientId.take_padded id.le, ClientId.bytes]

namespace NetInv

variable {s : Net ι} {i : ι} {dest : PeerId} {dev c : PcSClient} {err : UInt32}

/-- A device with the semaphores of a registered client stands for it. -/
theorem standsFor (h : NetInv s) (hdev : dev ∈ s.devList i) (hc : c ∈ s.clients)
    (hid : dev.clientCmd.semid = c.clientCmd.semid) : StandsFor dev c := by
  obtain ⟨c', hc', hstands⟩ := h.known i dev hdev
  obtain rfl : c' = c := List.inj_on_of_nodup_map h.semids hc' (h.registered c hc)
    (hstands.semid.symm.trans hid)
  exact hstands

/-- And so does a device with its memory. -/
theorem standsFor_of_shmid (h : NetInv s) (hdev : dev ∈ s.devList i) (hc : c ∈ s.clients)
    (hid : dev.clientCmd.shmid = c.clientCmd.shmid) : StandsFor dev c := by
  obtain ⟨c', hc', hstands⟩ := h.known i dev hdev
  obtain rfl : c' = c := List.inj_on_of_nodup_map h.shmids hc' (h.registered c hc)
    (hstands.shmid.symm.trans hid)
  exact hstands

/-- A sender in no send is in no call on a channel. -/
theorem idle_of_not_sending (h : NetInv s)
    (hcall : ∀ dest dev err, s.call i ≠ .sending dest dev err)
    (semid : UInt32) : (s.chan semid).sender i = .idle := by
  by_contra hne
  obtain ⟨dest, dev, err, hs, -⟩ := (h.stage semid i).mp hne
  exact hcall dest dev err hs

/-- A sender is in a call on no channel but that of its device. -/
theorem semid_of_stage (h : NetInv s) (hcall : s.call i = .sending dest dev err) {semid : UInt32}
    (hne : (s.chan semid).sender i ≠ .idle) : semid = dev.clientCmd.semid := by
  obtain ⟨dest', dev', err', hcall', hid⟩ := (h.stage semid i).mp hne
  rw [hcall, Call.sending.injEq] at hcall'
  rw [← hid, hcall'.2.1]

end NetInv

/-! ## The registry changes -/

/-- Clients may go away at any time. -/
theorem NetInv.shrink {s : Net ι} (h : NetInv s) {w : World}
    (hregistry : RegistryInv w.server.clientList)
    (hsub : ∀ c ∈ w.server.clientList, c ∈ s.clients) : NetInv { s with world := w } where
  registry := hregistry
  registered c hc := h.registered c (hsub c hc)
  semids := h.semids
  shmids := h.shmids
  devices := h.devices
  known := h.known
  sending := h.sending
  resolving := h.resolving
  stage := h.stage
  accounted semid := fun ⟨c, hc, hid⟩ => h.accounted semid ⟨c, hsub c hc, hid⟩
  message c hc := h.message c (hsub c hc)

/-- A new client gets semaphores and a memory that nobody knows yet. -/
theorem NetInv.add {s : Net ι} (h : NetInv s) {c : PcSClient} {w : World}
    (hregistry : RegistryInv w.server.clientList)
    (hlist : w.server.clientList = s.clients ++ [c])
    (hids : ∀ d ∈ s.made, d.clientCmd.semid ≠ c.clientCmd.semid ∧
      d.clientCmd.shmid ≠ c.clientCmd.shmid) :
    NetInv { s with
      world := w
      made := s.made ++ [c]
      chan := Function.update s.chan c.clientCmd.semid Channel.init
      buf := Function.update s.buf c.clientCmd.shmid none } where
  registry := hregistry
  registered d hd := by
    rw [Net.clients, hlist] at hd
    rcases List.mem_append.mp hd with hd | hd
    · exact List.mem_append_left _ (h.registered d hd)
    · exact List.mem_append_right _ hd
  semids := by simpa [List.nodup_append, h.semids] using fun d hd => (hids d hd).1
  shmids := by simpa [List.nodup_append, h.shmids] using fun d hd => (hids d hd).2
  devices := h.devices
  known i d hd := by
    obtain ⟨e, he, hstands⟩ := h.known i d hd
    exact ⟨e, List.mem_append_left _ he, hstands⟩
  sending := h.sending
  resolving := h.resolving
  stage semid i := by
    by_cases hid : semid = c.clientCmd.semid
    · subst hid
      simp only [Function.update_self, Channel.init, ne_eq, not_true, false_iff]
      rintro ⟨dest, dev, err, hcall, hdev⟩
      obtain ⟨d, hd, hstands⟩ := h.known i dev (h.sending i dest dev err hcall).1
      exact (hids d hd).1 (hstands.semid.symm.trans hdev)
    · simpa [Function.update_of_ne hid] using h.stage semid i
  accounted := by
    rintro semid ⟨d, hd, hid⟩
    by_cases hsem : semid = c.clientCmd.semid
    · subst hsem
      simp only [Function.update_self]
      exact .inl Channel.free_init
    · rw [Net.clients, hlist] at hd
      rcases List.mem_append.mp hd with hd | hd
      · simpa [Function.update_of_ne hsem] using h.accounted semid ⟨d, hd, hid⟩
      · obtain rfl : d = c := by simpa using hd
        exact absurd hid.symm hsem
  message d hd i p hat hp := by
    rw [Net.clients, hlist] at hd
    rcases List.mem_append.mp hd with hd | hd
    · obtain ⟨hsem, hshm⟩ := hids d (h.registered d hd)
      simp only [Function.update_of_ne hsem] at hat
      simpa [Function.update_of_ne hshm] using h.message d hd i p hat hp
    · obtain rfl : d = c := by simpa using hd
      simp only [Function.update_self] at hat
      exact absurd hat.send (by simp [Channel.init])

/-- An unregistration. -/
theorem NetInv.unregister {s : Net ι} (h : NetInv s) (id : PeerId) :
    NetInv { s with world := (serve s.world (.close id)).1 } := by
  refine h.shrink (h.registry.serve trivial) ?_
  intro c hc
  rw [serve_close_list h.registry] at hc
  exact (List.mem_filter.mp hc).1

/-- A registration. -/
theorem NetInv.register {s : Net ι} (h : NetInv s) {id : PeerId} {size pid : UInt32}
    {alloc : Alloc} (hfresh : NetFresh s (.register id size pid alloc)) :
    NetInv (s.register id size pid alloc) := by
  obtain ⟨haddr, hids⟩ := hfresh
  have hregistry := h.registry.serve haddr
  cases hfind : lookupKey PcSClient.key s.clients id.bytes with
  | some c =>
      obtain ⟨hserver, houtcome⟩ := serve_create_of_registered h.registry hfind size pid alloc
      simp only [Net.register, houtcome, if_true]
      refine h.shrink hregistry ?_
      rw [hserver]
      exact fun c hc => hc
  | none =>
      obtain ⟨hlist, houtcome⟩ := serve_create_of_new h.registry hfind size pid alloc
      simp only [Net.register, houtcome, reduceCtorEq, if_false]
      exact h.add hregistry hlist hids

/-! ## A call begins -/

theorem NetInv.setRet {s : Net ι} (h : NetInv s) (ret : ι → Option UInt32) :
    NetInv { s with ret := ret } :=
  ⟨h.registry, h.registered, h.semids, h.shmids, h.devices, h.known, h.sending, h.resolving,
    h.stage, h.accounted, h.message⟩

section Steps

variable [DecidableEq ι] {s s' : Net ι} {i : ι} {dest : PeerId} {dev : PcSClient} {err : UInt32}

/-- A move on a channel changes nothing else. -/
theorem Net.move_eq {semid : UInt32} {m : Move ι} (hs : s.move semid m = some s') :
    ∃ c, (s.chan semid).step m = some c ∧
      s' = { s with chan := Function.update s.chan semid c } := by
  obtain ⟨c, hc, rfl⟩ := Option.map_eq_some_iff.mp hs
  exact ⟨c, hc, rfl⟩

/-- What the begin of a send does: the device is known and the send goes on, or the server
is to be asked. -/
theorem Net.send_cases (hs : s.send i dest err = some s') :
    s.call i = .idle ∧
      ((∃ dev, knownDev dest.toClientId (s.devList i) = some dev ∧
          s.enter i dest dev err = some s') ∨
        knownDev dest.toClientId (s.devList i) = none ∧
          s' = { s with call := Function.update s.call i (.resolving dest err) }) := by
  cases hcall : s.call i with
  | idle =>
      simp only [Net.send, hcall] at hs
      cases hdev : knownDev dest.toClientId (s.devList i) with
      | some dev =>
          simp only [hdev] at hs
          exact ⟨rfl, .inl ⟨dev, rfl, hs⟩⟩
      | none =>
          simp only [hdev, Option.some.injEq] at hs
          exact ⟨rfl, .inr ⟨rfl, hs.symm⟩⟩
  | resolving dest' err' => simp [Net.send, hcall] at hs
  | sending dest' dev' err' => simp [Net.send, hcall] at hs

/-- What a step of a receiver does: a move on its channel, which is there. -/
theorem Net.receive_cases {semid : UInt32} (hs : s.receive semid = some s') :
    s.Alive semid ∧ ∃ ch, (s.chan semid).step (s.chan semid).receiver.move = some ch ∧
      s' = { s with chan := Function.update s.chan semid ch } := by
  obtain ⟨halive, hmove⟩ : s.Alive semid ∧
      s.move semid (s.chan semid).receiver.move = some s' := by
    simpa only [Net.receive, Option.ite_none_right_eq_some] using hs
  exact ⟨halive, Net.move_eq hmove⟩

/-- Outside a send, a sender may change its list and stop asking. -/
theorem NetInv.setDevices (h : NetInv s) (hcall : ∀ dest dev err, s.call i ≠ .sending dest dev err)
    {list : List PcSClient} (hlist : RegistryInv list)
    (hknown : ∀ d ∈ list, ∃ c ∈ s.made, StandsFor d c) :
    NetInv { s with
      devList := Function.update s.devList i list, call := Function.update s.call i .idle } := by
  -- a sender in a send is another one, and nothing changes for it
  have hother : ∀ {j dest dev err}, Function.update s.call i .idle j = .sending dest dev err →
      j ≠ i ∧ s.call j = .sending dest dev err := by
    intro j dest dev err hj
    by_cases hji : j = i
    · subst hji
      simp at hj
    · exact ⟨hji, by rwa [Function.update_of_ne hji] at hj⟩
  have hsame : ∀ {j dest dev err}, s.call j = .sending dest dev err →
      Function.update s.call i .idle j = .sending dest dev err := by
    intro j dest dev err hj
    rwa [Function.update_of_ne]
    rintro rfl
    exact hcall _ _ _ hj
  exact
    { registry := h.registry
      registered := h.registered
      semids := h.semids
      shmids := h.shmids
      devices := by
        intro j
        by_cases hji : j = i
        · subst hji
          simpa using hlist
        · simpa [Function.update_of_ne hji] using h.devices j
      known := by
        intro j
        by_cases hji : j = i
        · subst hji
          simpa using hknown
        · simpa [Function.update_of_ne hji] using h.known j
      sending := by
        intro j dest dev err hj
        obtain ⟨hji, hj⟩ := hother hj
        simpa [Function.update_of_ne hji] using h.sending j dest dev err hj
      resolving := by
        intro j dest err hj
        by_cases hji : j = i
        · subst hji
          simp at hj
        · simp only [Function.update_of_ne hji] at hj ⊢
          exact h.resolving j dest err hj
      stage := by
        intro semid j
        rw [h.stage semid j]
        constructor
        · rintro ⟨dest, dev, err, hj, hid⟩
          exact ⟨dest, dev, err, hsame hj, hid⟩
        · rintro ⟨dest, dev, err, hj, hid⟩
          exact ⟨dest, dev, err, (hother hj).2, hid⟩
      accounted := h.accounted
      message := by
        intro c hc j p hat hp
        obtain ⟨dest, dev, err, hj, hbuf⟩ := h.message c hc j p hat hp
        exact ⟨dest, dev, err, hsame hj, hbuf⟩ }

/-- After a move, a message that is waiting was there before, or its sender has just
written it. -/
theorem NetInv.message_of_step (h : NetInv s) {semid : UInt32} {m : Move ι} {ch : Channel ι}
    (hs : (s.chan semid).step m = some ch) (hm : ∀ j, m ≠ .fail j) {c : PcSClient}
    (hc : c ∈ s.clients) {j : ι} {p : Pos}
    (hat : (Function.update s.chan semid ch c.clientCmd.semid).At j p)
    (hp : p = .posted ∨ p = .waiting) :
    (∃ dest dev err, s.call j = .sending dest dev err ∧ s.buf c.clientCmd.shmid = some dest ∧
        (s.chan c.clientCmd.semid).sender j ∈ [Stage.vSRead, .pCRead]) ∨
      (c.clientCmd.semid = semid ∧ m = .requestDone j) := by
  -- what the invariant says of a message that was there before
  have hold : ∀ q, q = .posted ∨ q = .waiting → (s.chan c.clientCmd.semid).At j q →
      ∃ dest dev err, s.call j = .sending dest dev err ∧ s.buf c.clientCmd.shmid = some dest ∧
        (s.chan c.clientCmd.semid).sender j ∈ [Stage.vSRead, .pCRead] := by
    intro q hq hatq
    obtain ⟨dest, dev, err, hj, hbuf⟩ := h.message c hc j q hatq hq
    refine ⟨dest, dev, err, hj, hbuf, ?_⟩
    rcases hq with rfl | rfl <;> simp [hatq.stage, Pos.stage]
  by_cases hid : c.clientCmd.semid = semid
  · subst hid
    rw [Function.update_self] at hat
    have hacc := h.accounted _ ⟨c, hc, rfl⟩
    rcases hacc.step_at (fun j hj => absurd hj (hm j)) hs hat with
      ⟨hat', -⟩ | ⟨q, hatq, hnext, hmove⟩ | ⟨-, rfl⟩
    · exact .inl (hold p hp hat')
    · rcases hp with rfl | rfl <;> cases q <;> simp [Pos.next] at hnext
      · exact .inr ⟨rfl, hmove⟩
      · exact .inl (hold .posted (.inl rfl) hatq)
    · simp at hp
  · rw [Function.update_of_ne hid] at hat
    exact .inl (hold p hp hat)

/-- A sender enters `ipc_send_cmd` on the channel of a device in its list. -/
theorem NetInv.enter (h : NetInv s) (hcall : ∀ dest dev err, s.call i ≠ .sending dest dev err)
    (hdev : dev ∈ s.devList i) (hkey : dev.key = dest.bytes)
    (hs : s.enter i dest dev err = some s') : NetInv s' := by
  obtain ⟨s₁, hmove, rfl⟩ := Option.map_eq_some_iff.mp hs
  obtain ⟨ch, hstep, rfl⟩ := Net.move_eq hmove
  obtain ⟨-, hsender, -⟩ := Channel.step_enter hstep
  have hidle := h.idle_of_not_sending hcall
  exact
    { registry := h.registry
      registered := h.registered
      semids := h.semids
      shmids := h.shmids
      devices := h.devices
      known := h.known
      sending := by
        intro j dest' dev' err' hj
        by_cases hji : j = i
        · subst hji
          simp only [Function.update_self, Call.sending.injEq] at hj
          obtain ⟨rfl, rfl, -⟩ := hj
          exact ⟨hdev, hkey⟩
        · simp only [Function.update_of_ne hji] at hj
          exact h.sending j dest' dev' err' hj
      resolving := by
        intro j dest' err' hj
        by_cases hji : j = i
        · subst hji
          simp at hj
        · simp only [Function.update_of_ne hji] at hj
          exact h.resolving j dest' err' hj
      stage := by
        intro semid j
        by_cases hji : j = i
        · subst hji
          by_cases hid : semid = dev.clientCmd.semid
          · subst hid
            simp [hsender]
          · have hne : dev.clientCmd.semid ≠ semid := fun he => hid he.symm
            simp [Function.update_of_ne hid, hidle, hne]
        · by_cases hid : semid = dev.clientCmd.semid
          · subst hid
            simpa [hsender, Function.update_of_ne hji] using h.stage dev.clientCmd.semid j
          · simpa [Function.update_of_ne hid, Function.update_of_ne hji] using h.stage semid j
      accounted := by
        intro semid halive
        by_cases hid : semid = dev.clientCmd.semid
        · subst hid
          simpa using (h.accounted _ halive).step (fun j hj => by simp at hj) hstep
        · simpa [Function.update_of_ne hid] using h.accounted semid halive
      message := by
        intro c hc j p hat hp
        rcases h.message_of_step hstep (by simp) hc hat hp with
          ⟨dest', dev', err', hj, hbuf, -⟩ | ⟨-, hm⟩
        · have hji : j ≠ i := by
            rintro rfl
            exact hcall _ _ _ hj
          exact ⟨dest', dev', err', (Function.update_of_ne hji _ _).trans hj, hbuf⟩
        · simp at hm }

/-- A sender starts to ask the server. -/
theorem NetInv.ask (h : NetInv s) (hcall : s.call i = .idle)
    (hnew : knownDev dest.toClientId (s.devList i) = none) :
    NetInv { s with call := Function.update s.call i (.resolving dest err) } := by
  have hiff : ∀ {j dest' dev' err'}, Function.update s.call i (.resolving dest err) j =
      .sending dest' dev' err' ↔ s.call j = .sending dest' dev' err' := by
    intro j dest' dev' err'
    by_cases hji : j = i
    · subst hji
      simp [hcall]
    · rw [Function.update_of_ne hji]
  exact
    { registry := h.registry
      registered := h.registered
      semids := h.semids
      shmids := h.shmids
      devices := h.devices
      known := h.known
      sending := fun j dest' dev' err' hj => h.sending j dest' dev' err' (hiff.mp hj)
      resolving := by
        intro j dest' err' hj
        by_cases hji : j = i
        · subst hji
          simp only [Function.update_self, Call.resolving.injEq] at hj
          rw [← hj.1]
          exact hnew
        · simp only [Function.update_of_ne hji] at hj
          exact h.resolving j dest' err' hj
      stage := by
        intro semid j
        simp only [hiff]
        exact h.stage semid j
      accounted := h.accounted
      message := by
        intro c hc j p hat hp
        simp only [hiff]
        exact h.message c hc j p hat hp }

/-- A call of `pc_c_send` begins. -/
theorem NetInv.send (h : NetInv s) (hs : s.send i dest err = some s') : NetInv s' := by
  obtain ⟨hcall, ⟨dev, hdev, henter⟩ | ⟨hdev, rfl⟩⟩ := Net.send_cases hs
  · rw [knownDev_eq (h.devices i)] at hdev
    obtain ⟨hmem, hkey⟩ := mem_of_lookupKey hdev
    exact h.enter (by simp [hcall]) hmem hkey henter
  · exact h.ask hcall hdev

/-! ## The lookup -/

/-- Attaching to a channel by its identifiers keeps them. -/
theorem ids_of_ipcCmdRemoteInit {cmd : IpcCmd} {c : RemoteCmd}
    (h : ipcCmdRemoteInit none ⟨0, 0, cmd⟩ = some c) :
    c.cmd.semid = cmd.semid ∧ c.cmd.shmid = cmd.shmid := by
  have hkey : ¬ ((0 : Int32) < 0 ∧ (0 : Int32) < 0) := by decide
  simp only [ipcCmdRemoteInit, hkey, if_false, Option.ite_none_right_eq_some,
    Option.some.injEq] at h
  obtain ⟨-, rfl⟩ := h
  exact ⟨rfl, rfl⟩

/-- The key of a new device. -/
theorem copied_bytes (dest : PeerId) (residue : Vector UInt8 maxClientIdLen) :
    (ClientId.copied residue dest.data.toList dest.len).bytes = dest.bytes := by
  have hle := dest.le
  apply List.ext_getElem
  · simp [ClientId.copied, ClientId.bytes]
  · intro k h₁ h₂
    have hk : k < dest.len.toNat := by
      simp [ClientId.copied, ClientId.bytes] at h₁
      omega
    simp [ClientId.copied, ClientId.bytes, hk]

/-- The callback of a lookup leaves a list in order, and a device that it adds stands for
the registered client with the id. -/
theorem devices_pcCGetClientRsp {list clients : List PcSClient} (hlist : RegistryInv list)
    (hnew : knownDev dest.toClientId list = none) (env : SendEnv)
    (hreply : pcCGetClientRspCb env.lookupReply = toMap clients dest.bytes)
    (hfresh : ∀ x ∈ env.dev, ∀ d ∈ list, d.addr ≠ x.1) (err res : UInt32) :
    RegistryInv (pcCGetClientRsp dest.toClientId env ⟨list, err, res⟩).devList ∧
      ∀ d ∈ (pcCGetClientRsp dest.toClientId env ⟨list, err, res⟩).devList,
        d ∈ list ∨ ∃ c ∈ clients, StandsFor d c := by
  by_cases hrsp : env.lookupReply.u32 0 ≠ cmdGetClientRsp ∨ env.lookupReply.u32 4 ≠ cmdSuccess
  · simp only [pcCGetClientRsp, if_pos hrsp]
    exact ⟨hlist, fun d hd => .inl hd⟩
  rw [pcCGetClientRspCb, channelRsp, if_neg hrsp] at hreply
  obtain ⟨c, hc, hcmd⟩ := Option.map_eq_some_iff.mp hreply.symm
  obtain ⟨hmem, hckey⟩ := mem_of_lookupKey hc
  cases hdev : env.dev with
  | none =>
      simp only [pcCGetClientRsp, if_neg hrsp, hdev]
      exact ⟨hlist, fun d hd => .inl hd⟩
  | some x =>
      cases hinit : ipcCmdRemoteInit none ⟨0, 0, readIpcCmd env.lookupReply⟩ with
      | none =>
          simp only [pcCGetClientRsp, if_neg hrsp, hdev, hinit]
          exact ⟨hlist, fun d hd => .inl hd⟩
      | some remote =>
          obtain ⟨hsemid, hshmid⟩ := ids_of_ipcCmdRemoteInit hinit
          simp only [pcCGetClientRsp, if_neg hrsp, hdev, hinit]
          refine ⟨?_, ?_⟩
          · rw [knownDev_eq hlist, lookupKey_eq_none_iff] at hnew
            refine ⟨?_, ?_, ?_⟩
            · rw [List.map_cons, List.nodup_cons, PcSClient.key, copied_bytes]
              exact ⟨hnew, hlist.keys⟩
            · rw [List.map_cons, List.nodup_cons]
              refine ⟨?_, hlist.addrs⟩
              rintro haddr
              obtain ⟨d, hd, heq⟩ := List.mem_map.mp haddr
              exact hfresh x (by simp [hdev]) d hd heq
            · intro d hd
              rcases List.mem_cons.mp hd with rfl | hd
              · exact dest.le
              · exact hlist.len_le d hd
          · intro d hd
            rcases List.mem_cons.mp hd with rfl | hd
            · refine .inr ⟨c, hmem, ?_, ?_, ?_⟩
              · rw [hckey, PcSClient.key, copied_bytes]
              · rw [hcmd, hsemid]
              · rw [hcmd, hshmid]
            · exact .inl hd

/-- Where a sender was before it enters a call does not matter. -/
theorem Net.enter_of_idle (s : Net ι) (i : ι) (dest : PeerId) (dev : PcSClient) (err : UInt32) :
    s.enter i dest dev err =
      { s with call := Function.update s.call i .idle }.enter i dest dev err := by
  simp only [Net.enter, Net.move, Option.map_map]
  congr 1
  funext c
  simp

/-- After a lookup the registered clients are the same, and a new device stands for one of
them. -/
theorem NetInv.lookedUp (h : NetInv s) (hcall : ∀ dest dev err, s.call i ≠ .sending dest dev err)
    {w : World} (hw : w.server.clientList = s.clients) {list : List PcSClient}
    (hlist : RegistryInv list)
    (hknown : ∀ d ∈ list, d ∈ s.devList i ∨ ∃ c ∈ s.clients, StandsFor d c) :
    NetInv { s with
      world := w
      devList := Function.update s.devList i list
      call := Function.update s.call i .idle } := by
  have hshrink : NetInv { s with world := w } := by
    refine h.shrink ?_ ?_
    · rw [hw]
      exact h.registry
    · rw [hw]
      exact fun c hc => hc
  refine hshrink.setDevices hcall hlist ?_
  intro d hd
  rcases hknown d hd with hd | ⟨c, hc, hstands⟩
  · exact h.known i d hd
  · exact ⟨c, h.registered c hc, hstands⟩

/-- What a request to the server does: the server has handled it or not, the callback has
been called or not, and the call ends or goes on to the send. -/
theorem Net.resolve_cases {lookup : SendResult}
    {new : Option (ℕ × Vector UInt8 maxClientIdLen × UInt32)}
    (hs : s.resolve i lookup new = some s') :
    ∃ dest err w data, s.call i = .resolving dest err ∧
      w = (if lookup.taken then (serve s.world (.getClient dest)).1 else s.world) ∧
      data = (if lookup.answered then pcCGetClientRsp dest.toClientId
          ⟨lookup, w.buf, new, lookup, w.buf⟩ ⟨s.devList i, err, 0⟩
        else ⟨s.devList i, err, 0⟩) ∧
      (s' = { s with
            world := w
            devList := Function.update s.devList i data.devList }.finish i cmdFailed ∨
        ∃ dev, knownDev dest.toClientId data.devList = some dev ∧
          { s with world := w, devList := Function.update s.devList i data.devList }.enter i dest
            dev data.err = some s') := by
  cases hcall : s.call i with
  | idle => simp [Net.resolve, hcall] at hs
  | sending dest' dev' err' => simp [Net.resolve, hcall] at hs
  | resolving dest err =>
      simp only [Net.resolve, hcall] at hs
      refine ⟨dest, err, _, _, rfl, rfl, rfl, ?_⟩
      split at hs
      · exact .inl (Option.some.inj hs).symm
      · split at hs
        · exact .inl (Option.some.inj hs).symm
        · next dev hdev => exact .inr ⟨dev, hdev, hs⟩

/-- The request leaves the clients alone, whether the server has handled it or not. -/
theorem clients_lookup {w : World} (h : RegistryInv w.server.clientList) (dest : PeerId)
    (taken : Bool) :
    (if taken then (serve w (.getClient dest)).1 else w).server.clientList =
      w.server.clientList := by
  cases taken with
  | false => rfl
  | true => rw [if_pos rfl, (serve_getClient h dest).1]

/-- The request to the server. -/
theorem NetInv.resolve (h : NetInv s) {lookup : SendResult}
    {new : Option (ℕ × Vector UInt8 maxClientIdLen × UInt32)}
    (hfresh : NetFresh s (.resolve i lookup new)) (hs : s.resolve i lookup new = some s') :
    NetInv s' := by
  obtain ⟨dest, err, w, data, hcall, hw, hd, hend⟩ := Net.resolve_cases hs
  obtain ⟨-, hreply⟩ := serve_getClient h.registry dest
  have hlist : w.server.clientList = s.clients := by
    rw [hw]
    exact clients_lookup h.registry dest lookup.taken
  have hbuf : lookup.taken = true → pcCGetClientRspCb w.buf = toMap s.clients dest.bytes := by
    intro htaken
    rw [if_pos htaken] at hw
    rw [hw, hreply, Net.clients]
  clear hw hreply
  have hdata : RegistryInv data.devList ∧
      ∀ d ∈ data.devList, d ∈ s.devList i ∨ ∃ c ∈ s.clients, StandsFor d c := by
    rw [hd]
    by_cases hanswered : lookup.answered
    · have htaken : lookup.taken = true := by
        cases lookup <;> simp [SendResult.answered] at hanswered <;> rfl
      rw [if_pos hanswered]
      exact devices_pcCGetClientRsp (h.devices i) (h.resolving i dest err hcall)
        ⟨lookup, w.buf, new, lookup, w.buf⟩ (hbuf htaken) hfresh err 0
    · rw [if_neg hanswered]
      exact ⟨h.devices i, fun d hd => .inl hd⟩
  have hidle := h.lookedUp (i := i) (by simp [hcall]) hlist hdata.1 hdata.2
  rcases hend with rfl | ⟨dev, hdev, henter⟩
  · exact hidle.setRet _
  · rw [knownDev_eq hdata.1] at hdev
    obtain ⟨hmem, hkey⟩ := mem_of_lookupKey hdev
    rw [Net.enter_of_idle] at henter
    exact hidle.enter (by simp) (by simpa using hmem) hkey henter

/-! ## A send goes on -/

/-- A sender moves on the channel of its device, and its call ends with the exchange. -/
theorem NetInv.advance (h : NetInv s) (hcall : s.call i = .sending dest dev err) {ch : Channel ι}
    {stage : Stage} (x : Call) (buf : UInt32 → Option PeerId)
    (hsender : ch.sender = Function.update (s.chan dev.clientCmd.semid).sender i stage)
    (hx : (stage = .idle ∧ x = .idle) ∨ (stage ≠ .idle ∧ x = .sending dest dev err))
    (hacc : s.Alive dev.clientCmd.semid → ch.Accounted)
    (hmsg : ∀ c ∈ s.clients, ∀ j p,
      (Function.update s.chan dev.clientCmd.semid ch c.clientCmd.semid).At j p →
      p = .posted ∨ p = .waiting → ∃ dest dev err,
        Function.update s.call i x j = .sending dest dev err ∧
          buf c.clientCmd.shmid = some dest) :
    NetInv { s with
      chan := Function.update s.chan dev.clientCmd.semid ch
      call := Function.update s.call i x
      buf := buf } where
  registry := h.registry
  registered := h.registered
  semids := h.semids
  shmids := h.shmids
  devices := h.devices
  known := h.known
  sending j dest' dev' err' hj := by
    by_cases hji : j = i
    · subst hji
      rcases hx with ⟨-, rfl⟩ | ⟨-, rfl⟩
      · simp at hj
      · simp only [Function.update_self, Call.sending.injEq] at hj
        obtain ⟨rfl, rfl, rfl⟩ := hj
        exact h.sending j _ _ _ hcall
    · simp only [Function.update_of_ne hji] at hj
      exact h.sending j dest' dev' err' hj
  resolving j dest' err' hj := by
    by_cases hji : j = i
    · subst hji
      rcases hx with ⟨-, rfl⟩ | ⟨-, rfl⟩ <;> simp at hj
    · simp only [Function.update_of_ne hji] at hj
      exact h.resolving j dest' err' hj
  stage semid j := by
    by_cases hji : j = i
    · subst hji
      by_cases hid : semid = dev.clientCmd.semid
      · subst hid
        rcases hx with ⟨hst, rfl⟩ | ⟨hst, rfl⟩ <;> simp [hsender, hst]
      · have hne : dev.clientCmd.semid ≠ semid := fun he => hid he.symm
        have hold := h.stage semid j
        rw [hcall] at hold
        rcases hx with ⟨-, rfl⟩ | ⟨-, rfl⟩ <;> simpa [Function.update_of_ne hid, hne] using hold
    · by_cases hid : semid = dev.clientCmd.semid
      · subst hid
        simpa [hsender, Function.update_of_ne hji] using h.stage dev.clientCmd.semid j
      · simpa [Function.update_of_ne hid, Function.update_of_ne hji] using h.stage semid j
  accounted semid halive := by
    by_cases hid : semid = dev.clientCmd.semid
    · subst hid
      simpa using hacc halive
    · simpa [Function.update_of_ne hid] using h.accounted semid halive
  message := hmsg

/-- What a sender can do in `ipc_send_cmd`: fail because the semaphores are gone, or make
its next move. -/
theorem Net.goOn_cases (hs : s.goOn i = some s') :
    ∃ dest dev err, s.call i = .sending dest dev err ∧
      (((s.chan dev.clientCmd.semid).sender i).semop = true ∧ ¬ s.Alive dev.clientCmd.semid ∧
          s' = { s with
            chan := Function.update s.chan dev.clientCmd.semid
              ((s.chan dev.clientCmd.semid).goto i .idle)
            devList := Function.update s.devList i (removeClient (s.devList i) dev)
            call := Function.update s.call i .idle
            ret := Function.update s.ret i (some cmdFailed) } ∨
        ¬ (((s.chan dev.clientCmd.semid).sender i).semop = true ∧
            ¬ s.Alive dev.clientCmd.semid) ∧
          ∃ m ch, ((s.chan dev.clientCmd.semid).sender i).move i = some m ∧
            (s.chan dev.clientCmd.semid).step m = some ch ∧
            s' = { s with chan := Function.update s.chan dev.clientCmd.semid ch }.effect i dest dev
              err ((s.chan dev.clientCmd.semid).sender i)) := by
  cases hcall : s.call i with
  | idle => simp [Net.goOn, hcall] at hs
  | resolving dest err => simp [Net.goOn, hcall] at hs
  | sending dest dev err =>
      refine ⟨dest, dev, err, rfl, ?_⟩
      simp only [Net.goOn, hcall] at hs
      split at hs
      · next hdead =>
          obtain ⟨s₁, hmove, rfl⟩ := Option.map_eq_some_iff.mp hs
          obtain ⟨ch, hstep, rfl⟩ := Net.move_eq hmove
          obtain rfl : (s.chan dev.clientCmd.semid).goto i .idle = ch := by
            have hsemop := hdead.1
            cases hst : (s.chan dev.clientCmd.semid).sender i <;>
              simp_all [Stage.semop, Channel.step]
          exact .inl ⟨hdead.1, hdead.2, rfl⟩
      · next hgo =>
          obtain ⟨m, hm, hs⟩ := Option.bind_eq_some_iff.mp hs
          obtain ⟨s₁, hmove, rfl⟩ := Option.map_eq_some_iff.mp hs
          obtain ⟨ch, hstep, rfl⟩ := Net.move_eq hmove
          exact .inr ⟨hgo, m, ch, hm, hstep, rfl⟩

/-- Dropping a device keeps the list in order. -/
theorem RegistryInv.removeClient {list : List PcSClient} (h : RegistryInv list) (dev : PcSClient) :
    RegistryInv (removeClient list dev) where
  keys := h.keys.sublist (List.eraseP_sublist.map _)
  addrs := h.addrs.sublist (List.eraseP_sublist.map _)
  len_le c hc := h.len_le c (List.mem_of_mem_eraseP hc)

/-- A sender whose channel is gone gives up. -/
theorem NetInv.giveUp (h : NetInv s) (hcall : s.call i = .sending dest dev err)
    (hdead : ¬ s.Alive dev.clientCmd.semid) :
    NetInv { s with
      chan := Function.update s.chan dev.clientCmd.semid
        ((s.chan dev.clientCmd.semid).goto i .idle)
      devList := Function.update s.devList i (MemShare.removeClient (s.devList i) dev)
      call := Function.update s.call i .idle } := by
  have hsender : ((s.chan dev.clientCmd.semid).goto i .idle).sender =
      Function.update (s.chan dev.clientCmd.semid).sender i .idle := rfl
  have hleft := h.advance hcall .idle s.buf hsender (.inl ⟨rfl, rfl⟩)
    (fun hal => absurd hal hdead) <| by
    intro c hc j p hat hp
    have hid : c.clientCmd.semid ≠ dev.clientCmd.semid := fun he => hdead ⟨c, hc, he⟩
    rw [Function.update_of_ne hid] at hat
    obtain ⟨dest', dev', err', hj, hbuf⟩ := h.message c hc j p hat hp
    have hji : j ≠ i := by
      rintro rfl
      have hne : (s.chan c.clientCmd.semid).sender j ≠ .idle := by
        rw [hat.stage]
        rcases hp with rfl | rfl <;> simp [Pos.stage]
      exact hid (h.semid_of_stage hcall hne)
    exact ⟨dest', dev', err', (Function.update_of_ne hji _ _).trans hj, hbuf⟩
  have hdevs := hleft.setDevices (i := i) (by simp) ((h.devices i).removeClient dev)
    fun d hd => h.known i d (List.mem_of_mem_eraseP hd)
  simpa using hdevs

/-- A sender makes its next move. -/
theorem NetInv.goOnMove (h : NetInv s) (hcall : s.call i = .sending dest dev err) {m : Move ι}
    {ch : Channel ι} (hm : ((s.chan dev.clientCmd.semid).sender i).move i = some m)
    (hstep : (s.chan dev.clientCmd.semid).step m = some ch) :
    NetInv ({ s with chan := Function.update s.chan dev.clientCmd.semid ch }.effect i dest dev err
      ((s.chan dev.clientCmd.semid).sender i)) := by
  obtain ⟨hsender, -⟩ := Channel.step_sender hm hstep
  have hnofail : ∀ j, m ≠ .fail j := Stage.move_ne_fail hm
  have hacc : s.Alive dev.clientCmd.semid → ch.Accounted := fun halive =>
    (h.accounted _ halive).step (fun j hj => absurd hj (hnofail j)) hstep
  have hself : Function.update s.call i (.sending dest dev err) = s.call := by
    rw [← hcall, Function.update_eq_self]
  -- a sender that is not at the request callback leaves all messages as they are
  have hquiet : (s.chan dev.clientCmd.semid).sender i ≠ .request → ∀ c ∈ s.clients, ∀ j p,
      (Function.update s.chan dev.clientCmd.semid ch c.clientCmd.semid).At j p →
      p = .posted ∨ p = .waiting → ∃ dest dev err, s.call j = .sending dest dev err ∧
        s.buf c.clientCmd.shmid = some dest ∧
        (s.chan c.clientCmd.semid).sender j ∈ [Stage.vSRead, .pCRead] := by
    intro hst c hc j p hat hp
    rcases h.message_of_step hstep hnofail hc hat hp with hold | ⟨-, rfl⟩
    · exact hold
    · cases hi : (s.chan dev.clientCmd.semid).sender i <;> simp [hi, Stage.move] at hm hst
  cases hst : (s.chan dev.clientCmd.semid).sender i with
  | idle => simp [hst, Stage.move] at hm
  | request =>
      rw [hst] at hm hsender
      refine hself ▸ h.advance hcall _ _ hsender (.inr ⟨by simp [Stage.next], rfl⟩) hacc ?_
      intro c hc j p hat hp
      obtain ⟨hmem, -⟩ := h.sending i dest dev err hcall
      rcases h.message_of_step hstep hnofail hc hat hp with
        ⟨dest', dev', err', hj, hbuf, hstage⟩ | ⟨hid, rfl⟩
      · -- another channel, with another memory
        have hid : c.clientCmd.semid ≠ dev.clientCmd.semid := by
          intro hid
          have halive : s.Alive dev.clientCmd.semid := ⟨c, hc, hid⟩
          rw [hid] at hstage
          obtain rfl : i = j := by
            refine (h.accounted _ halive).inside_unique (by rw [hst]; rfl) ?_
            rcases List.mem_pair.mp hstage with hj | hj <;> rw [hj] <;> rfl
          simp [hst] at hstage
        have hshm : c.clientCmd.shmid ≠ dev.clientCmd.shmid := fun he =>
          hid (h.standsFor_of_shmid hmem hc he.symm).semid.symm
        exact ⟨dest', dev', err', (congrFun hself j).trans hj,
          (Function.update_of_ne hshm _ _).trans hbuf⟩
      · obtain rfl : i = j := by simpa [Stage.move] using hm
        refine ⟨dest, dev, err, by simp, ?_⟩
        rw [(h.standsFor hmem hc hid.symm).shmid, Function.update_self]
  | vSend =>
      rw [hst] at hsender
      refine (h.advance hcall .idle s.buf hsender (.inl ⟨rfl, rfl⟩) hacc ?_).setRet _
      intro c hc j p hat hp
      obtain ⟨dest', dev', err', hj, hbuf, hstage⟩ := hquiet (by simp [hst]) c hc j p hat hp
      have hji : j ≠ i := by
        rintro rfl
        have hne : (s.chan c.clientCmd.semid).sender j ≠ .idle := by
          rcases List.mem_pair.mp hstage with hst' | hst' <;> simp [hst']
        rw [h.semid_of_stage hcall hne, hst] at hstage
        simp at hstage
      exact ⟨dest', dev', err', (Function.update_of_ne hji _ _).trans hj, hbuf⟩
  | pSend | vSRead | pCRead | response =>
      rw [hst] at hsender
      refine hself ▸ h.advance hcall _ s.buf hsender (.inr ⟨by simp [Stage.next], rfl⟩)
        hacc ?_
      intro c hc j p hat hp
      obtain ⟨dest', dev', err', hj, hbuf, -⟩ := hquiet (by simp [hst]) c hc j p hat hp
      exact ⟨dest', dev', err', (congrFun hself j).trans hj, hbuf⟩

/-- The next step of a sender. -/
theorem NetInv.goOn (h : NetInv s) (hs : s.goOn i = some s') : NetInv s' := by
  obtain ⟨dest, dev, err, hcall, ⟨-, hdead, rfl⟩ | ⟨-, m, ch, hm, hstep, rfl⟩⟩ := Net.goOn_cases hs
  · exact (h.giveUp hcall hdead).setRet _
  · exact h.goOnMove hcall hm hstep

/-- The next step of a receiver. -/
theorem NetInv.receive (h : NetInv s) {semid : UInt32} (hs : s.receive semid = some s') :
    NetInv s' := by
  obtain ⟨halive, ch, hstep, rfl⟩ := Net.receive_cases hs
  obtain ⟨hsender, -⟩ := Channel.step_receiver hstep
  have hnofail : ∀ j : ι, (s.chan semid).receiver.move ≠ Move.fail j := RecvStage.move_ne_fail _
  exact
    { registry := h.registry
      registered := h.registered
      semids := h.semids
      shmids := h.shmids
      devices := h.devices
      known := h.known
      sending := h.sending
      resolving := h.resolving
      stage := by
        intro semid' j
        by_cases hid : semid' = semid
        · subst hid
          simpa [hsender] using h.stage semid' j
        · simpa [Function.update_of_ne hid] using h.stage semid' j
      accounted := by
        intro semid' halive'
        by_cases hid : semid' = semid
        · subst hid
          simpa using (h.accounted semid' halive).step (fun j hj => absurd hj (hnofail j)) hstep
        · simpa [Function.update_of_ne hid] using h.accounted semid' halive'
      message := by
        intro c hc j p hat hp
        rcases h.message_of_step hstep hnofail hc hat hp with
          ⟨dest, dev, err, hj, hbuf, -⟩ | ⟨-, hm⟩
        · exact ⟨dest, dev, err, hj, hbuf⟩
        · cases hr : (s.chan semid).receiver <;> simp [hr, RecvStage.move] at hm }

/-- **Every step keeps the invariant.** -/
theorem NetInv.step (h : NetInv s) {a : NetAction ι} (hfresh : NetFresh s a)
    (hs : s.step a = some s') : NetInv s' := by
  cases a with
  | register id size pid alloc => exact Option.some.inj hs ▸ h.register hfresh
  | unregister id => exact Option.some.inj hs ▸ h.unregister id
  | send i dest err => exact h.send hs
  | resolve i lookup new => exact h.resolve hfresh hs
  | goOn i => exact h.goOn hs
  | receive semid => exact h.receive hs

end Steps

end CCode.MemShare
