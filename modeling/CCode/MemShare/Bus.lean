import CCode.MemShare.Channel
import CCode.MemShare.WiBus

/-!
# The bus and its threads

The server's channel and the channel of every registered client, and the threads that meet
on them: application threads in `wi_send`, the server's loop, and the receive loop of each
client. An application thread that sends to a client it does not know yet asks the server
for the client's channel first; a broadcast goes to the server, whose callback then sends
to one client after the other while the exchange with the sender is still open.

The clients are registered before the first step and stay so. The buffer of the server's
channel is modelled by its message; the clients' callbacks, which put the message in their
buffer on a list whatever it is, are single steps. The mutex of that list is held for one
list operation at a time, never across a `semop`, and is left out.

`bus_deadlock_free` says that the threads never wait for one another in a cycle, and that
at the end of the waits of every pending `wi_send` some thread can take a step. The
argument is an order on the channels: a client's receive loop waits for nobody inside its
callback, and the server inside its own waits on clients' channels only. `Bus.level` makes
it a rank.

## Main definitions

* `Bus`, `Thread`, `Message` — the state.
* `Bus.wiSend`, `Bus.threadStep`, `Bus.serverStep`, `Bus.clientStep` — the steps.
* `BusInv` — the invariant.
* `Bus.Waits` — who waits for whom.
-/

namespace CCode.MemShare

open CCode.Lib

/-- `wiaddr_t`. -/
abbrev WiAddr := Vector UInt8 8

/-- The channels. -/
inductive Port
  | server
  | client (a : WiAddr)
  deriving DecidableEq

variable {T : Type}

/-- Who calls `ipc_send_cmd`: an application thread, or the server inside its callback. -/
inductive Caller (T : Type)
  | thread (t : T)
  | server
  deriving DecidableEq

/-- The threads of the bus: the application's, the server's loop, and the receive loops of
the clients. -/
inductive BusParty (T : Type)
  | thread (t : T)
  | server
  | client (a : WiAddr)
  deriving DecidableEq

/-- The thread in which a caller runs. -/
def Caller.party : Caller T → BusParty T
  | .thread t => .thread t
  | .server => .server

/-- The thread that receives on a channel. -/
def Port.receiver : Port → BusParty T
  | .server => .server
  | .client a => .client a

/-- What an exchange of `pc_c_send` is for: to ask the server for a channel, to send to a
client, or to have the server broadcast. -/
inductive Job
  | getClient (dest : WiAddr)
  | send
  | broadcast (dest : WiAddr)
  deriving DecidableEq

/-- Where a thread is in `wi_send`: not in it, in an exchange, or back from asking for a
channel. -/
inductive Thread
  | idle
  | calling (port : Port) (job : Job)
  | resolved (dest : WiAddr)
  deriving DecidableEq

/-- The message in the buffer of the server's channel: a request with its sender, or a
reply with the channel it carries. -/
inductive Message
  | request (sender : WiAddr) (job : Job)
  | reply (channel : Option WiAddr)

/-- The bus: its channels, the application threads, the message on the server's channel,
the clients that a broadcast has yet to reach, and the `dev_list` of each client, which
maps ids to channels. -/
structure Bus (T : Type) where
  chan : Port → Channel (Caller T)
  thread : T → Thread
  message : Message
  todo : List WiAddr
  devList : WiAddr → List (WiAddr × WiAddr)

/-- No call under way, and no channel known. -/
def Bus.init : Bus T where
  chan := fun _ => Channel.init
  thread := fun _ => .idle
  message := .reply none
  todo := []
  devList := fun _ => []

/-- The channel that a client knows for a destination: `find_client` on its `dev_list`. -/
def Bus.device (s : Bus T) (a dest : WiAddr) : Option WiAddr :=
  ((s.devList a).find? fun e => e.1 = dest).map Prod.snd

section Steps

variable [DecidableEq T]

/-- A move on one of the channels. -/
def Bus.move (s : Bus T) (p : Port) (m : Move (Caller T)) : Option (Bus T) :=
  ((s.chan p).step m).map fun c => { s with chan := Function.update s.chan p c }

/-- The thread goes to a state. -/
def Bus.setThread (s : Bus T) (t : T) (x : Thread) : Bus T :=
  { s with thread := Function.update s.thread t x }

/-- Enter `ipc_send_cmd` on a channel. -/
def Bus.call (s : Bus T) (t : T) (p : Port) (job : Job) : Option (Bus T) :=
  (s.move p (.enter (.thread t))).map fun s' => s'.setThread t (.calling p job)

variable (clients : List WiAddr) (home : T → WiAddr)

/-- `wi_send` of a thread, up to its first `ipc_send_cmd`. A thread of a client that is not
registered returns at once, which is no step here. -/
def Bus.wiSend (s : Bus T) (t : T) (dest : WiAddr) : Option (Bus T) :=
  if s.thread t = .idle ∧ home t ∈ clients then
    if isBroadcastCb dest.toList 8 then s.call t .server (.broadcast dest)
    else
      match s.device (home t) dest with
      | some c => s.call t (.client c) .send
      | none => s.call t .server (.getClient dest)
  else none

/-- What a thread does besides its move: the request callback writes the message, the
response callback of a lookup puts the channel at the head of the `dev_list`, and at the
end of the call `pc_c_send` goes on. -/
def Bus.threadEffect (s : Bus T) (t : T) (p : Port) (job : Job) : Stage → Bus T
  | .request => if p = .server then { s with message := .request (home t) job } else s
  | .response =>
      match job, s.message with
      | .getClient dest, .reply (some c) =>
          { s with
              devList := Function.update s.devList (home t) ((dest, c) :: s.devList (home t)) }
      | _, _ => s
  | .vSend =>
      match job with
      | .getClient dest => s.setThread t (.resolved dest)
      | .send | .broadcast _ => s.setThread t .idle
  | .idle | .pSend | .vSRead | .pCRead => s

/-- The next step of an application thread. Back from a lookup it searches its `dev_list`
again, and fails if the destination is still not there. -/
def Bus.threadStep (s : Bus T) (t : T) : Option (Bus T) :=
  match s.thread t with
  | .idle => none
  | .resolved dest =>
      match s.device (home t) dest with
      | some c => s.call t (.client c) .send
      | none => some (s.setThread t .idle)
  | .calling p job =>
      let stage := (s.chan p).sender (.thread t)
      (stage.move (.thread t)).bind fun m =>
        (s.move p m).map fun s' => s'.threadEffect home t p job stage

/-- The clients that a request makes the server send to. -/
def targets : Message → List WiAddr
  | .request sender (.broadcast dest) =>
      clients.filter fun c => c ≠ sender ∧ isBcMatchCb dest.toList c.toList 8 = true
  | _ => []

/-- The reply of the server. -/
def answer : Message → Message
  | .request _ (.getClient dest) => .reply (if dest ∈ clients then some dest else none)
  | .request _ _ => .reply none
  | .reply c => .reply c

/-- The next step of the server's loop. Inside its callback it first sends to the clients
of a broadcast, one `ipc_send_cmd` after the other. -/
def Bus.serverStep (s : Bus T) : Option (Bus T) :=
  match (s.chan .server).receiver, s.todo with
  | .pSRead, _ =>
      (s.move .server .pSRead).map fun s' => { s' with todo := targets clients s.message }
  | .callback, [] =>
      (s.move .server .callbackDone).map fun s' => { s' with message := answer clients s.message }
  | .callback, c :: rest =>
      match (s.chan (.client c)).sender .server with
      | .idle => s.move (.client c) (.enter .server)
      | .vSend => (s.move (.client c) (.vSend .server)).map fun s' => { s' with todo := rest }
      | stage => (stage.move .server).bind (s.move (.client c))
  | .vCRead, _ => s.move .server .vCRead

/-- The next step of a client's receive loop. -/
def Bus.clientStep (s : Bus T) (a : WiAddr) : Option (Bus T) :=
  s.move (.client a) (s.chan (.client a)).receiver.move

/-- The next step of a thread; only registered clients have a receive loop. -/
def Bus.partyStep (s : Bus T) : BusParty T → Option (Bus T)
  | .thread t => s.threadStep home t
  | .server => s.serverStep clients
  | .client a => if a ∈ clients then s.clientStep a else none

/-- The steps of the bus: an application thread enters `wi_send`, or a thread goes on. -/
inductive BusAction (T : Type)
  | wiSend (t : T) (dest : WiAddr)
  | goOn (x : BusParty T)

/-- One step. -/
def Bus.step (s : Bus T) : BusAction T → Option (Bus T)
  | .wiSend t dest => s.wiSend clients home t dest
  | .goOn x => s.partyStep clients home x

end Steps

/-! ## The server's callback

`targets` and `answer` are what the callback of `proc_comm.c` does on the buffer, for
clients with ids of eight bytes. -/

/-- An address as the id that the library sends. -/
def WiAddr.peerId (a : WiAddr) : PeerId :=
  ⟨⟨a, 8⟩, by simp, by simp⟩

/-- The clients of a registry, by their ids. -/
def wiAddrs (list : List PcSClient) : List WiAddr := list.map fun c => c.id.data

section Callback

variable {w : World} (hw : WiBusInv w) (hlen : ∀ c ∈ w.server.clientList, c.id.len = 8)
include hw hlen

/-- Clients with the same eight bytes are one client. -/
theorem addr_eq_iff_data_eq {c d : PcSClient} (hc : c ∈ w.server.clientList)
    (hd : d ∈ w.server.clientList) : c.addr = d.addr ↔ c.id.data = d.id.data := by
  constructor
  · intro h
    rw [List.inj_on_of_nodup_map hw.registry.addrs hc hd h]
  · intro h
    have hkey : c.key = d.key := by
      rw [PcSClient.key, PcSClient.key, bytes_of_len (hlen c hc), bytes_of_len (hlen d hd), h]
    rw [List.inj_on_of_nodup_map hw.registry.keys hc hd hkey]

/-- The clients that the callback sends a broadcast to are the targets. -/
theorem broadcast_eq_targets {sender : PcSClient} (hsender : sender ∈ w.server.clientList)
    {dest : WiAddr} (hbc : isBroadcastCb dest.toList 8 = true) (payload : List UInt8)
    (status : PcSClient → UInt32) :
    wiAddrs (broadcast w sender.id ⟨dest, 8⟩ payload status) =
      targets (wiAddrs w.server.clientList) (.request sender.id.data (.broadcast dest)) := by
  rw [broadcast_eq hw hsender (hlen sender hsender) rfl rfl hbc, targets, wiAddrs, wiAddrs,
    List.filter_map]
  congr 1
  apply List.filter_congr
  intro c hc
  have haddr : sender.addr ≠ c.addr ↔ c.id.data ≠ sender.id.data :=
    (addr_eq_iff_data_eq hw hlen hsender hc).not.trans ne_comm
  simp only [Function.comp_apply, haddr]

/-- The callback refuses a lookup where the answer carries no channel. -/
theorem getClient_refused_iff (dest sender : WiAddr) :
    (serve w (.getClient dest.peerId)).2 = .refused ↔
      answer (wiAddrs w.server.clientList) (.request sender (.getClient dest)) = .reply none := by
  have hfind : lookupKey PcSClient.key w.server.clientList dest.toList = none ↔
      dest ∉ wiAddrs w.server.clientList := by
    rw [lookupKey_eq_none_iff, wiAddrs, List.mem_map, List.mem_map]
    refine not_congr (exists_congr fun c => and_congr_right fun hc => ?_)
    rw [PcSClient.key, bytes_of_len (hlen c hc), Vector.toList_inj]
  rw [(hw.registry.refines _).outcome]
  have hbytes : dest.peerId.bytes = dest.toList := bytes_of_len rfl
  simp only [spec, toMap, hbytes, answer]
  cases hkey : lookupKey PcSClient.key w.server.clientList dest.toList with
  | none => simp [Outcome.ofChannel, hfind.mp hkey]
  | some c =>
      have hmem : dest ∈ wiAddrs w.server.clientList := by
        by_contra hno
        simp [hfind.mpr hno] at hkey
      simp [Outcome.ofChannel, hmem]

end Callback

/-! ## The invariant -/

/-- The invariant: the tokens of every channel are accounted for, a thread is in a call
exactly on the channel it says it is, the server calls only the client it is about to
reach, and only channels of registered clients are known and called. -/
structure BusInv (clients : List WiAddr) (s : Bus T) : Prop where
  accounted : ∀ p, (s.chan p).Accounted
  thread : ∀ t p, (s.chan p).sender (.thread t) ≠ .idle ↔ ∃ job, s.thread t = .calling p job
  server : ∀ p, (s.chan p).sender .server ≠ .idle → ∃ c rest, p = .client c ∧ s.todo = c :: rest
  busy : s.todo ≠ [] → (s.chan .server).receiver = .callback
  todo : ∀ c ∈ s.todo, c ∈ clients
  device : ∀ a, ∀ e ∈ s.devList a, e.2 ∈ clients
  message : ∀ c, s.message = .reply (some c) → c ∈ clients
  calling : ∀ t c job, s.thread t = .calling (.client c) job → c ∈ clients

theorem busInv_init (clients : List WiAddr) : BusInv clients (Bus.init : Bus T) where
  accounted _ := .inl Channel.free_init
  thread t p := by simp [Bus.init, Channel.init]
  server p := by simp [Bus.init, Channel.init]
  busy := by simp [Bus.init]
  todo := by simp [Bus.init]
  device := by simp [Bus.init]
  message := by simp [Bus.init]
  calling := by simp [Bus.init]

section Invariant

variable {clients : List WiAddr} {home : T → WiAddr} {s s' : Bus T}

theorem BusInv.device_mem (h : BusInv clients s) {a dest c : WiAddr}
    (hc : s.device a dest = some c) : c ∈ clients := by
  simp only [Bus.device, Option.map_eq_some_iff] at hc
  obtain ⟨e, he, rfl⟩ := hc
  exact h.device a e (List.mem_of_find?_eq_some he)

/-- Outside its callback the server has nobody to reach. -/
theorem BusInv.todo_nil (h : BusInv clients s) (hrecv : (s.chan .server).receiver ≠ .callback) :
    s.todo = [] := by
  by_contra hne
  exact hrecv (h.busy hne)

/-- A channel that keeps a sender's stage keeps it on the bus. -/
theorem Bus.sender_update {p : Port} {c : Channel (Caller T)} {x : Caller T}
    (hx : c.sender x = (s.chan p).sender x) (q : Port) :
    (Function.update s.chan p c q).sender x = (s.chan q).sender x := by
  by_cases hq : q = p
  · subst hq
    simp [hx]
  · simp [hq]

/-- A channel that keeps its receiver's stage keeps it on the bus. -/
theorem Bus.receiver_update {p : Port} {c : Channel (Caller T)}
    (hc : c.receiver = (s.chan p).receiver) (q : Port) :
    (Function.update s.chan p c q).receiver = (s.chan q).receiver := by
  by_cases hq : q = p
  · subst hq
    simp [hc]
  · simp [hq]

theorem mem_of_mem_targets {msg : Message} {a : WiAddr} (ha : a ∈ targets clients msg) :
    a ∈ clients := by
  unfold targets at ha
  split at ha
  · exact (List.mem_filter.mp ha).1
  · simp at ha

/-- A reply carries the channel of a registered client only. -/
theorem mem_of_answer {msg : Message} (hmsg : ∀ c, msg = .reply (some c) → c ∈ clients)
    {c : WiAddr} (hc : answer clients msg = .reply (some c)) : c ∈ clients := by
  unfold answer at hc
  split at hc
  · split at hc
    · obtain rfl := Option.some.inj (Message.reply.inj hc)
      assumption
    · simp at hc
  · simp at hc
  · exact hmsg c hc

variable [DecidableEq T]

theorem Bus.move_eq_some {p : Port} {m : Move (Caller T)} (h : s.move p m = some s') :
    ∃ c, (s.chan p).step m = some c ∧ s' = { s with chan := Function.update s.chan p c } := by
  simp only [Bus.move, Option.map_eq_some_iff] at h
  obtain ⟨c, hc, rfl⟩ := h
  exact ⟨c, hc, rfl⟩

/-- A move that is no failure keeps the tokens of every channel accounted for. -/
theorem BusInv.accounted_move (h : BusInv clients s) {p : Port} {m : Move (Caller T)}
    (hm : ∀ j, m ≠ .fail j) {c : Channel (Caller T)} (hs : (s.chan p).step m = some c)
    (q : Port) : (Function.update s.chan p c q).Accounted := by
  by_cases hq : q = p
  · subst hq
    rw [Function.update_self]
    exact (h.accounted q).step (fun j hj => absurd hj (hm j)) hs
  · rw [Function.update_of_ne hq]
    exact h.accounted q

/-- A step of an application thread on a channel: it changes its own stage there, and goes
on to a state that says where it is. -/
theorem BusInv.threadMove (h : BusInv clients s) {t : T} {p : Port} {c : Channel (Caller T)}
    (stage : Stage) {x : Thread} (hacc : ∀ q, (Function.update s.chan p c q).Accounted)
    (hsender : c.sender = Function.update (s.chan p).sender (.thread t) stage)
    (hrecv : c.receiver = (s.chan p).receiver)
    (hbefore : ∀ q job, s.thread t = .calling q job → q = p)
    (hafter : ∀ q, (∃ job, x = .calling q job) ↔ q = p ∧ stage ≠ .idle)
    (hp : ∀ a, p = .client a → stage ≠ .idle → a ∈ clients) :
    BusInv clients { s with chan := Function.update s.chan p c
                            thread := Function.update s.thread t x } where
  accounted := hacc
  thread t' q := by
    have hold := h.thread t' q
    by_cases ht : t' = t
    · subst ht
      by_cases hq : q = p
      · subst hq
        simp [hsender, hafter]
      · have hno : ¬ ∃ job, s.thread t' = .calling q job := fun ⟨job, hj⟩ => hq (hbefore q job hj)
        simpa [hafter, hq, hno] using hold
    · by_cases hq : q = p
      · subst hq
        simpa [hsender, ht] using hold
      · simpa [hq, ht] using hold
  server q hq := by
    have hsame := Bus.sender_update (s := s) (p := p) (c := c) (x := .server) (by simp [hsender])
    exact h.server q (hsame q ▸ hq)
  busy htodo := (Bus.receiver_update hrecv .server).trans (h.busy htodo)
  todo := h.todo
  device := h.device
  message := h.message
  calling t' a job hcall := by
    by_cases ht : t' = t
    · subst ht
      obtain ⟨hpa, hstage⟩ := (hafter (.client a)).mp ⟨job, by simpa using hcall⟩
      exact hp a hpa.symm hstage
    · exact h.calling t' a job (by simpa [ht] using hcall)

/-- Entering a call from outside every call. -/
theorem BusInv.call (h : BusInv clients s) {t : T} {p : Port} {job : Job}
    (hout : ∀ q job, s.thread t ≠ .calling q job) (hp : ∀ c, p = .client c → c ∈ clients)
    (hs : s.call t p job = some s') : BusInv clients s' := by
  simp only [Bus.call, Option.map_eq_some_iff] at hs
  obtain ⟨s₁, hmove, rfl⟩ := hs
  obtain ⟨c, hstep, rfl⟩ := Bus.move_eq_some hmove
  obtain ⟨-, hsender, hrecv⟩ := Channel.step_enter hstep
  exact h.threadMove _ (h.accounted_move (by simp) hstep) hsender hrecv
    (fun q job hj => absurd hj (hout q job)) (by simp [eq_comm]) (fun a ha _ => hp a ha)

/-- Calling a client that is known. -/
theorem BusInv.callDevice (h : BusInv clients s) {t : T} {a dest c : WiAddr} {job : Job}
    (hout : ∀ q job, s.thread t ≠ .calling q job) (hc : s.device a dest = some c)
    (hs : s.call t (.client c) job = some s') : BusInv clients s' := by
  refine h.call hout ?_ hs
  rintro b ⟨⟩
  exact h.device_mem hc

/-- Leaving `wi_send` from outside every call. -/
theorem BusInv.setThread_idle (h : BusInv clients s) {t : T}
    (hout : ∀ q job, s.thread t ≠ .calling q job) : BusInv clients (s.setThread t .idle) := by
  have hstage : (s.chan .server).sender (.thread t) = .idle := by
    by_contra hne
    obtain ⟨job, hjob⟩ := (h.thread t .server).mp hne
    exact hout _ _ hjob
  have hinv := h.threadMove (t := t) (p := .server) (c := s.chan .server) .idle
    (x := .idle) (by simpa using h.accounted) (by simp [← hstage]) rfl
    (fun q job hj => absurd hj (hout q job)) (by simp) (by simp)
  simpa [Bus.setThread] using hinv

/-- A thread's own step inside a call. -/
theorem BusInv.threadCalling (h : BusInv clients s) {t : T} {p : Port} {job : Job}
    (hcall : s.thread t = .calling p job) {m : Move (Caller T)}
    (hm : ((s.chan p).sender (.thread t)).move (.thread t) = some m) {c : Channel (Caller T)}
    (hstep : (s.chan p).step m = some c) :
    BusInv clients (Bus.threadEffect home { s with chan := Function.update s.chan p c } t p job
      ((s.chan p).sender (.thread t))) := by
  obtain ⟨hsender, hrecv⟩ := Channel.step_sender hm hstep
  have hmove := fun x => h.threadMove _ (x := x) (h.accounted_move (Stage.move_ne_fail hm) hstep)
    hsender hrecv (by simp [hcall])
  have hclient : ∀ a, p = .client a → a ∈ clients := by
    rintro a rfl
    exact h.calling t a job hcall
  -- in the middle of the call the thread stays where it is
  have hstay : ((s.chan p).sender (.thread t)).next ≠ .idle →
      BusInv clients { s with chan := Function.update s.chan p c } := by
    intro hnext
    have hinv := hmove (s.thread t) (by simp [hcall, hnext, eq_comm]) (fun a ha _ => hclient a ha)
    rwa [Function.update_eq_self] at hinv
  -- at its end it goes on to a state outside every call
  have hleave : ((s.chan p).sender (.thread t)).next = .idle → ∀ x : Thread,
      (∀ q job, x ≠ .calling q job) →
      BusInv clients (Bus.setThread { s with chan := Function.update s.chan p c } t x) :=
    fun hnext x hx => hmove x (by simp [hx, hnext]) (by simp [hnext])
  cases hst : (s.chan p).sender (.thread t) with
  | idle => simp [hst, Stage.move] at hm
  | pSend | vSRead | pCRead => exact hstay (by simp [hst, Stage.next])
  | request =>
      have hinv := hstay (by simp [hst, Stage.next])
      simp only [Bus.threadEffect]
      split
      · exact { hinv with message := by simp }
      · exact hinv
  | response =>
      have hinv := hstay (by simp [hst, Stage.next])
      simp only [Bus.threadEffect]
      split
      · rename_i dest c' hmsg
        refine { hinv with device := ?_ }
        intro a e he
        by_cases ha : a = home t
        · subst ha
          simp only [Function.update_self, List.mem_cons] at he
          rcases he with rfl | he
          · exact h.message c' hmsg
          · exact h.device _ e he
        · exact h.device a e (by simpa [ha] using he)
      · exact hinv
  | vSend =>
      have hnext : ((s.chan p).sender (.thread t)).next = .idle := by simp [hst, Stage.next]
      cases job <;> exact hleave hnext _ (by simp)

/-- A move of a receiver, which leaves the senders alone. -/
theorem BusInv.receiverMove (h : BusInv clients s) {p : Port} {m : Move (Caller T)}
    (hm : (s.chan p).receiver.move = m) {c : Channel (Caller T)}
    (hstep : (s.chan p).step m = some c) (todo : List WiAddr)
    (htodo : ∀ a ∈ todo, a ∈ clients)
    (hserver : ∀ q, (s.chan q).sender .server ≠ .idle → ∃ a rest, q = .client a ∧
      todo = a :: rest)
    (hbusy : todo ≠ [] → (Function.update s.chan p c .server).receiver = .callback) :
    BusInv clients { s with chan := Function.update s.chan p c, todo } := by
  subst hm
  obtain ⟨hsender, -⟩ := Channel.step_receiver hstep
  have hsame : ∀ x q, (Function.update s.chan p c q).sender x = (s.chan q).sender x :=
    fun x q => Bus.sender_update (by rw [hsender]) q
  exact
    { accounted := h.accounted_move (fun j => (s.chan p).receiver.move_ne_fail j) hstep
      thread := fun t q => by rw [hsame]; exact h.thread t q
      server := fun q hq => hserver q (by rwa [hsame] at hq)
      busy := hbusy
      todo := htodo
      device := h.device
      message := h.message
      calling := h.calling }

/-- A move of the server as a sender on the channel of the client it is about to reach. -/
theorem BusInv.serverSend (h : BusInv clients s) {a : WiAddr} {rest : List WiAddr}
    (htodo : s.todo = a :: rest) {todo : List WiAddr} (hsuffix : todo <:+ s.todo)
    {m : Move (Caller T)} (hm : ∀ j, m ≠ .fail j) {c : Channel (Caller T)}
    (hstep : (s.chan (.client a)).step m = some c)
    (hthread : ∀ t, c.sender (.thread t) = (s.chan (.client a)).sender (.thread t))
    (hown : c.sender .server ≠ .idle → todo = s.todo) :
    BusInv clients { s with chan := Function.update s.chan (.client a) c, todo } where
  accounted := h.accounted_move hm hstep
  thread t q := by
    rw [Bus.sender_update (hthread t)]
    exact h.thread t q
  server q hq := by
    by_cases hqa : q = .client a
    · subst hqa
      refine ⟨a, rest, rfl, ?_⟩
      rw [hown (by simpa using hq), htodo]
    · obtain ⟨b, rest', rfl, hcons⟩ := h.server q (by simpa [hqa] using hq)
      rw [htodo] at hcons
      exact absurd (congrArg Port.client (List.cons.inj hcons).1.symm) hqa
  busy hne := by
    have hcb := h.busy (by simp [htodo])
    simpa using hcb
  todo b hb := h.todo b (hsuffix.subset hb)
  device := h.device
  message := h.message
  calling := h.calling

/-- A step of the server. -/
theorem BusInv.serverStep (h : BusInv clients s) (hs : s.serverStep clients = some s') :
    BusInv clients s' := by
  -- outside its callback, or with nobody left to reach, the server is in no call
  have hidle : s.todo = [] → ∀ q, ¬ (s.chan q).sender .server ≠ .idle := by
    intro htodo q hq
    obtain ⟨c, rest, -, hcons⟩ := h.server q hq
    simp [htodo] at hcons
  rw [Bus.serverStep] at hs
  split at hs
  case h_1 hrecv =>
    have htodo := h.todo_nil (by simp [hrecv])
    simp only [Option.map_eq_some_iff] at hs
    obtain ⟨s₁, hmove, rfl⟩ := hs
    obtain ⟨c, hstep, rfl⟩ := Bus.move_eq_some hmove
    have hnext := (Channel.step_receiver (c := s.chan .server) (by rwa [hrecv])).2
    refine h.receiverMove (by rw [hrecv]; rfl) hstep _ ?_ (fun q hq => absurd hq (hidle htodo q)) ?_
    · exact fun a ha => mem_of_mem_targets ha
    · intro _
      simp [hnext, hrecv, RecvStage.next]
  case h_2 hrecv htodo =>
    simp only [Option.map_eq_some_iff] at hs
    obtain ⟨s₁, hmove, rfl⟩ := hs
    obtain ⟨c, hstep, rfl⟩ := Bus.move_eq_some hmove
    have hinv := h.receiverMove (by rw [hrecv]; rfl) hstep s.todo h.todo h.server
      (fun hne => absurd htodo hne)
    exact { hinv with message := fun c hc => mem_of_answer h.message hc }
  case h_3 a rest hrecv htodo =>
    split at hs
    · obtain ⟨c, hstep, rfl⟩ := Bus.move_eq_some hs
      obtain ⟨-, hsender, -⟩ := Channel.step_enter hstep
      exact h.serverSend htodo List.suffix_rfl (by simp) hstep
        (by simp [hsender]) (fun _ => rfl)
    · rename_i hst
      simp only [Option.map_eq_some_iff] at hs
      obtain ⟨s₁, hmove, rfl⟩ := hs
      obtain ⟨c, hstep, rfl⟩ := Bus.move_eq_some hmove
      obtain ⟨hsender, -⟩ := Channel.step_sender (i := .server) (by rw [hst]; rfl) hstep
      exact h.serverSend htodo (htodo ▸ List.suffix_cons a rest) (by simp) hstep
        (by simp [hsender]) (fun hne => absurd (by simp [hsender, hst, Stage.next]) hne)
    · rename_i stage hne₁ hne₂
      simp only [Option.bind_eq_some_iff] at hs
      obtain ⟨m, hm, hmove⟩ := hs
      obtain ⟨c, hstep, rfl⟩ := Bus.move_eq_some hmove
      obtain ⟨hsender, -⟩ := Channel.step_sender hm hstep
      exact h.serverSend htodo List.suffix_rfl (Stage.move_ne_fail hm) hstep
        (by simp [hsender]) (fun _ => rfl)
  case h_4 hrecv =>
    have htodo := h.todo_nil (by simp [hrecv])
    obtain ⟨c, hstep, rfl⟩ := Bus.move_eq_some hs
    exact h.receiverMove (by rw [hrecv]; rfl) hstep s.todo h.todo h.server
      (fun hne => absurd htodo hne)

/-- A step of an application thread. -/
theorem BusInv.threadStep (h : BusInv clients s) {t : T} (hs : s.threadStep home t = some s') :
    BusInv clients s' := by
  rw [Bus.threadStep] at hs
  split at hs
  case h_1 => cases hs
  case h_2 dest hres =>
    have hout : ∀ q job, s.thread t ≠ .calling q job := by simp [hres]
    split at hs
    · rename_i c hc
      exact h.callDevice hout hc hs
    · cases hs
      exact h.setThread_idle hout
  case h_3 p job hcall =>
    simp only [Option.bind_eq_some_iff, Option.map_eq_some_iff] at hs
    obtain ⟨m, hm, s₁, hmove, rfl⟩ := hs
    obtain ⟨c, hstep, rfl⟩ := Bus.move_eq_some hmove
    exact h.threadCalling hcall hm hstep

/-- A step of a client's receive loop. -/
theorem BusInv.clientStep (h : BusInv clients s) {a : WiAddr} (hs : s.clientStep a = some s') :
    BusInv clients s' := by
  obtain ⟨c, hstep, rfl⟩ := Bus.move_eq_some hs
  exact h.receiverMove rfl hstep s.todo h.todo h.server (by simpa using h.busy)

/-- **Every step keeps the invariant.** -/
theorem BusInv.step (h : BusInv clients s) {a : BusAction T}
    (hs : s.step clients home a = some s') : BusInv clients s' := by
  rcases a with ⟨t, dest⟩ | ⟨t | _ | a⟩
  · simp only [Bus.step, Bus.wiSend, Option.ite_none_right_eq_some] at hs
    obtain ⟨⟨hidle, -⟩, hs⟩ := hs
    have hout : ∀ q job, s.thread t ≠ .calling q job := by simp [hidle]
    split at hs
    · exact h.call hout (by simp) hs
    · split at hs
      · rename_i c hc
        exact h.callDevice hout hc hs
      · exact h.call hout (by simp) hs
  · exact h.threadStep hs
  · exact h.serverStep hs
  · simp only [Bus.step, Bus.partyStep, Option.ite_none_right_eq_some] at hs
    exact h.clientStep hs.2

end Invariant

/-! ## Who waits for whom -/

/-- `s.Waits x y`: in its next `semop` the thread `x` has to wait for something that the
thread `y` is to do. A sender waits for `SEND` on whoever has taken it, and for `C_READ` on
the receiver; a receiver waits for `S_READ` on the sender that has yet to post it. -/
inductive Bus.Waits (s : Bus T) : BusParty T → BusParty T → Prop
  | send {p : Port} {i j : Caller T} : (s.chan p).sender i = .pSend → (s.chan p).send = 0 →
      ((s.chan p).sender j).inside = true → s.Waits i.party j.party
  | cRead {p : Port} {i : Caller T} : (s.chan p).sender i = .pCRead → (s.chan p).cRead = 0 →
      s.Waits i.party p.receiver
  | sRead {p : Port} {i : Caller T} : (s.chan p).receiver = .pSRead → (s.chan p).sRead = 0 →
      (s.chan p).sender i = .request ∨ (s.chan p).sender i = .vSRead →
      s.Waits p.receiver i.party

/-- The level of a sender, from the level of a channel: highest before it is inside, and
nothing where its next `semop` does not wait. -/
def Stage.level (base : ℕ) : Stage → ℕ
  | .pSend => base + 1
  | .pCRead => base
  | .idle | .request | .vSRead | .response | .vSend => 0

/-- The level of a receiver outside its callback. -/
def RecvStage.level : RecvStage → ℕ
  | .pSRead => 1
  | .callback | .vCRead => 0

/-- The levels of the channels: the server's is above those of the clients, which the
server calls while its own is held. -/
def Port.base : Port → ℕ
  | .server => 5
  | .client _ => 2

/-- The level of a thread; it falls along every wait. -/
def Bus.level (s : Bus T) : BusParty T → ℕ
  | .thread t =>
      match s.thread t with
      | .calling p _ => ((s.chan p).sender (.thread t)).level p.base
      | .idle | .resolved _ => 0
  | .server =>
      match s.todo with
      | c :: _ => ((s.chan (.client c)).sender .server).level (Port.client c).base
      | [] => (s.chan .server).receiver.level
  | .client a => (s.chan (.client a)).receiver.level

theorem Stage.level_le_of_inside {x : Stage} (hx : x.inside = true) (base : ℕ) :
    x.level base ≤ base := by
  cases x <;> simp_all [Stage.inside, Stage.level]

theorem RecvStage.level_le_one (r : RecvStage) : r.level ≤ 1 := by
  cases r <;> simp [RecvStage.level]

section Deadlock

variable {clients : List WiAddr} {home : T → WiAddr} {s : Bus T}

/-- A caller in a call has the level of its stage there. -/
theorem BusInv.level_sender (h : BusInv clients s) {p : Port} {i : Caller T}
    (hi : (s.chan p).sender i ≠ .idle) :
    s.level i.party = ((s.chan p).sender i).level p.base := by
  cases i with
  | thread t =>
      obtain ⟨job, hjob⟩ := (h.thread t p).mp hi
      simp [Bus.level, Caller.party, hjob]
  | server =>
      obtain ⟨c, rest, rfl, htodo⟩ := h.server p hi
      simp [Bus.level, Caller.party, htodo]

/-- A receiver is below the senders that wait for it. -/
theorem Bus.level_receiver_lt (s : Bus T) (p : Port) : s.level p.receiver < p.base := by
  cases p with
  | server =>
      simp only [Bus.level, Port.receiver, Port.base]
      split
      · rename_i c rest _
        cases (s.chan (.client c)).sender .server <;> simp [Stage.level]
      · have := (s.chan .server).receiver.level_le_one
        omega
  | client a =>
      have := (s.chan (.client a)).receiver.level_le_one
      simp only [Bus.level, Port.receiver, Port.base]
      omega

/-- A receiver that waits for a request has level one. -/
theorem BusInv.level_receiver (h : BusInv clients s) {p : Port}
    (hp : (s.chan p).receiver = .pSRead) : s.level p.receiver = 1 := by
  cases p with
  | server =>
      have htodo := h.todo_nil (by simp [hp])
      simp [Bus.level, Port.receiver, htodo, hp, RecvStage.level]
  | client a => simp [Bus.level, Port.receiver, hp, RecvStage.level]

/-- **The level falls along every wait.** -/
theorem BusInv.level_lt (h : BusInv clients s) (x y : BusParty T) (hxy : s.Waits x y) :
    s.level y < s.level x := by
  cases hxy with
  | @send p i j hi _ hj =>
      have hne : (s.chan p).sender j ≠ .idle := by
        intro hidle
        simp [hidle, Stage.inside] at hj
      have hle := Stage.level_le_of_inside hj p.base
      rw [h.level_sender hne, h.level_sender (p := p) (by simp [hi]), hi]
      exact Nat.lt_succ_of_le hle
  | @cRead p i hi _ =>
      rw [h.level_sender (p := p) (by simp [hi]), hi]
      exact s.level_receiver_lt p
  | @sRead p i hr _ hi =>
      have hzero : s.level i.party = 0 := by
        rcases hi with hi | hi <;>
          rw [h.level_sender (p := p) (by simp [hi]), hi] <;> rfl
      simp [h.level_receiver hr, hzero]

/-- The thread has something to do: a `wi_send` to finish, or a reply that a sender waits
for. -/
def Bus.Pending (clients : List WiAddr) (s : Bus T) : BusParty T → Prop
  | .thread t => s.thread t ≠ .idle
  | .server => ∃ i, (s.chan .server).sender i = .pCRead ∧ (s.chan .server).cRead = 0
  | .client a => a ∈ clients ∧
      ∃ i, (s.chan (.client a)).sender i = .pCRead ∧ (s.chan (.client a)).cRead = 0

/-- A caller in a call has something to do. -/
theorem BusInv.pending_caller (h : BusInv clients s) {p : Port} {i : Caller T}
    (hi : (s.chan p).sender i ≠ .idle) : s.Pending clients i.party := by
  cases i with
  | thread t =>
      obtain ⟨job, hjob⟩ := (h.thread t p).mp hi
      simp [Bus.Pending, Caller.party, hjob]
  | server =>
      -- the server calls from inside its callback, so a sender waits for the server's reply
      obtain ⟨c, rest, -, htodo⟩ := h.server p hi
      exact (h.accounted .server).waiting_of_callback (h.busy (by simp [htodo]))

variable [DecidableEq T]

/-- A caller whose next move is not enabled waits for a thread that has something to do. -/
theorem BusInv.caller_waits (h : BusInv clients s) {p : Port}
    (hp : ∀ a, p = .client a → a ∈ clients) {i : Caller T} {m : Move (Caller T)}
    (hm : ((s.chan p).sender i).move i = some m) (hstep : (s.chan p).step m = none) :
    ∃ y, s.Waits i.party y ∧ s.Pending clients y := by
  rcases (h.accounted p).blocked hm hstep with ⟨hi, hsend, j, hj⟩ | ⟨hi, hread⟩
  · refine ⟨j.party, .send hi hsend hj, h.pending_caller (p := p) ?_⟩
    intro hidle
    simp [hidle, Stage.inside] at hj
  · refine ⟨p.receiver, .cRead hi hread, ?_⟩
    cases p with
    | server => exact ⟨i, hi, hread⟩
    | client a => exact ⟨hp a rfl, i, hi, hread⟩

theorem Bus.isSome_move {p : Port} {m : Move (Caller T)} {c : Channel (Caller T)}
    (h : (s.chan p).step m = some c) : (s.move p m).isSome = true := by
  simp [Bus.move, h]

/-- A thread outside every call can enter one. -/
theorem BusInv.isSome_call (h : BusInv clients s) {t : T}
    (hout : ∀ q job, s.thread t ≠ .calling q job) (p : Port) (job : Job) :
    (s.call t p job).isSome = true := by
  have hidle : (s.chan p).sender (.thread t) = .idle := by
    by_contra hne
    obtain ⟨job', hjob'⟩ := (h.thread t p).mp hne
    exact hout p job' hjob'
  simp [Bus.call, Bus.move, Channel.step, hidle]

/-- A pending `wi_send` can go on, or waits. -/
theorem BusInv.thread_progress (h : BusInv clients s) {t : T} (ht : s.thread t ≠ .idle) :
    (s.threadStep home t).isSome = true ∨ ∃ y, s.Waits (.thread t) y ∧ s.Pending clients y := by
  cases hst : s.thread t with
  | idle => exact absurd hst ht
  | resolved dest =>
      left
      simp only [Bus.threadStep, hst]
      split
      · exact h.isSome_call (by simp [hst]) _ _
      · rfl
  | calling p job =>
      have hin : (s.chan p).sender (.thread t) ≠ .idle := (h.thread t p).mpr ⟨job, hst⟩
      obtain ⟨m, hm⟩ := Stage.exists_move (Caller.thread t) hin
      cases hstep : (s.chan p).step m with
      | some c => exact .inl (by simp [Bus.threadStep, hst, hm, Bus.isSome_move hstep])
      | none =>
          refine .inr (h.caller_waits (i := .thread t) ?_ hm hstep)
          rintro a rfl
          exact h.calling t a job hst

/-- In the middle of a broadcast the server can go on, or waits. -/
theorem BusInv.broadcast_progress (h : BusInv clients s) {a : WiAddr} {rest : List WiAddr}
    (hrecv : (s.chan .server).receiver = .callback) (htodo : s.todo = a :: rest) :
    (s.serverStep clients).isSome = true ∨ ∃ y, s.Waits .server y ∧ s.Pending clients y := by
  by_cases hidle : (s.chan (.client a)).sender .server = .idle
  · left
    simp [Bus.serverStep, hrecv, htodo, hidle, Bus.move, Channel.step]
  · obtain ⟨m, hm⟩ := Stage.exists_move Caller.server hidle
    cases hstep : (s.chan (.client a)).step m with
    | none =>
        refine .inr (h.caller_waits (i := .server) ?_ hm hstep)
        rintro b ⟨⟩
        exact h.todo a (by simp [htodo])
    | some c =>
        left
        have hmove := Bus.isSome_move hstep
        cases hst : (s.chan (.client a)).sender .server <;> rw [hst] at hm <;> cases hm <;>
          simpa [Bus.serverStep, hrecv, htodo, hst, Stage.move] using hmove

/-- The server can go on whenever a sender waits for its reply, or waits itself. -/
theorem BusInv.server_progress (h : BusInv clients s) (hs : s.Pending clients .server) :
    (s.serverStep clients).isSome = true ∨ ∃ y, s.Waits .server y ∧ s.Pending clients y := by
  obtain ⟨i, hi, hread⟩ := hs
  obtain ⟨c, hstep⟩ := (h.accounted .server).receiver_enabled hi hread
  have hmove := Bus.isSome_move hstep
  cases hrecv : (s.chan .server).receiver with
  | pSRead | vCRead =>
      left
      simpa [Bus.serverStep, hrecv, RecvStage.move] using hmove
  | callback =>
      cases htodo : s.todo with
      | nil =>
          left
          simpa [Bus.serverStep, hrecv, htodo, RecvStage.move] using hmove
      | cons a rest => exact h.broadcast_progress hrecv htodo

/-- **Whoever has something to do can go on, or waits for someone who has.** -/
theorem BusInv.progress (h : BusInv clients s) (x : BusParty T) (hx : s.Pending clients x) :
    (s.partyStep clients home x).isSome = true ∨ ∃ y, s.Waits x y ∧ s.Pending clients y := by
  cases x with
  | thread t => exact h.thread_progress hx
  | server => exact h.server_progress hx
  | client a =>
      obtain ⟨ha, i, hi, hread⟩ := hx
      obtain ⟨c, hstep⟩ := (h.accounted (.client a)).receiver_enabled hi hread
      left
      simpa [Bus.partyStep, ha, Bus.clientStep] using Bus.isSome_move hstep

/-- **The bus is free of deadlock.** In every state it reaches, the threads do not wait for
one another in a cycle, and from every pending `wi_send` the waits lead to a thread that
can take a step. -/
theorem bus_deadlock_free (clients : List WiAddr) (home : T → WiAddr) {as : List (BusAction T)}
    {s : Bus T}
    (h : Runs (Bus.step clients home) (fun _ _ => True) Bus.init as s) :
    (∀ x, ¬ Relation.TransGen s.Waits x x) ∧
      ∀ t, s.thread t ≠ .idle →
        ∃ y, Relation.ReflTransGen s.Waits (.thread t) y ∧
          (s.partyStep clients home y).isSome = true := by
  have hinv : BusInv clients s :=
    h.invariant (busInv_init clients) fun _ _ _ hu _ hstep => hu.step hstep
  refine ⟨acyclic_of_rank hinv.level_lt, fun t ht => ?_⟩
  exact exists_reaches_of_rank hinv.level_lt hinv.progress (x := .thread t) ht

/-- The first client broadcasts to the group of the second, the second asks for the channel
of the first, and the server is about to reach the second. -/
def crossingRun : List (BusAction Bool) :=
  [.wiSend true #v[2, 2, 0xFF, 0xFF, 0xFF, 0xFF, 0xFF, 0xFF], .wiSend false firstId.data,
    .goOn (.thread true), .goOn (.thread true), .goOn (.thread true), .goOn .server,
    .goOn .server]

def crossingHome (t : Bool) : WiAddr := if t then firstId.data else secondId.data

theorem bus_deadlock_free_crossingRun :
    ∃ s : Bus Bool,
      crossingRun.foldlM (Bus.step [firstId.data, secondId.data] crossingHome) Bus.init = some s ∧
      s.thread false ≠ .idle ∧
      (∀ x, ¬ Relation.TransGen s.Waits x x) ∧
      ∃ y, Relation.ReflTransGen s.Waits (.thread false) y ∧
        (s.partyStep [firstId.data, secondId.data] crossingHome y).isSome = true := by
  have hrun : (crossingRun.foldlM (Bus.step [firstId.data, secondId.data] crossingHome)
      Bus.init).any (fun s => s.thread false ≠ .idle) = true := by decide
  obtain ⟨s, hs, hpending⟩ := (Option.any_eq_true _ _).mp hrun
  have hne : s.thread false ≠ .idle := of_decide_eq_true hpending
  obtain ⟨hcycle, hstep⟩ := bus_deadlock_free [firstId.data, secondId.data] crossingHome
    (Runs.of_foldlM hs fun _ _ _ => trivial)
  exact ⟨s, hs, hne, hcycle, hstep false hne⟩

end Deadlock

end CCode.MemShare
