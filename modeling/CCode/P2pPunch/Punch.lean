import CCode.Lib.Transition
import Mathlib.Data.Fintype.Card
import Mathlib.Data.List.GetD
import Mathlib.Data.List.Nodup
import Mathlib.Tactic

/-!
# UDP hole punching

`udp_server.c` and `udp_client.c`: a client makes itself known to a server with one datagram. The
server keeps the endpoints that datagrams came from, and with each of them tells everybody about
everybody. A client adds what the server tells it to its peers and sends to all of them.

A datagram that was sent can come at any later time, before others that were sent earlier, more than
once, or never. Its source is the endpoint of its sender, as the clients behind their NATs are seen
from outside. The arrays have ten places and nothing checks that: a step that writes beyond them has
no result.

## Main definitions

* `Client`, `Dgram` — endpoints and datagrams.
* `serverRecv`, `clientRecv` — what the two programs do with a datagram.
* `Net`, `step`, `Allowed` — all programs with what was sent.
* `PunchInv` — what holds in every state.

## Main results

* `PunchInv.of_runs` — the invariant over a run.
* `punch_agreement` — who was told everything knows everybody.
* `punch_bounds` — ten clients have place.
-/

namespace CCode.P2pPunch

open CCode.Lib

/-! ## The programs -/

/-- `struct client`, with the bytes of the two numbers as they are in memory. -/
structure Client where
  host : Vector UInt8 4
  port : Vector UInt8 2
  deriving DecidableEq

namespace Client

/-- The six bytes that `sendto` takes. -/
def bytes (c : Client) : List UInt8 := c.host.toList ++ c.port.toList

/-- `recvfrom` into a `struct client`: a short datagram leaves the bytes behind it. -/
def recvfrom (buf : Client) (payload : List UInt8) : Client where
  host := Vector.ofFn fun i => payload.getD i (buf.host.get i)
  port := Vector.ofFn fun i => payload.getD (4 + i) (buf.port.get i)

end Client

/-- A datagram. -/
structure Dgram where
  src : Client
  dst : Client
  payload : List UInt8
  deriving DecidableEq

/-- `"hi"`. -/
def hi : List UInt8 := [104, 105]

/-- The round of the loop of `udp_server.c`: the endpoints, and what is sent. -/
def serverRecv (server : Client) (clients : List Client) (d : Dgram) :
    Option (List Client × List Dgram) :=
  if clients.length < 10 then
    let clients := clients ++ [d.src]
    some (clients, clients.flatMap fun i => clients.map fun j => ⟨server, i, j.bytes⟩)
  else none

/-- The variables of `udp_client.c`. `got` is what it has received, and `reports` are the peers that
it has named as a sender. -/
structure Node where
  started : Bool
  buf : Client
  peers : List Client
  reports : List ℕ
  got : List Dgram

/-- A peer is added if it is not there. -/
def addPeer (peers : List Client) (c : Client) : Option (List Client) :=
  if c ∈ peers then some peers
  else if peers.length < 10 then some (peers ++ [c])
  else none

/-- The ten rounds of datagrams to all peers. -/
def punches (me : Client) (peers : List Client) : List Dgram :=
  (List.replicate 10 (peers.map fun p => (⟨me, p, hi⟩ : Dgram))).flatten

/-- The round of the loop of `udp_client.c`. What a peer has sent is looked up among the peers in
place of where it came from. -/
def clientRecv (server me : Client) (nd : Node) (d : Dgram) : Option (Node × List Dgram) :=
  let buf := nd.buf.recvfrom d.payload
  if d.src = server then do
    let peers ← addPeer nd.peers buf
    some ({ nd with buf, peers, got := nd.got ++ [d] }, punches me peers)
  else
    some ({ nd with
      buf
      reports := nd.reports ++ (nd.peers.findIdx? fun p => p = buf).toList
      got := nd.got ++ [d] }, [])

/-! ## All programs -/

variable {ι : Type}

/-- The programs, with all that was sent. `served` is what the server has received. -/
structure Net (ι : Type) where
  clients : List Client
  node : ι → Node
  sent : List Dgram
  served : List Dgram

/-- Nothing was sent yet; what is in the buffers is arbitrary. -/
def initial (buf : ι → Client) : Net ι where
  clients := []
  node i := ⟨false, buf i, [], [], []⟩
  sent := []
  served := []

/-- A client starts, the server receives a datagram, or a client does. -/
inductive Move (ι : Type)
  | start (i : ι)
  | serve (d : Dgram)
  | receive (i : ι) (d : Dgram)
  deriving DecidableEq

/-- A client starts once, and what is received was sent to where it arrives. -/
def Allowed (server : Client) (endpoint : ι → Client) (s : Net ι) : Move ι → Prop
  | .start i => (s.node i).started = false
  | .serve d => d ∈ s.sent ∧ d.dst = server
  | .receive i d => (s.node i).started = true ∧ d ∈ s.sent ∧ d.dst = endpoint i

instance (server : Client) (endpoint : ι → Client) (s : Net ι) (a : Move ι) :
    Decidable (Allowed server endpoint s a) :=
  match a with
  | .start i => inferInstanceAs (Decidable ((s.node i).started = false))
  | .serve d => inferInstanceAs (Decidable (d ∈ s.sent ∧ d.dst = server))
  | .receive i d =>
      inferInstanceAs (Decidable ((s.node i).started = true ∧ d ∈ s.sent ∧ d.dst = endpoint i))

/-- A step; none where an array is left. -/
def step [DecidableEq ι] (server : Client) (endpoint : ι → Client) (s : Net ι) :
    Move ι → Option (Net ι)
  | .start i =>
      some { s with
        node := Function.update s.node i { s.node i with started := true }
        sent := s.sent ++ [⟨endpoint i, server, hi⟩] }
  | .serve d => do
      let (clients, out) ← serverRecv server s.clients d
      some { s with clients, sent := s.sent ++ out, served := s.served ++ [d] }
  | .receive i d => do
      let (nd, out) ← clientRecv server (endpoint i) (s.node i) d
      some { s with node := Function.update s.node i nd, sent := s.sent ++ out }

/-! ## The buffer -/

theorem Client.length_bytes (c : Client) : c.bytes.length = 6 := by
  simp [Client.bytes]

/-- An endpoint that is received is in the buffer. -/
theorem Client.recvfrom_bytes (buf c : Client) : buf.recvfrom c.bytes = c := by
  obtain ⟨host, port⟩ := c
  simp only [Client.recvfrom, Client.bytes, Client.mk.injEq]
  constructor
  · apply Vector.ext
    intro i h
    rw [Vector.getElem_ofFn, List.getD_append _ _ _ _ (by simpa using h)]
    simp [List.getD_eq_getElem?_getD, h]
  · apply Vector.ext
    intro i h
    rw [Vector.getElem_ofFn, List.getD_append_right _ _ _ _ (by simp)]
    simp [List.getD_eq_getElem?_getD, h]

theorem Client.bytes_injective : Function.Injective Client.bytes := by
  intro c c' h
  rw [← Client.recvfrom_bytes c c, h, Client.recvfrom_bytes]

/-- What a peer has sent is the beginning of the address. -/
theorem Client.recvfrom_hi (buf : Client) :
    (buf.recvfrom hi).host.get 0 = 104 ∧ (buf.recvfrom hi).host.get 1 = 105 := by
  constructor <;> rfl

/-! ## What a program does -/

section Programs

variable {server me : Client} {nd nd' : Node} {d : Dgram} {clients clients' : List Client}
  {out : List Dgram}

theorem serverRecv_cases (h : serverRecv server clients d = some (clients', out)) :
    clients.length < 10 ∧ clients' = clients ++ [d.src] ∧
      ∀ x, x ∈ out ↔ ∃ i ∈ clients', ∃ j ∈ clients', x = ⟨server, i, j.bytes⟩ := by
  rw [serverRecv] at h
  split_ifs at h with hlt
  obtain ⟨rfl, rfl⟩ := Prod.mk.inj (Option.some.inj h)
  refine ⟨hlt, rfl, fun x => ?_⟩
  simp only [List.mem_flatMap, List.mem_map, eq_comm]

theorem mem_punches {peers : List Client} {x : Dgram} (h : x ∈ punches me peers) :
    ∃ p ∈ peers, x = ⟨me, p, hi⟩ := by
  simp only [punches, List.mem_flatten, List.mem_replicate] at h
  obtain ⟨l, ⟨-, rfl⟩, hx⟩ := h
  obtain ⟨p, hp, rfl⟩ := List.mem_map.mp hx
  exact ⟨p, hp, rfl⟩

/-- The peers with one more. -/
theorem addPeer_cases {peers peers' : List Client} {c : Client}
    (h : addPeer peers c = some peers') :
    c ∈ peers ∧ peers' = peers ∨ c ∉ peers ∧ peers' = peers ++ [c] := by
  rw [addPeer] at h
  split_ifs at h with hmem hlt
  · exact .inl ⟨hmem, (Option.some.inj h).symm⟩
  · exact .inr ⟨hmem, (Option.some.inj h).symm⟩

theorem mem_addPeer {peers peers' : List Client} {c p : Client}
    (h : addPeer peers c = some peers') : p ∈ peers' ↔ p ∈ peers ∨ p = c := by
  rcases addPeer_cases h with ⟨hmem, rfl⟩ | ⟨-, rfl⟩
  · constructor
    · exact .inl
    · rintro (hp | rfl)
      · exact hp
      · exact hmem
  · rw [List.mem_append, List.mem_singleton]

theorem nodup_addPeer {peers peers' : List Client} {c : Client}
    (h : addPeer peers c = some peers') (hn : peers.Nodup) : peers'.Nodup := by
  rcases addPeer_cases h with ⟨-, rfl⟩ | ⟨hnot, rfl⟩
  · exact hn
  · exact List.nodup_append.mpr ⟨hn, List.nodup_singleton c, by grind⟩

theorem clientRecv_cases (h : clientRecv server me nd d = some (nd', out)) :
    nd'.started = nd.started ∧ nd'.got = nd.got ++ [d] ∧ nd'.buf = nd.buf.recvfrom d.payload ∧
    (d.src = server ∧ addPeer nd.peers (nd.buf.recvfrom d.payload) = some nd'.peers ∧
        nd'.reports = nd.reports ∧ out = punches me nd'.peers ∨
      d.src ≠ server ∧ nd'.peers = nd.peers ∧ out = [] ∧ nd'.reports = nd.reports ++
        (nd.peers.findIdx? fun p => p = nd.buf.recvfrom d.payload).toList) := by
  simp only [clientRecv] at h
  split_ifs at h with hsrc
  · obtain ⟨peers, hpeers, hnd⟩ := Option.bind_eq_some_iff.mp h
    obtain ⟨rfl, rfl⟩ := Prod.mk.inj (Option.some.inj hnd)
    exact ⟨rfl, rfl, rfl, .inl ⟨hsrc, hpeers, rfl, rfl⟩⟩
  · obtain ⟨rfl, rfl⟩ := Prod.mk.inj (Option.some.inj h)
    exact ⟨rfl, rfl, rfl, .inr ⟨hsrc, rfl, rfl, rfl⟩⟩

end Programs

/-! ## The invariant -/

/-- What is said about a datagram: the server tells about its clients, and clients send to it and to
each other. -/
def Sound (server : Client) (endpoint : ι → Client) (s : Net ι) (d : Dgram) : Prop :=
  d.src = server ∧ d.dst ∈ s.clients ∧ (∃ c ∈ s.clients, d.payload = c.bytes) ∨
    (∃ i, (s.node i).started = true ∧ d.src = endpoint i) ∧ d.payload = hi

/-- **The server's list is of clients that started, the datagrams tell what is in it, and the peers
are what was told.** -/
structure PunchInv (server : Client) (endpoint : ι → Client) (s : Net ι) : Prop where
  bound : s.clients.length ≤ 10
  sound : ∀ d ∈ s.sent, Sound server endpoint s d
  told : ∀ c ∈ s.clients, ∀ p ∈ s.clients, (⟨server, c, p.bytes⟩ : Dgram) ∈ s.sent
  known : ∀ c ∈ s.clients, ∃ i, (s.node i).started = true ∧ c = endpoint i
  nodup : ∀ i, (s.node i).peers.Nodup
  peers : ∀ i p, p ∈ (s.node i).peers ↔ ∃ d ∈ (s.node i).got, d.src = server ∧ d.payload = p.bytes
  got : ∀ i, ∀ d ∈ (s.node i).got, d ∈ s.sent

theorem punchInv_initial (server : Client) (endpoint : ι → Client) (buf : ι → Client) :
    PunchInv server endpoint (initial buf) where
  bound := by simp [initial]
  sound := by simp [initial]
  told := by simp [initial]
  known := by simp [initial]
  nodup := by simp [initial]
  peers := by simp [initial]
  got := by simp [initial]

section Step

variable {server : Client} {endpoint : ι → Client} {s s' : Net ι}

/-- What is said about a datagram stays true. -/
theorem Sound.mono {d : Dgram} (h : Sound server endpoint s d)
    (hclients : ∀ c ∈ s.clients, c ∈ s'.clients)
    (hstarted : ∀ i, (s.node i).started = true → (s'.node i).started = true) :
    Sound server endpoint s' d := by
  rcases h with ⟨hsrc, hdst, c, hc, hpayload⟩ | ⟨⟨i, hi, hsrc⟩, hpayload⟩
  · exact .inl ⟨hsrc, hclients _ hdst, c, hclients c hc, hpayload⟩
  · exact .inr ⟨⟨i, hstarted i hi, hsrc⟩, hpayload⟩

/-- What comes from the server is the endpoint of a client. -/
theorem PunchInv.told_client (h : PunchInv server endpoint s) (he : ∀ i, endpoint i ≠ server)
    {d : Dgram} (hd : d ∈ s.sent) (hsrc : d.src = server) :
    ∃ c ∈ s.clients, d.payload = c.bytes := by
  rcases h.sound d hd with ⟨-, -, hc⟩ | ⟨⟨i, -, hi⟩, -⟩
  · exact hc
  · exact absurd (hi.symm.trans hsrc) (he i)

/-- The peers of a client are among the clients of the server. -/
theorem PunchInv.peers_subset (h : PunchInv server endpoint s) (he : ∀ i, endpoint i ≠ server)
    {i : ι} {p : Client} (hp : p ∈ (s.node i).peers) : p ∈ s.clients := by
  obtain ⟨d, hd, hsrc, hpayload⟩ := (h.peers i p).mp hp
  obtain ⟨c, hc, hpayload'⟩ := h.told_client he (h.got i d hd) hsrc
  rw [hpayload] at hpayload'
  rwa [Client.bytes_injective hpayload']

/-- What comes to the server is what a client sends when it starts. -/
theorem PunchInv.from_client (h : PunchInv server endpoint s) (he : ∀ i, endpoint i ≠ server)
    {d : Dgram} (hd : d ∈ s.sent) (hdst : d.dst = server) :
    (∃ i, (s.node i).started = true ∧ d.src = endpoint i) ∧ d.payload = hi := by
  rcases h.sound d hd with ⟨-, hmem, -⟩ | hclient
  · obtain ⟨i, -, hi⟩ := h.known _ hmem
    exact absurd (hi.symm.trans hdst) (he i)
  · exact hclient

/-- A client starts. -/
theorem PunchInv.start [DecidableEq ι] (h : PunchInv server endpoint s) {i : ι}
    (hs : step server endpoint s (.start i) = some s') : PunchInv server endpoint s' := by
  obtain rfl := Option.some.inj hs
  have hstarted : ∀ j, (s.node j).started = true →
      (Function.update s.node i { s.node i with started := true } j).started = true := by
    intro j hj
    by_cases hji : j = i
    · simp [hji]
    · simpa [hji] using hj
  have hsame : ∀ j, (Function.update s.node i { s.node i with started := true } j).peers =
        (s.node j).peers ∧
      (Function.update s.node i { s.node i with started := true } j).got = (s.node j).got := by
    intro j
    by_cases hji : j = i
    · subst hji
      simp
    · simp [hji]
  constructor
  · exact h.bound
  · intro d hd
    rcases List.mem_append.mp hd with hd | hd
    · exact (h.sound d hd).mono (fun _ hc => hc) hstarted
    · obtain rfl := List.mem_singleton.mp hd
      exact .inr ⟨⟨i, by simp, rfl⟩, rfl⟩
  · intro c hc p hp
    exact List.mem_append_left _ (h.told c hc p hp)
  · intro c hc
    obtain ⟨j, hj, hcj⟩ := h.known c hc
    exact ⟨j, hstarted j hj, hcj⟩
  · intro j
    rw [(hsame j).1]
    exact h.nodup j
  · intro j p
    rw [(hsame j).1, (hsame j).2]
    exact h.peers j p
  · intro j d hd
    rw [(hsame j).2] at hd
    exact List.mem_append_left _ (h.got j d hd)

/-- The server receives a datagram. -/
theorem PunchInv.serve [DecidableEq ι] (h : PunchInv server endpoint s)
    (he : ∀ i, endpoint i ≠ server) {d : Dgram} (hd : d ∈ s.sent) (hdst : d.dst = server)
    (hs : step server endpoint s (.serve d) = some s') : PunchInv server endpoint s' := by
  obtain ⟨⟨clients, out⟩, hrecv, hs⟩ := Option.bind_eq_some_iff.mp hs
  obtain rfl := Option.some.inj hs
  obtain ⟨hlt, hclients, hout⟩ := serverRecv_cases hrecv
  have hsrc := (h.from_client he hd hdst).1
  have hsub : ∀ c ∈ s.clients, c ∈ clients := fun c hc => by simp [hclients, hc]
  constructor
  · simp only [hclients, List.length_append, List.length_singleton]
    omega
  · intro x hx
    rcases List.mem_append.mp hx with hx | hx
    · exact (h.sound x hx).mono hsub fun _ hj => hj
    · obtain ⟨i, hi, j, hj, rfl⟩ := (hout x).mp hx
      exact .inl ⟨rfl, hi, j, hj, rfl⟩
  · intro c hc p hp
    exact List.mem_append_right _ ((hout _).mpr ⟨c, hc, p, hp, rfl⟩)
  · intro c hc
    rcases List.mem_append.mp (hclients ▸ hc) with hc | hc
    · exact h.known c hc
    · obtain rfl := List.mem_singleton.mp hc
      exact hsrc
  · exact h.nodup
  · exact h.peers
  · intro j x hx
    exact List.mem_append_left _ (h.got j x hx)

/-- What a client receives, its peers are those that it was told of, each once. -/
theorem PunchInv.peers_receive (h : PunchInv server endpoint s) (he : ∀ i, endpoint i ≠ server)
    {i : ι} {d : Dgram} (hd : d ∈ s.sent) {nd : Node} {out : List Dgram}
    (hrecv : clientRecv server (endpoint i) (s.node i) d = some (nd, out)) :
    nd.peers.Nodup ∧
      ∀ p, p ∈ nd.peers ↔ ∃ x ∈ nd.got, x.src = server ∧ x.payload = p.bytes := by
  obtain ⟨-, hgot, -, hcases⟩ := clientRecv_cases hrecv
  rw [hgot]
  rcases hcases with ⟨hsrc, hadd, -⟩ | ⟨hsrc, hsame, -⟩
  · obtain ⟨c, -, hpayload⟩ := h.told_client he hd hsrc
    rw [hpayload, Client.recvfrom_bytes] at hadd
    constructor
    · exact nodup_addPeer hadd (h.nodup i)
    · intro p
      rw [mem_addPeer hadd, h.peers i p]
      simp only [List.mem_append, List.mem_singleton]
      constructor
      · rintro (⟨x, hx, hxp⟩ | rfl)
        · exact ⟨x, .inl hx, hxp⟩
        · exact ⟨d, .inr rfl, hsrc, hpayload⟩
      · rintro ⟨x, hx | rfl, hxsrc, hxp⟩
        · exact .inl ⟨x, hx, hxsrc, hxp⟩
        · exact .inr (Client.bytes_injective (hxp.symm.trans hpayload))
  · rw [hsame]
    refine ⟨h.nodup i, fun p => ?_⟩
    rw [h.peers i p]
    simp only [List.mem_append, List.mem_singleton]
    constructor
    · rintro ⟨x, hx, hxp⟩
      exact ⟨x, .inl hx, hxp⟩
    · rintro ⟨x, hx | rfl, hxsrc, hxp⟩
      · exact ⟨x, hx, hxsrc, hxp⟩
      · exact absurd hxsrc hsrc

/-- A client receives a datagram. -/
theorem PunchInv.receive [DecidableEq ι] (h : PunchInv server endpoint s)
    (he : ∀ i, endpoint i ≠ server) {i : ι} {d : Dgram} (hstarted : (s.node i).started = true)
    (hd : d ∈ s.sent) (hs : step server endpoint s (.receive i d) = some s') :
    PunchInv server endpoint s' := by
  obtain ⟨⟨nd, out⟩, hrecv, hs⟩ := Option.bind_eq_some_iff.mp hs
  obtain rfl := Option.some.inj hs
  obtain ⟨hnd, hgot, -, hcases⟩ := clientRecv_cases hrecv
  have hup : ∀ j, (s.node j).started = true → (Function.update s.node i nd j).started = true := by
    intro j hj
    by_cases hji : j = i
    · subst hji
      simpa [hnd] using hj
    · simpa [hji] using hj
  have hpeers := h.peers_receive he hd hrecv
  have hout : ∀ x ∈ out, x.src = endpoint i ∧ x.payload = hi := by
    intro x hx
    rcases hcases with ⟨-, -, -, rfl⟩ | ⟨-, -, rfl, -⟩
    · obtain ⟨p, -, rfl⟩ := mem_punches hx
      exact ⟨rfl, rfl⟩
    · cases hx
  constructor
  · exact h.bound
  · intro x hx
    rcases List.mem_append.mp hx with hx | hx
    · exact (h.sound x hx).mono (fun _ hc => hc) hup
    · exact .inr ⟨⟨i, hup i hstarted, (hout x hx).1⟩, (hout x hx).2⟩
  · intro c hc p hp
    exact List.mem_append_left _ (h.told c hc p hp)
  · intro c hc
    obtain ⟨j, hj, hcj⟩ := h.known c hc
    exact ⟨j, hup j hj, hcj⟩
  · intro j
    by_cases hji : j = i
    · subst hji
      simpa using hpeers.1
    · simpa [hji] using h.nodup j
  · intro j p
    by_cases hji : j = i
    · subst hji
      simpa using hpeers.2 p
    · simpa [hji] using h.peers j p
  · intro j x hx
    by_cases hji : j = i
    · subst hji
      simp only [Function.update_self, hgot, List.mem_append, List.mem_singleton] at hx
      rcases hx with hx | rfl
      · exact List.mem_append_left _ (h.got j x hx)
      · exact List.mem_append_left _ hd
    · simp only [Function.update_of_ne hji] at hx
      exact List.mem_append_left _ (h.got j x hx)

/-- **Every step keeps the invariant.** -/
theorem PunchInv.step [DecidableEq ι] (h : PunchInv server endpoint s)
    (he : ∀ i, endpoint i ≠ server) {a : Move ι} (hok : Allowed server endpoint s a)
    (hs : step server endpoint s a = some s') : PunchInv server endpoint s' := by
  cases a with
  | start i => exact h.start hs
  | serve d => exact h.serve he hok.1 hok.2 hs
  | receive i d => exact h.receive he hok.1 hok.2.1 hs

/-- **Every run keeps the invariant.** -/
theorem PunchInv.of_runs [DecidableEq ι] (he : ∀ i, endpoint i ≠ server) {buf : ι → Client}
    {as : List (Move ι)}
    (h : Runs (CCode.P2pPunch.step server endpoint) (Allowed server endpoint) (initial buf) as s) :
    PunchInv server endpoint s :=
  h.invariant (punchInv_initial server endpoint buf) fun _ _ _ hinv hok hs => hinv.step he hok hs

/-- A client finds place for every peer that it is told of. -/
theorem PunchInv.receives [DecidableEq ι] (h : PunchInv server endpoint s)
    (he : ∀ i, endpoint i ≠ server) {i : ι} {d : Dgram} (hd : d ∈ s.sent) :
    ∃ s', CCode.P2pPunch.step server endpoint s (.receive i d) = some s' := by
  have hrecv : ∃ r, clientRecv server (endpoint i) (s.node i) d = some r := by
    simp only [clientRecv]
    split_ifs with hsrc
    · obtain ⟨c, hc, hpayload⟩ := h.told_client he hd hsrc
      rw [hpayload, Client.recvfrom_bytes, addPeer]
      split_ifs with hmem hlt
      · exact ⟨_, rfl⟩
      · exact ⟨_, rfl⟩
      · -- eleven different clients would be known
        have hnodup : (c :: (s.node i).peers).Nodup := List.nodup_cons.mpr ⟨hmem, h.nodup i⟩
        have hsub : c :: (s.node i).peers ⊆ s.clients := by
          intro p hp
          rcases List.mem_cons.mp hp with rfl | hp
          · exact hc
          · exact h.peers_subset he hp
        have hlen := (hnodup.subperm hsub).length_le
        have hbound := h.bound
        simp only [List.length_cons] at hlen
        omega
    · exact ⟨_, rfl⟩
  obtain ⟨⟨nd, out⟩, hrecv⟩ := hrecv
  simp only [CCode.P2pPunch.step, hrecv, Option.bind_eq_bind, Option.bind_some]
  exact ⟨_, rfl⟩

end Step

/-! ## Agreement -/

section Agreement

variable [DecidableEq ι] {server : Client} {endpoint : ι → Client} {buf : ι → Client}
  {as : List (Move ι)} {s : Net ι}

/-- **Agreement.** Whatever is lost, doubled or late: the peers of a client are different clients of
the server, which all have started, and there is place for each that a client is told of. Who is a
client of the server and has received all that the server sent to it has exactly the clients of the
server as its peers, so all that have do agree. -/
theorem punch_agreement (he : ∀ i, endpoint i ≠ server)
    (h : Runs (step server endpoint) (Allowed server endpoint) (initial buf) as s) :
    (∀ i, (s.node i).peers.Nodup ∧ ∀ p ∈ (s.node i).peers, p ∈ s.clients) ∧
    (∀ c ∈ s.clients, ∃ i, (s.node i).started = true ∧ c = endpoint i) ∧
    (∀ i d, Allowed server endpoint s (.receive i d) →
      ∃ s', step server endpoint s (.receive i d) = some s') ∧
    ∀ i, endpoint i ∈ s.clients →
      (∀ d ∈ s.sent, d.src = server → d.dst = endpoint i → d ∈ (s.node i).got) →
      ∀ p, p ∈ (s.node i).peers ↔ p ∈ s.clients := by
  have hinv := PunchInv.of_runs he h
  refine ⟨fun i => ⟨hinv.nodup i, fun p hp => hinv.peers_subset he hp⟩, hinv.known, ?_, ?_⟩
  · intro i d hok
    exact hinv.receives he hok.2.1
  · intro i hi hall p
    constructor
    · exact hinv.peers_subset he
    · intro hp
      exact (hinv.peers i p).mpr
        ⟨_, hall _ (hinv.told _ hi p hp) rfl rfl, rfl, rfl⟩

/-- Some endpoints, the server's and those of two clients. -/
def place (n : UInt8) : Client := ⟨#v[10, 0, 0, n], #v[23, 113]⟩

def placeOf (i : Bool) : Client := place (if i then 2 else 1)

/-- The second client starts when the server knows the first, and hears of itself twice. -/
def twoStarts : List (Move Bool) :=
  [.start false, .serve ⟨placeOf false, place 0, hi⟩, .start true,
   .serve ⟨placeOf true, place 0, hi⟩, .receive true ⟨place 0, placeOf true, (placeOf true).bytes⟩,
   .receive true ⟨place 0, placeOf true, (placeOf true).bytes⟩,
   .receive true ⟨place 0, placeOf true, (placeOf false).bytes⟩]

theorem twoStarts_told :
    ∃ s, twoStarts.foldlM (fun u a =>
        if Allowed (place 0) placeOf u a then step (place 0) placeOf u a else none)
        (initial fun _ => place 0) = some s ∧ placeOf true ∈ s.clients ∧
      ∀ d ∈ s.sent, d.src = place 0 → d.dst = placeOf true → d ∈ (s.node true).got :=
  ⟨_, rfl, by decide, by decide⟩

theorem punch_agreement_twoStarts :
    ∃ s, Runs (step (place 0) placeOf) (Allowed (place 0) placeOf) (initial fun _ => place 0)
        twoStarts s ∧
      ∀ p, p ∈ (s.node true).peers ↔ p ∈ s.clients := by
  obtain ⟨s, hs, hmem, htold⟩ := twoStarts_told
  have hrun := Runs.of_guarded hs
  exact ⟨s, hrun, (punch_agreement (by decide) hrun).2.2.2 true hmem htold⟩

end Agreement

/-! ## Ten clients -/

/-- Nothing comes to the server twice. -/
def Once (server : Client) (endpoint : ι → Client) (s : Net ι) (a : Move ι) : Prop :=
  Allowed server endpoint s a ∧ a ∉ s.served.map Move.serve

instance [DecidableEq ι] (server : Client) (endpoint : ι → Client) (s : Net ι) (a : Move ι) :
    Decidable (Once server endpoint s a) :=
  inferInstanceAs (Decidable (Allowed server endpoint s a ∧ a ∉ s.served.map Move.serve))

theorem Once.notMem {server : Client} {endpoint : ι → Client} {s : Net ι} {d : Dgram}
    (h : Once server endpoint s (.serve d)) : d ∉ s.served :=
  fun hd => h.2 (List.mem_map_of_mem hd)

/-- What the server received is what clients send when they start, and its list says where from. -/
structure ServedInv (server : Client) (endpoint : ι → Client) (s : Net ι) : Prop where
  punch : PunchInv server endpoint s
  nodup : s.served.Nodup
  clients : s.clients = s.served.map Dgram.src
  served : ∀ d ∈ s.served, d.dst = server ∧ d.payload = hi ∧ ∃ i, d.src = endpoint i

section Bounds

variable {server : Client} {endpoint : ι → Client} {s s' : Net ι}

/-- Different datagrams of clients that start come from different clients. -/
theorem length_le_card [Fintype ι] {l : List Dgram} (hnodup : l.Nodup)
    (hl : ∀ d ∈ l, d.dst = server ∧ d.payload = hi ∧ ∃ i, d.src = endpoint i) :
    l.length ≤ Fintype.card ι := by
  have hsub : l ⊆ (Finset.univ : Finset ι).toList.map fun i => ⟨endpoint i, server, hi⟩ := by
    intro d hd
    obtain ⟨hdst, hpayload, i, hsrc⟩ := hl d hd
    rw [List.mem_map]
    refine ⟨i, by simp, ?_⟩
    rw [← hsrc, ← hdst, ← hpayload]
  have hlen := (hnodup.subperm hsub).length_le
  rwa [List.length_map, Finset.length_toList, Finset.card_univ] at hlen

theorem ServedInv.step [DecidableEq ι] (h : ServedInv server endpoint s)
    (he : ∀ i, endpoint i ≠ server) {a : Move ι} (hok : Once server endpoint s a)
    (hs : step server endpoint s a = some s') : ServedInv server endpoint s' := by
  have hpunch := h.punch.step he hok.1 hs
  cases a with
  | start i =>
      obtain rfl := Option.some.inj hs
      exact ⟨hpunch, h.nodup, h.clients, h.served⟩
  | serve d =>
      obtain ⟨⟨clients, out⟩, hrecv, hs⟩ := Option.bind_eq_some_iff.mp hs
      obtain rfl := Option.some.inj hs
      obtain ⟨-, rfl, -⟩ := serverRecv_cases hrecv
      have hnew := hok.notMem
      have hfrom := h.punch.from_client he hok.1.1 hok.1.2
      refine ⟨hpunch, ?_, ?_, ?_⟩
      · exact List.nodup_append.mpr ⟨h.nodup, List.nodup_singleton d, by grind⟩
      · simp [h.clients]
      · intro x hx
        rcases List.mem_append.mp hx with hx | hx
        · exact h.served x hx
        · obtain rfl := List.mem_singleton.mp hx
          obtain ⟨⟨i, -, hi⟩, hpayload⟩ := hfrom
          exact ⟨hok.1.2, hpayload, i, hi⟩
  | receive i d =>
      obtain ⟨⟨nd, out⟩, -, hs⟩ := Option.bind_eq_some_iff.mp hs
      obtain rfl := Option.some.inj hs
      exact ⟨hpunch, h.nodup, h.clients, h.served⟩

theorem ServedInv.of_runs [DecidableEq ι] (he : ∀ i, endpoint i ≠ server) {buf : ι → Client}
    {as : List (Move ι)}
    (h : Runs (CCode.P2pPunch.step server endpoint) (Once server endpoint) (initial buf) as s) :
    ServedInv server endpoint s := by
  refine h.invariant ?_ fun _ _ _ hinv hok hs => hinv.step he hok hs
  exact ⟨punchInv_initial server endpoint buf, by simp [initial], by simp [initial],
    by simp [initial]⟩

/-- **Ten clients.** With at most ten clients no array is left, as long as nothing comes to the
server twice. -/
theorem punch_bounds [DecidableEq ι] [Fintype ι] (hcard : Fintype.card ι ≤ 10)
    (he : ∀ i, endpoint i ≠ server) {buf : ι → Client} {as : List (Move ι)}
    (h : Runs (step server endpoint) (Once server endpoint) (initial buf) as s) {a : Move ι}
    (hok : Once server endpoint s a) : ∃ s', step server endpoint s a = some s' := by
  have hinv := ServedInv.of_runs he h
  cases a with
  | start i => exact ⟨_, rfl⟩
  | receive i d => exact hinv.punch.receives he hok.1.2.1
  | serve d =>
      obtain ⟨⟨i, -, hsrc⟩, hpayload⟩ := hinv.punch.from_client he hok.1.1 hok.1.2
      have hnodup : (d :: s.served).Nodup := List.nodup_cons.mpr ⟨hok.notMem, hinv.nodup⟩
      have hlen : (d :: s.served).length ≤ Fintype.card ι := by
        have hall : ∀ x ∈ d :: s.served,
            x.dst = server ∧ x.payload = hi ∧ ∃ i, x.src = endpoint i := by
          intro x hx
          rcases List.mem_cons.mp hx with rfl | hx
          · exact ⟨hok.1.2, hpayload, i, hsrc⟩
          · exact hinv.served x hx
        exact length_le_card hnodup hall
      have hlt : s.clients.length < 10 := by
        rw [hinv.clients, List.length_map]
        rw [List.length_cons] at hlen
        omega
      simp only [CCode.P2pPunch.step, serverRecv, if_pos hlt, Option.bind_eq_bind,
        Option.bind_some]
      exact ⟨_, rfl⟩

theorem punch_bounds_twoStarts :
    ∃ s, Runs (step (place 0) placeOf) (Once (place 0) placeOf) (initial fun _ => place 0)
        twoStarts s ∧
      ∃ s', step (place 0) placeOf s
        (.receive false ⟨place 0, placeOf false, (placeOf true).bytes⟩) = some s' := by
  have hexec : ∃ s, twoStarts.foldlM (fun u a =>
        if Once (place 0) placeOf u a then step (place 0) placeOf u a else none)
        (initial fun _ => place 0) = some s ∧
      Once (place 0) placeOf s
        (.receive false ⟨place 0, placeOf false, (placeOf true).bytes⟩) :=
    ⟨_, rfl, by decide⟩
  obtain ⟨s, hs, hok⟩ := hexec
  have hrun := Runs.of_guarded hs
  exact ⟨s, hrun, punch_bounds (by decide) (by decide) hrun hok⟩

end Bounds

end CCode.P2pPunch
