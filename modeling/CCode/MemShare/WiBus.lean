import CCode.MemShare.Registry

/-!
# Broadcasts on the bus

`wi_bus.c` decides with two callbacks what a broadcast is and whom it is for. A
destination whose last six bytes are `0xFF` is a broadcast; its first two bytes select the
clients whose ids start with them, and `0xFF 0xFF` is to select them all.

The wildcard is tested through a plain `char`, which is signed on the targets of this
library: the byte `0xFF` is -1 there and never equal to `0xff`. So a broadcast to everyone
reaches only the clients whose own id starts with `0xFF 0xFF`, and
`broadcast_delivery_iff` says when that is the same.

## Main definitions

* `isBroadcastCb`, `isBcMatchCb` — the callbacks.
* `wiBusInit`, `broadcast` — the server of the bus, and a message through it.
* `Addressed` — whom a broadcast is for.
-/

namespace CCode.MemShare

open CCode.Lib

/-- A plain `char` with the bits of a byte, promoted to `int`. -/
def schar (b : UInt8) : Int := b.toInt8.toInt

/-- `is_broadcast_cb`. -/
def isBroadcastCb (id : List UInt8) (_idLen : UInt32) : Bool :=
  memcmp (List.replicate 6 0xFF) ((id.drop 2).take 6) = 0

/-- `is_bc_match_cb`. -/
def isBcMatchCb (idBc id : List UInt8) (_idLen : UInt32) : Bool :=
  (schar (id.getD 0 0) = schar (idBc.getD 0 0) ∧ schar (id.getD 1 0) = schar (idBc.getD 1 0)) ∨
    (schar (idBc.getD 0 0) = 0xff ∧ schar (idBc.getD 1 0) = 0xff)

/-- The server that `wi_bus_server_run` creates. -/
def wiBusInit (buf : Mem) : World := World.init (some isBroadcastCb) (some isBcMatchCb) buf

/-- A message of the client `s` to the destination `d`, sent over the server's channel: the
clients that the server passes it on to. -/
def broadcast (w : World) (s d : ClientId) (payload : List UInt8)
    (status : PcSClient → UInt32) : List PcSClient :=
  (pcServerRecvCb w.server (pcCSendOutCb s d payload w.buf) none status).2.2.map Prod.fst

/-- The client's id starts with the same two bytes. -/
def SameGroup (d : ClientId) (c : PcSClient) : Prop := c.key.take 2 = d.bytes.take 2

/-- The destination selects every client. -/
def Everyone (d : ClientId) : Prop := d.bytes.take 2 = [0xFF, 0xFF]

/-- Whom a broadcast to `d` is for. -/
def Addressed (d : ClientId) (c : PcSClient) : Prop := SameGroup d c ∨ Everyone d

instance (d : ClientId) (c : PcSClient) : Decidable (Addressed d c) :=
  inferInstanceAs (Decidable (c.key.take 2 = d.bytes.take 2 ∨ d.bytes.take 2 = [0xFF, 0xFF]))

/-- Every client that the broadcast is for gets it once, the sender and all others do not
get it. -/
def DeliveredAsAddressed (list : List PcSClient) (sender : PcSClient) (d : ClientId)
    (delivered : List PcSClient) : Prop :=
  ∀ c, delivered.count c = if c ∈ list ∧ c ≠ sender ∧ Addressed d c then 1 else 0

/-! ## The callbacks -/

theorem schar_inj {a b : UInt8} : schar a = schar b ↔ a = b := by
  constructor
  · intro h
    have hbits := congrArg Int8.toUInt8 (Int8.toInt_inj.mp h)
    simpa using hbits
  · rintro rfl
    rfl

/-- A signed `char` is never 255. -/
theorem schar_ne_ff (b : UInt8) : schar b ≠ 0xff := by
  have h := Int8.toInt_lt b.toInt8
  simp only [schar]
  omega

/-- Two ids agree on their first two bytes. -/
theorem take_two_eq_iff {as bs : List UInt8} (ha : 2 ≤ as.length) (hb : 2 ≤ bs.length) :
    as.take 2 = bs.take 2 ↔ as.getD 0 0 = bs.getD 0 0 ∧ as.getD 1 0 = bs.getD 1 0 := by
  rcases as with _ | ⟨a₀, _ | ⟨a₁, as⟩⟩ <;> simp at ha
  rcases bs with _ | ⟨b₀, _ | ⟨b₁, bs⟩⟩ <;> simp at hb
  simp

/-! ## The message -/

/-- An id of eight bytes fills its field. -/
theorem bytes_of_len {id : ClientId} (h : id.len = 8) : id.bytes = id.data.toList := by
  rw [ClientId.bytes, h]
  exact List.take_of_length_le (by rw [Vector.length_toList]; decide)

theorem padded_of_len {id : ClientId} (h : id.len = 8) : id.padded = id.data.toList := by
  simp [ClientId.padded, bytes_of_len h, h]

/-- The callback compares the first two bytes, and nothing else. -/
theorem isBcMatchCb_iff {d : ClientId} (hd : d.len = 8) {c : PcSClient} (hc : c.id.len = 8)
    (idLen : UInt32) :
    isBcMatchCb d.data.toList c.id.data.toList idLen = true ↔ SameGroup d c := by
  rw [SameGroup, PcSClient.key, bytes_of_len hc, bytes_of_len hd,
    take_two_eq_iff (by rw [Vector.length_toList]; decide) (by rw [Vector.length_toList]; decide)]
  simp [isBcMatchCb, schar_inj, schar_ne_ff]

/-- The server finds both ids in the message. -/
theorem commData_pcCSendOutCb {s d : ClientId} (hs : s.len = 8) (hd : d.len = 8)
    (payload : List UInt8) (m : Mem) :
    (pcCSendOutCb s d payload m).u32 0 = cmdDataSendReq ∧
      (commData (pcCSendOutCb s d payload m)).idLen = 8 ∧
      (commData (pcCSendOutCb s d payload m)).sId = s.data.toList ∧
      (commData (pcCSendOutCb s d payload m)).dId = d.data.toList := by
  have hdrop : s.data.toList.drop d.len.toNat = [] := by
    rw [hd]
    exact List.drop_of_length_le (by rw [Vector.length_toList]; decide)
  simp only [pcCSendOutCb, commData, padded_of_len hs, hdrop, bytes_of_len hd, hs]
  refine ⟨?_, ?_, ?_, ?_⟩
  · rw [Mem.u32_write_before _ (by omega), Mem.u32_write_before _ (by omega)]
    exact m.u32_write_of_eq [] _ (by simp; rfl) rfl
  · rw [Mem.u32_write_before _ (by omega), Mem.u32_write_before _ (by omega)]
    exact m.u32_write_of_eq (le32 cmdDataSendReq) _ (by simp; rfl) rfl
  · rw [Mem.read_write_before _ (by decide), Mem.read_write_before _ (by decide)]
    exact m.read_write_of_eq (le32 cmdDataSendReq ++ le32 8) _ (by simp; rfl) rfl (by simp)
  · rw [Mem.read_write_before _ (by decide), Mem.read_write_before _ (by decide)]
    exact m.read_write_of_eq (le32 cmdDataSendReq ++ le32 8 ++ s.data.toList) []
      (by simp) (by rw [List.length_append, Vector.length_toList]; rfl) (by simp)

/-! ## The registry of the bus -/

/-- What holds of the server of the bus between requests. -/
structure WiBusInv (w : World) : Prop where
  isBroadcaseCb : w.server.isBroadcaseCb = some isBroadcastCb
  isBcMatchCb : w.server.isBcMatchCb = some MemShare.isBcMatchCb
  registry : RegistryInv w.server.clientList

theorem wiBusInv_of_runs {buf : Mem} {rs : List Request} {w : World}
    (h : Runs serveStep AddrFresh (wiBusInit buf) rs w) : WiBusInv w := by
  refine h.invariant (P := WiBusInv) ⟨rfl, rfl, registryInv_nil⟩ ?_
  intro w r w' hw hfresh hs
  obtain rfl : (serve w r).1 = w' := Option.some.inj hs
  obtain ⟨hbc, hmatch⟩ := serve_callbacks hw.registry r
  exact ⟨hbc.trans hw.isBroadcaseCb, hmatch.trans hw.isBcMatchCb, hw.registry.serve hfresh⟩

/-- A registered client is found by its eight bytes. -/
theorem findClient_of_mem {list : List PcSClient} (h : RegistryInv list) {c : PcSClient}
    (hc : c ∈ list) {s : ClientId} (hs : s.len = 8) (hkey : c.key = s.bytes) :
    findClient list s.data.toList 8 = some c := by
  have hfind := findClient_eq h ⟨s, by simp [hs], by rw [hs]; decide⟩
  rw [padded_of_len hs] at hfind
  rw [← hs]
  exact hfind.trans (hkey ▸ lookupKey_of_mem h.keys hc)

/-- The clients that a broadcast goes to, in the order of the list. -/
theorem broadcast_eq {w : World} (hw : WiBusInv w) {sender : PcSClient}
    (hsender : sender ∈ w.server.clientList) {s d : ClientId} (hs : s.len = 8)
    (hkey : sender.key = s.bytes) (hd : d.len = 8)
    (hbc : isBroadcastCb d.data.toList 8 = true) (payload : List UInt8)
    (status : PcSClient → UInt32) :
    broadcast w s d payload status =
      w.server.clientList.filter fun c =>
        sender.addr ≠ c.addr ∧ MemShare.isBcMatchCb d.data.toList c.id.data.toList 8 = true := by
  obtain ⟨hcmd, hlen, hsid, hdid⟩ := commData_pcCSendOutCb hs hd payload w.buf
  have hne₁ : ¬ cmdDataSendReq = cmdGetServerReq := by decide
  have hne₂ : ¬ cmdDataSendReq = cmdCloseServerReq := by decide
  have hne₃ : ¬ cmdDataSendReq = cmdGetClientReq := by decide
  simp only [broadcast, pcServerRecvCb, hcmd, hne₁, hne₂, hne₃, if_false, if_true,
    hw.isBroadcaseCb, hdid, hlen, Option.map_some, hbc, broadcastSend, hsid,
    findClient_of_mem hw.registry hsender hs hkey, List.map_map]
  rw [show (Prod.fst ∘ fun c : PcSClient => (c, commData (pcCSendOutCb s d payload w.buf))) = id
    from rfl, List.map_id]
  apply List.filter_congr
  intro c _
  simp [broadcastSendCb, hw.isBcMatchCb, hdid, hlen]

/-- **A broadcast goes to each other client of the group that the destination names, and
to nobody else.** -/
theorem mem_broadcast_iff {w : World} (hw : WiBusInv w)
    (hlen : ∀ c ∈ w.server.clientList, c.id.len = 8) {sender : PcSClient}
    (hsender : sender ∈ w.server.clientList) {s d : ClientId} (hs : s.len = 8)
    (hkey : sender.key = s.bytes) (hd : d.len = 8)
    (hbc : isBroadcastCb d.data.toList 8 = true) (payload : List UInt8)
    (status : PcSClient → UInt32) (c : PcSClient) :
    c ∈ broadcast w s d payload status ↔
      c ∈ w.server.clientList ∧ c ≠ sender ∧ SameGroup d c := by
  rw [broadcast_eq hw hsender hs hkey hd hbc, List.mem_filter]
  refine and_congr_right fun hc => ?_
  have haddr : sender.addr ≠ c.addr ↔ c ≠ sender := by
    refine not_congr ⟨fun h => ?_, fun h => h ▸ rfl⟩
    exact List.inj_on_of_nodup_map hw.registry.addrs hc hsender h.symm
  simp only [decide_eq_true_eq, haddr, isBcMatchCb_iff hd (hlen c hc)]

/-- **Broadcast delivery.** For every registry of clients with ids of eight bytes that
requests lead to, every registered sender and every broadcast destination, the message is
delivered as it is addressed exactly when the destination is not `0xFF 0xFF`, or all other
clients have ids that start so themselves. -/
theorem broadcast_delivery_iff {buf : Mem} {rs : List Request} {w : World}
    (h : Runs serveStep AddrFresh (wiBusInit buf) rs w)
    (hlen : ∀ c ∈ w.server.clientList, c.id.len = 8) {sender : PcSClient}
    (hsender : sender ∈ w.server.clientList) {s d : ClientId} (hs : s.len = 8)
    (hkey : sender.key = s.bytes) (hd : d.len = 8)
    (hbc : isBroadcastCb d.data.toList 8 = true) (payload : List UInt8)
    (status : PcSClient → UInt32) :
    DeliveredAsAddressed w.server.clientList sender d (broadcast w s d payload status) ↔
      ¬ Everyone d ∨ ∀ c ∈ w.server.clientList, c ≠ sender → SameGroup d c := by
  have hw := wiBusInv_of_runs h
  have hmem := mem_broadcast_iff hw hlen hsender hs hkey hd hbc payload status
  have hnodup : (broadcast w s d payload status).Nodup := by
    rw [broadcast_eq hw hsender hs hkey hd hbc]
    exact hw.registry.addrs.of_map.filter _
  -- everything is delivered at most once, so the counts agree where the sets do
  have hiff : DeliveredAsAddressed w.server.clientList sender d
      (broadcast w s d payload status) ↔ ∀ c, (c ∈ w.server.clientList ∧ c ≠ sender ∧
        SameGroup d c) ↔ (c ∈ w.server.clientList ∧ c ≠ sender ∧ Addressed d c) := by
    refine forall_congr' fun c => ?_
    rw [hnodup.count, ← hmem c]
    by_cases h₁ : c ∈ broadcast w s d payload status <;>
      by_cases h₂ : c ∈ w.server.clientList ∧ c ≠ sender ∧ Addressed d c <;> simp [h₁, h₂]
  rw [hiff]
  constructor
  · intro hall
    by_cases hev : Everyone d
    · refine .inr fun c hc hne => ?_
      exact ((hall c).mpr ⟨hc, hne, .inr hev⟩).2.2
    · exact .inl hev
  · intro hcond c
    refine ⟨fun ⟨hc, hne, hg⟩ => ⟨hc, hne, .inl hg⟩, ?_⟩
    rintro ⟨hc, hne, hg | hev⟩
    · exact ⟨hc, hne, hg⟩
    · exact ⟨hc, hne, (hcond.resolve_left (not_not.mpr hev)) c hc hne⟩

/-- Two clients of the bus, with ids that start with `01 01` and `02 02`. -/
def firstId : PeerId := ⟨⟨#v[1, 1, 0, 0, 0, 0, 0, 1], 8⟩, by decide, by decide⟩

def secondId : PeerId := ⟨⟨#v[2, 2, 0, 0, 0, 0, 0, 2], 8⟩, by decide, by decide⟩

def firstAlloc : Alloc := ⟨1, Vector.replicate 8 0, 5, 6⟩

def secondAlloc : Alloc := ⟨2, Vector.replicate 8 0, 7, 8⟩

/-- The bus after both have registered. -/
def twoClients : World :=
  (serve (serve (wiBusInit fun _ => 0) (.create firstId 1800 7 firstAlloc)).1
    (.create secondId 1800 8 secondAlloc)).1

theorem runs_twoClients :
    Runs serveStep AddrFresh (wiBusInit fun _ => 0)
      [.create firstId 1800 7 firstAlloc, .create secondId 1800 8 secondAlloc] twoClients := by
  have h₁ : Runs serveStep AddrFresh (wiBusInit fun _ => 0) [.create firstId 1800 7 firstAlloc]
      (serve (wiBusInit fun _ => 0) (.create firstId 1800 7 firstAlloc)).1 :=
    .snoc .refl (fun c hc => absurd hc List.not_mem_nil) rfl
  have hfresh : AddrFresh (serve (wiBusInit fun _ => 0) (.create firstId 1800 7 firstAlloc)).1
      (.create secondId 1800 8 secondAlloc) :=
    show ∀ c ∈ (serve (wiBusInit fun _ => 0)
      (.create firstId 1800 7 firstAlloc)).1.server.clientList, c.addr ≠ 2 by decide
  exact .snoc h₁ hfresh rfl

theorem broadcast_delivery_group :
    DeliveredAsAddressed twoClients.server.clientList (newClient firstId 1800 7 firstAlloc)
      ⟨#v[2, 2, 0xFF, 0xFF, 0xFF, 0xFF, 0xFF, 0xFF], 8⟩
      (broadcast twoClients firstId.toClientId
        ⟨#v[2, 2, 0xFF, 0xFF, 0xFF, 0xFF, 0xFF, 0xFF], 8⟩ [1, 0, 0, 0] fun _ => cmdSuccess) :=
  (broadcast_delivery_iff runs_twoClients (by decide) (by decide) rfl (by decide) rfl (by decide)
    _ _).mpr (.inl (by simp [Everyone, ClientId.bytes]))

/-- A broadcast of the first client to everyone does not reach the second. -/
theorem broadcast_to_everyone_lost :
    ¬ DeliveredAsAddressed twoClients.server.clientList (newClient firstId 1800 7 firstAlloc)
      ⟨Vector.replicate 8 0xFF, 8⟩
      (broadcast twoClients firstId.toClientId ⟨Vector.replicate 8 0xFF, 8⟩ [1, 0, 0, 0]
        fun _ => cmdSuccess) := by
  intro h
  exact absurd (h (newClient secondId 1800 8 secondAlloc)) (by decide)

end CCode.MemShare
