import CCode.Gatt.Mtu

/-!
# Reading the report map

The report map is longer than the default MTU, so a client reads it in parts: a Read for
the first one and Read Blobs from behind what it has, until a part is shorter than the MTU
allows. The HID service compares a signed MTU with an unsigned difference; behind the end
of the map the difference wraps, and the service sends what lies in memory there.

`report_map_long_read` says that a blob read is exact up to the end and never behind it,
and that the loop, which never asks behind it, gets the map.

## Main definitions

* `blobReply` — the reply that a blob read is to get.
* `readBlobs`, `readLong` — the client's loop.
-/

namespace CCode.Gatt

open CCode.Lib

variable {τ : Type}

/-! ## The client's side -/

/-- The part of the map that a read is to return: what is left from the offset on, cut to
the MTU. -/
def mapPart (mtu offset : ℕ) : List UInt8 := (hidMap.drop offset).take (mtu - 1)

/-- The reply that a blob read of the report map is to get. -/
def blobReply (addr : BdAddr) (mtu offset : ℕ) : List (BdAddr × Pdu) :=
  [(addr, ⟨btAttOpReadBlobRsp, mapPart mtu offset⟩)]

/-- The bytes of the one response that the client waits for. -/
def replyBytes (addr : BdAddr) (rsp : UInt8) : List (BdAddr × Pdu) → Option (List UInt8)
  | [(peer, p)] => if peer = addr ∧ p.opcode = rsp then some p.params else none
  | _ => none

/-- Read Blob from behind what has been received, until a reply is short. -/
def readBlobs (addr : BdAddr) (handle : UInt16) (mtu : ℕ) :
    ℕ → Session (Hid × τ) → List UInt8 → Option (List UInt8)
  | 0, _, _ => none
  | fuel + 1, x, received =>
      let (x', sent) := request x addr btAttOpReadBlobReq
        (le16 handle ++ le16 (UInt16.ofNat received.length))
      match replyBytes addr btAttOpReadBlobRsp sent with
      | none => none
      | some part =>
          if part.length < mtu - 1 then some (received ++ part)
          else readBlobs addr handle mtu fuel x' (received ++ part)

/-- The long read of an attribute. -/
def readLong (addr : BdAddr) (handle : UInt16) (mtu fuel : ℕ) (x : Session (Hid × τ)) :
    Option (List UInt8) :=
  let (x', sent) := request x addr btAttOpReadReq (le16 handle)
  match replyBytes addr btAttOpReadRsp sent with
  | none => none
  | some part =>
      if part.length < mtu - 1 then some part else readBlobs addr handle mtu fuel x' part

/-- A server whose HID service has agreed on the MTU, and where the handle is that of the
report map. -/
structure MapServer (g : GattServices (Hid × τ)) (handle : UInt16) (mtu : ℕ) : Prop where
  agreed : g.world.1.device.mtu = mtu
  least : 23 ≤ mtu
  most : mtu ≤ 0xFFFF
  found : ∃ s c, getHandleInfo g.serviceList handle = some (s, c, .character) ∧ IsMap s c

/-! ## The callback -/

/-- Inside the map memory is the map. -/
theorem mapMem_read (h : Hid) {offset n : ℕ} (hin : offset + n ≤ hidMap.length) :
    (HidDevice.mapMem h).read offset n = (hidMap.drop offset).take n := by
  apply List.ext_getElem
  · simp
    omega
  · intro i hi _
    rw [Mem.length_read] at hi
    have hlt : offset + i < hidMap.length := by omega
    rw [Mem.getElem_read, List.getElem_take, List.getElem_drop, HidDevice.mapMem]
    simp [hlt]

section Callback

variable {h : Hid} {mtu offset : ℕ} (hmtu : h.device.mtu = mtu) (hleast : 23 ≤ mtu)
  (hmost : mtu ≤ 0xFFFF)
include hmtu hleast hmost

/-- Up to the end of the map the callback returns its part. -/
theorem readReportMap_part (hin : offset ≤ hidMap.length) (buf : Mem) :
    (HidDevice.readReportMap h offset buf).1.read 0
      (HidDevice.readReportMap h offset buf).2.toNat = mapPart mtu offset := by
  have hmap := length_hidMap
  have hleft : sizeT ((hidMap.length : Int) - offset) = hidMap.length - offset := by
    rw [sizeT_of_nonneg (by omega) (by omega)]
    omega
  have hroom : sizeT ((mtu : Int) - 1) = mtu - 1 := by
    rw [sizeT_of_nonneg (by omega) (by omega)]
    omega
  have hlen : (if mtu - 1 ≥ hidMap.length - offset then hidMap.length - offset else mtu - 1) =
      (mapPart mtu offset).length := by
    rw [mapPart, List.length_take, List.length_drop]
    split_ifs <;> omega
  have hfit : offset + (mapPart mtu offset).length ≤ hidMap.length := by
    rw [mapPart, List.length_take, List.length_drop]
    omega
  have hpart : (hidMap.drop offset).take (mapPart mtu offset).length = mapPart mtu offset := by
    rw [mapPart, List.length_take, List.take_eq_take_iff]
    omega
  have hnat : (UInt16.ofNat (mapPart mtu offset).length).toNat = (mapPart mtu offset).length := by
    rw [UInt16.toNat_ofNat']
    omega
  simp only [HidDevice.readReportMap, hmtu, hleft, hroom, hlen, hnat, Int.toNat_natCast,
    mapMem_read h hfit, hpart]
  exact Mem.read_write_self buf 0 _

/-- Behind its end it returns as many bytes as the MTU allows. -/
theorem readReportMap_behind (hout : hidMap.length < offset) (hoffset : offset ≤ 0xFFFF)
    (buf : Mem) : (HidDevice.readReportMap h offset buf).2.toNat = mtu - 1 := by
  have hmap := length_hidMap
  have hleft : sizeT ((hidMap.length : Int) - offset) = 2 ^ 64 + hidMap.length - offset := by
    rw [sizeT_of_neg (by omega) (by omega)]
    omega
  have hroom : sizeT ((mtu : Int) - 1) = mtu - 1 := by
    rw [sizeT_of_nonneg (by omega) (by omega)]
    omega
  simp only [HidDevice.readReportMap, hmtu, hleft, hroom]
  rw [if_neg (by omega), UInt16.toNat_ofNat']
  omega

end Callback

/-! ## One request -/

/-- A read of the report map changes the response buffer only. -/
theorem accessHandle_map {g : GattServices (Hid × τ)} {pdu : Mem} {s : GattService (Hid × τ)}
    {c : GattCharacter} (hinfo : getHandleInfo g.serviceList (pdu.u16 0) = some (s, c, .character))
    (hmap : IsMap s c) (addr : BdAddr) {opcode rsp : UInt8} {offset : ℕ}
    (hop : opcode = btAttOpReadReq ∧ rsp = btAttOpReadRsp ∧ offset = 0 ∨
      opcode = btAttOpReadBlobReq ∧ rsp = btAttOpReadBlobRsp ∧ offset = (pdu.u16 2).toNat)
    (length : UInt16) (l : Locals) :
    (accessHandle g addr opcode pdu length l).1.serviceList = g.serviceList ∧
      (accessHandle g addr opcode pdu length l).1.world = g.world ∧
      sentPdus (accessHandle g addr opcode pdu length l).2 =
        [(addr, ⟨rsp, (HidDevice.readReportMap g.world.1 offset g.rspPdu).1.read 0
          (HidDevice.readReportMap g.world.1 offset g.rspPdu).2.toNat⟩)] := by
  obtain ⟨hcb, huuid⟩ := hmap
  simp only [accessHandle, hinfo]
  rcases hop with ⟨rfl, rfl, rfl⟩ | ⟨rfl, rfl, rfl⟩
  · simp only [accessCharacter, show ¬ btAttOpReadReq = btAttOpWriteReq by decide, if_false,
      if_true, hcb, hidCb, HidDevice.onCharacterRead, huuid, sentPdus_call, true_and]
    exact sentPdus_gattSend addr _ (by decide)
  · simp only [accessCharacter, show ¬ btAttOpReadBlobReq = btAttOpWriteReq by decide,
      show ¬ btAttOpReadBlobReq = btAttOpReadReq by decide, if_false, if_true, hcb, hidCb,
      HidDevice.onCharacterReadBlob, huuid, sentPdus_call, true_and]
    exact sentPdus_gattSend addr _ (by decide)

section Request

variable {x : Session (Hid × τ)} {handle : UInt16} {mtu : ℕ} (h : MapServer x.server handle mtu)
  (addr : BdAddr)
include h

/-- A request for the report map leaves the server as it is and gets the bytes that the
callback copies. -/
theorem MapServer.request_eq {opcode rsp : UInt8} {params : List UInt8} {offset : ℕ}
    (hhandle : ((x.buffer 0).write 0 params).u16 0 = handle)
    (hop : opcode = btAttOpReadReq ∧ rsp = btAttOpReadRsp ∧ offset = 0 ∨
      opcode = btAttOpReadBlobReq ∧ rsp = btAttOpReadBlobRsp ∧
        offset = (((x.buffer 0).write 0 params).u16 2).toNat) :
    MapServer (request x addr opcode params).1.server handle mtu ∧
      (request x addr opcode params).2 =
        [(addr, ⟨rsp, (HidDevice.readReportMap x.server.world.1 offset x.server.rspPdu).1.read 0
          (HidDevice.readReportMap x.server.world.1 offset x.server.rspPdu).2.toNat⟩)] := by
  obtain ⟨hagreed, hleast, hmost, s, c, hinfo, hmap⟩ := h
  have hmem : opcode ∈ handleRequests := by
    rcases hop with ⟨rfl, -⟩ | ⟨rfl, -⟩
    · decide
    · decide
  rw [← hhandle] at hinfo
  obtain ⟨hss, hworld, hsent⟩ := accessHandle_map hinfo hmap addr hop
    (UInt32.ofNat params.length).toUInt16 (x.locals 0)
  simp only [request, receive_handle _ _ _ _ _ hmem]
  refine ⟨⟨hworld ▸ hagreed, hleast, hmost, s, c, ?_, hmap⟩, hsent⟩
  rw [hss, ← hhandle]
  exact hinfo

theorem MapServer.request_read :
    MapServer (request x addr btAttOpReadReq (le16 handle)).1.server handle mtu ∧
      (request x addr btAttOpReadReq (le16 handle)).2 =
        [(addr, ⟨btAttOpReadRsp, mapPart mtu 0⟩)] := by
  have hreq := h.request_eq addr (u16_write_le16 (x.buffer 0) handle) (.inl ⟨rfl, rfl, rfl⟩)
  rw [readReportMap_part h.agreed h.least h.most (Nat.zero_le _)] at hreq
  exact hreq

/-- **A blob read is exact up to the end of the map and never behind it.** -/
theorem MapServer.request_readBlob_iff (offset : UInt16) :
    (request x addr btAttOpReadBlobReq (le16 handle ++ le16 offset)).2 =
      blobReply addr mtu offset.toNat ↔ offset.toNat ≤ hidMap.length := by
  obtain ⟨hhandle, hoffset⟩ := Mem.u16_write_pair (x.buffer 0) handle offset
  have hreq := (h.request_eq addr hhandle (.inr ⟨rfl, rfl, rfl⟩)).2
  rw [hoffset] at hreq
  rw [hreq, blobReply]
  constructor
  · intro heq
    by_contra hout
    have hlen := congrArg (fun sent => sent.map fun p => p.2.params.length) heq
    have hbehind := readReportMap_behind h.agreed h.least h.most (Nat.lt_of_not_le hout)
      (Nat.le_of_lt_succ offset.toNat_lt) x.server.rspPdu
    have hleast := h.least
    simp only [List.map_cons, List.map_nil, Mem.length_read, List.cons.injEq, and_true, hbehind,
      mapPart, List.length_take, List.length_drop] at hlen
    omega
  · intro hin
    rw [readReportMap_part h.agreed h.least h.most hin]

theorem MapServer.request_readBlob (offset : UInt16) :
    MapServer (request x addr btAttOpReadBlobReq (le16 handle ++ le16 offset)).1.server
      handle mtu := by
  obtain ⟨hhandle, hoffset⟩ := Mem.u16_write_pair (x.buffer 0) handle offset
  exact (h.request_eq addr hhandle (.inr ⟨rfl, rfl, rfl⟩)).1

end Request

/-! ## The loop -/

/-- What has been received and the part behind it. -/
theorem take_append_mapPart (mtu k : ℕ) :
    hidMap.take k ++ mapPart mtu k = hidMap.take (k + (mtu - 1)) :=
  List.take_add.symm

/-- From a beginning of the map the blob reads get the rest. -/
theorem readBlobs_eq {handle : UInt16} {mtu : ℕ} (addr : BdAddr) {fuel : ℕ}
    {x : Session (Hid × τ)} (h : MapServer x.server handle mtu) {k : ℕ} (hk : k ≤ hidMap.length)
    (hfuel : hidMap.length - k < fuel) :
    readBlobs addr handle mtu fuel x (hidMap.take k) = some hidMap := by
  induction fuel generalizing x k with
  | zero => omega
  | succ fuel ih =>
      have hleast := h.least
      have hmap := length_hidMap
      have hlen : (hidMap.take k).length = k := by simp [hk]
      have hnat : (UInt16.ofNat k).toNat = k := by
        rw [UInt16.toNat_ofNat']
        omega
      have hsent := (h.request_readBlob_iff addr (UInt16.ofNat k)).mpr (by omega)
      rw [hnat] at hsent
      simp only [readBlobs, hlen, hsent, blobReply, replyBytes, and_self, if_true]
      have hpart : (mapPart mtu k).length = min (mtu - 1) (hidMap.length - k) := by
        rw [mapPart, List.length_take, List.length_drop]
      rw [take_append_mapPart]
      split_ifs with hshort
      · rw [List.take_of_length_le (by omega)]
      · exact ih (h.request_readBlob addr _) (by omega) (by omega)

/-- **Reading the report map.** For every MTU from the default on: a Read Blob returns
exactly the part of the map behind its offset if and only if the offset is not behind the
end; and a Read followed by Read Blobs from behind what has been received, until a reply is
short, returns exactly the map. -/
theorem report_map_long_read {x : Session (Hid × τ)} {handle : UInt16} {mtu : ℕ}
    (h : MapServer x.server handle mtu) (addr : BdAddr) :
    (∀ offset : UInt16, (request x addr btAttOpReadBlobReq (le16 handle ++ le16 offset)).2 =
      blobReply addr mtu offset.toNat ↔ offset.toNat ≤ hidMap.length) ∧
    ∀ fuel, hidMap.length < fuel → readLong addr handle mtu fuel x = some hidMap := by
  refine ⟨h.request_readBlob_iff addr, ?_⟩
  intro fuel hfuel
  obtain ⟨hserver, hsent⟩ := h.request_read addr
  have hleast := h.least
  have hzero : mapPart mtu 0 = hidMap.take (mtu - 1) := rfl
  simp only [readLong, hsent, replyBytes, and_self, if_true, hzero]
  have hmin : hidMap.take (mtu - 1) = hidMap.take (min (mtu - 1) hidMap.length) := by
    rw [List.take_eq_take_iff]
    omega
  split_ifs with hshort
  · rw [List.length_take] at hshort
    rw [List.take_of_length_le (by omega)]
  · rw [hmin]
    exact readBlobs_eq addr hserver (Nat.min_le_right _ _) (by omega)

/-- A client in front of the services of the program, connected with the default MTU. -/
def mapSession : Session (Hid × Unit) where
  server := (serve (secureServer initGattServices) (.connected peerA)).1
  locals := fun _ => ⟨.u16 0, Vector.replicate 16 0, 0⟩
  buffer := fun _ _ => 0

theorem mapServer_mapSession : MapServer mapSession.server 3 23 where
  agreed := rfl
  least := le_rfl
  most := by decide
  found := ⟨_, _, rfl, rfl, by decide⟩

theorem report_map_long_read_default :
    readLong peerA 3 23 122 mapSession = some hidMap :=
  (report_map_long_read mapServer_mapSession peerA).2 122 (by decide)

/-- One byte behind the end the service sends 22 bytes of whatever is there. -/
theorem report_map_read_behind :
    (request mapSession peerA btAttOpReadBlobReq (le16 3 ++ le16 122)).2 ≠
      blobReply peerA 23 122 := by
  intro h
  exact absurd ((mapServer_mapSession.request_readBlob_iff peerA 122).mp h) (by decide)

end CCode.Gatt
