import CCode.MemShare.Bus

/-!
# A message through both layers

`wi_send` puts its flag before the payload, `proc_comm.c` puts its own header before that,
and both are taken off again in the receiver, whose `wi_bus_recv_cb` puts the payload on
the list that the application is served from. A message to one client is written into that
client's buffer. A broadcast is written into the server's buffer, decoded by the server
and written once more into the buffer of each client it is for.

`message_transparent` says that both ways the receiver queues the sender's id and payload,
at the end of the list that the flag names.

## Main definitions

* `outCb`, `sendOutCb` — the writers.
* `pcClientRecvCb`, `wiBusRecvCb` — the readers.
* `queued` — what is to become of the list.
-/

namespace CCode.MemShare

open CCode.Lib

/-! ## The code -/

/-- `WI_FLAG_PRIORITY_HIGH`, which is `1 << 1`. -/
abbrev wiFlagPriorityHigh : UInt32 := 2

/-- `WI_BUS_MAX_BUFFER_SIZE`. -/
abbrev wiBusMaxBufferSize : UInt32 := 1800

/-- The memory of the server's channel, as `pc_create_server` asks for it. -/
abbrev serverShmSize : UInt32 := reserveSize + wiBusMaxBufferSize

/-- The memory of a client's channel: the client asks for the size of the server's, and
`create_remote_server` adds to it. -/
abbrev clientShmSize : UInt32 := reserveSize + serverShmSize

/-- `out_cb`: what it writes behind the header. -/
def outCb (flag : UInt32) (payload : List UInt8) : List UInt8 := le32 flag ++ payload

/-- `send_out_cb`: the server writes the message it has decoded into a client's buffer.
One array serves both ids. -/
def sendOutCb (d : PcCommData) (buf : Mem) : Mem :=
  let n := d.idLen.toNat
  let id := d.sId.take n ++ List.replicate (maxClientIdLen - n) 0
  (buf.write 0 (le32 cmdDataSendReq ++ le32 d.idLen ++ id ++ (d.dId.take n ++ id.drop n))).write 40
    (le32 d.dataLen ++ d.data)

/-- `pc_client_recv_cb`: what the callback of the client makes of its state, and the
response. The callback gets the sender's id and a pointer to the data. -/
def pcClientRecvCb {σ : Type*} (recvCb : List UInt8 → UInt32 → Mem → UInt32 → σ → σ) (buf : Mem)
    (pdata : σ) : σ × Mem :=
  if buf.u32 0 = cmdDataSendReq then
    (recvCb (buf.read 8 maxClientIdLen) (buf.u32 4) (fun a => buf (44 + a)) (buf.u32 40) pdata,
      buf.write 0 (rspBytes cmdDataSendRsp cmdSuccess []))
  else (pdata, buf.write 0 (rspBytes cmdDataSendRsp cmdFailed []))

/-- `struct recv_data`. -/
structure RecvData where
  remoteId : WiAddr
  buf : List UInt8
  len : UInt32
  deriving DecidableEq

/-- What the allocator does in `wi_bus_recv_cb`: whether there is memory for the record,
for the bytes and for the entry of the list, and what the record's address field held. -/
structure RecvAlloc where
  data : Bool
  buf : Bool
  entry : Bool
  residue : WiAddr

/-- `queue_push_head` or `queue_push_tail`, by the flag. -/
def pushByFlag (flag : UInt32) (data : RecvData) (recvList : List RecvData) : List RecvData :=
  if flag &&& wiFlagPriorityHigh ≠ 0 then data :: recvList else recvList ++ [data]

/-- `wi_bus_recv_cb`, on the list of received messages. -/
def wiBusRecvCb (alloc : RecvAlloc) (id : List UInt8) (idLen : UInt32) (buf : Mem)
    (bufLen : UInt32) (recvList : List RecvData) : List RecvData :=
  if ¬ alloc.data ∨ ¬ alloc.buf then recvList
  else
    let flag := buf.u32 0
    let len := bufLen - 4
    let data : RecvData :=
      { remoteId := (ClientId.copied alloc.residue id idLen).data
        buf := buf.read 4 len.toNat
        len }
    if alloc.entry then pushByFlag flag data recvList else recvList

/-! ## What it is for -/

/-- The list after a message from `s`: the message is at the end that its flag names,
unless there was no memory for it. -/
def queued (alloc : RecvAlloc) (s : WiAddr) (flag : UInt32) (payload : List UInt8)
    (recvList : List RecvData) : List RecvData :=
  if alloc.data ∧ alloc.buf ∧ alloc.entry then
    pushByFlag flag ⟨s, payload, UInt32.ofNat payload.length⟩ recvList
  else recvList

/-- A buffer that carries a message: all that a receiver looks at. -/
structure Carries (buf : Mem) (s : WiAddr) (data : List UInt8) : Prop where
  cmd : buf.u32 0 = cmdDataSendReq
  idLen : buf.u32 4 = 8
  sId : buf.read 8 maxClientIdLen = s.toList
  dataLen : buf.u32 40 = UInt32.ofNat data.length
  data : buf.read 44 data.length = data

/-! ## Writing a message -/

/-- The ids in the header, where both have eight bytes. -/
theorem header_fields (s d : WiAddr) (m : Mem) :
    let hdr := le32 cmdDataSendReq ++ le32 8 ++ s.toList ++ d.toList
    (m.write 0 hdr).u32 0 = cmdDataSendReq ∧ (m.write 0 hdr).u32 4 = 8 ∧
      (m.write 0 hdr).read 8 maxClientIdLen = s.toList ∧
      (m.write 0 hdr).read 16 maxClientIdLen = d.toList := by
  refine ⟨?_, ?_, ?_, ?_⟩
  · exact m.u32_write_of_eq [] _ (by simp; rfl) rfl
  · exact m.u32_write_of_eq (le32 cmdDataSendReq) _ (by simp; rfl) rfl
  · exact m.read_write_of_eq (le32 cmdDataSendReq ++ le32 8) d.toList (by simp) rfl (by simp)
  · exact m.read_write_of_eq (le32 cmdDataSendReq ++ le32 8 ++ s.toList) []
      (by simp) (by rw [List.length_append, Vector.length_toList]; rfl) (by simp)

/-- **The sender's encoder** leaves a buffer that carries the message. -/
theorem carries_pcCSendOutCb (s d : WiAddr) (data : List UInt8) (m : Mem) :
    Carries (pcCSendOutCb s.peerId.toClientId d.peerId.toClientId data m) s data where
  cmd := (commData_pcCSendOutCb rfl rfl data m).1
  idLen := (commData_pcCSendOutCb rfl rfl data m).2.1
  sId := (commData_pcCSendOutCb rfl rfl data m).2.2.1
  dataLen := by
    have h := Mem.u32_write ((m.write 0 (le32 cmdDataSendReq ++ le32 8 ++ s.peerId.padded ++
      (d.peerId.bytes ++ s.peerId.padded.drop 8))).write 44 data) 40
      (UInt32.ofNat data.length) []
    rw [List.append_nil] at h
    exact h
  data := by
    rw [pcCSendOutCb, Mem.read_write_after _ _ (by simp), Mem.read_write_self]

/-- The server's decoder finds what a buffer carries. -/
theorem Carries.commData_eq {buf : Mem} {s : WiAddr} {data : List UInt8} (h : Carries buf s data)
    (hlen : data.length < 2 ^ 32) :
    commData buf =
      ⟨8, s.toList, buf.read 16 maxClientIdLen, UInt32.ofNat data.length, data⟩ := by
  have htoNat : (UInt32.ofNat data.length).toNat = data.length :=
    UInt32.toNat_ofNat_of_lt' hlen
  simp only [commData, h.idLen, h.sId, h.dataLen, htoNat, h.data]

/-- **The server's encoder** leaves a buffer that carries the message it decoded. -/
theorem carries_sendOutCb {buf : Mem} {s : WiAddr} {data : List UInt8} (h : Carries buf s data)
    (hlen : data.length < 2 ^ 32) (m : Mem) : Carries (sendOutCb (commData buf) m) s data := by
  obtain ⟨d, hd⟩ : ∃ d : WiAddr, buf.read 16 maxClientIdLen = d.toList :=
    ⟨⟨(buf.read 16 maxClientIdLen).toArray, by simp⟩, by simp⟩
  -- both ids fill the array, so nothing of one is left behind the other
  have hout : sendOutCb (commData buf) m =
      (m.write 0 (le32 cmdDataSendReq ++ le32 8 ++ s.toList ++ d.toList)).write 40
        (le32 (UInt32.ofNat data.length) ++ data) := by
    have htake : ∀ a : WiAddr, a.toList.take 8 = a.toList := fun a =>
      List.take_of_length_le (by simp)
    have hdrop : s.toList.drop 8 = [] := List.drop_of_length_le (by simp)
    simp [sendOutCb, h.commData_eq hlen, hd, htake, hdrop]
  obtain ⟨hcmd, hidLen, hsId, -⟩ := header_fields s d m
  rw [hout]
  refine ⟨?_, ?_, ?_, Mem.u32_write _ _ _ _, ?_⟩
  · rw [Mem.u32_write_before _ (by decide), hcmd]
  · rw [Mem.u32_write_before _ (by decide), hidLen]
  · rw [Mem.read_write_before _ (by decide), hsId]
  · have hread := Mem.read_write (m.write 0 (le32 cmdDataSendReq ++ le32 8 ++ s.toList ++ d.toList))
      (le32 (UInt32.ofNat data.length) ++ data) 40 4 data.length (by simp)
    rw [List.drop_left' (length_le32 _), List.take_length] at hread
    exact hread

/-! ## Reading it -/

/-- Eight bytes cover what the memory held before. -/
theorem copied_full (residue s : WiAddr) : (ClientId.copied residue s.toList 8).data = s := by
  ext i hi
  simp [ClientId.copied]

/-- **The receiver** queues what its buffer carries. -/
theorem Carries.recv {buf : Mem} {s : WiAddr} {flag : UInt32} {payload : List UInt8}
    (h : Carries buf s (outCb flag payload)) (hlen : 4 + payload.length < 2 ^ 32)
    (alloc : RecvAlloc) (recvList : List RecvData) :
    (pcClientRecvCb (wiBusRecvCb alloc) buf recvList).1 =
      queued alloc s flag payload recvList := by
  have hdata : (outCb flag payload).length = 4 + payload.length := by simp [outCb]
  have hread := h.data
  rw [hdata, outCb, Mem.read_add] at hread
  obtain ⟨hread₁, hread₂⟩ := List.append_inj hread (by simp)
  have hlenField : buf.u32 40 - 4 = UInt32.ofNat payload.length := by
    rw [h.dataLen, hdata, UInt32.ofNat_add, UInt32.add_comm]
    exact UInt32.add_sub_cancel _ _
  have hflag : Mem.u32 (fun a => buf (44 + a)) 0 = flag := Mem.u32_eq_of_read hread₁
  have hpayload : Mem.read (fun a => buf (44 + a)) 4 payload.length = payload := by
    rw [Mem.read_offset, hread₂]
  have htoNat : (UInt32.ofNat payload.length).toNat = payload.length :=
    UInt32.toNat_ofNat_of_lt' (Nat.lt_of_le_of_lt (Nat.le_add_left _ 4) hlen)
  simp only [pcClientRecvCb, h.cmd, if_true, wiBusRecvCb, h.idLen, h.sId, hlenField, hflag,
    copied_full, htoNat, hpayload, queued]
  rcases alloc with ⟨_ | _, _ | _, _ | _, residue⟩ <;> simp

/-- What the server passes on is the message it decodes. -/
theorem snd_of_mem_sent {server : PcServer} {buf : Mem} {alloc : Option Alloc}
    {status : PcSClient → UInt32} (hcmd : buf.u32 0 = cmdDataSendReq)
    {sent : PcSClient × PcCommData} (h : sent ∈ (pcServerRecvCb server buf alloc status).2.2) :
    sent.2 = commData buf := by
  have hne₁ : ¬ cmdDataSendReq = cmdGetServerReq := by decide
  have hne₂ : ¬ cmdDataSendReq = cmdCloseServerReq := by decide
  have hne₃ : ¬ cmdDataSendReq = cmdGetClientReq := by decide
  simp only [pcServerRecvCb, hcmd, hne₁, hne₂, hne₃, if_false, if_true] at h
  split at h
  · obtain ⟨c, -, rfl⟩ := List.mem_map.mp h
    rfl
  · split at h
    · exact absurd h List.not_mem_nil
    · rw [List.mem_singleton.mp h]

/-- **Message transparency.** For all addresses, flags and payloads that fit the buffers,
whatever these held and whatever the list of the receiver holds: the receiver queues the
sender's id and payload by the sender's flag, both when the message is written into its own
buffer and when the server passes it on to it. -/
theorem message_transparent (s d : WiAddr) (flag : UInt32) (payload : List UInt8)
    (alloc : RecvAlloc) (recvList : List RecvData) (buf : Mem) :
    (48 + payload.length ≤ clientShmSize.toNat →
      (pcClientRecvCb (wiBusRecvCb alloc)
        (pcCSendOutCb s.peerId.toClientId d.peerId.toClientId (outCb flag payload) buf)
        recvList).1 = queued alloc s flag payload recvList) ∧
    (48 + payload.length ≤ serverShmSize.toNat →
      ∀ (w : World) (status : PcSClient → UInt32), ∀ sent ∈ (pcServerRecvCb w.server
        (pcCSendOutCb s.peerId.toClientId d.peerId.toClientId (outCb flag payload) w.buf) none
        status).2.2,
        (pcClientRecvCb (wiBusRecvCb alloc) (sendOutCb sent.2 buf) recvList).1 =
          queued alloc s flag payload recvList) := by
  refine ⟨fun hfit => ?_, fun hfit w status sent hsent => ?_⟩
  · have hlen : 48 + payload.length ≤ 1928 := hfit
    exact (carries_pcCSendOutCb s d (outCb flag payload) buf).recv (by omega) alloc recvList
  · have hlen : 48 + payload.length ≤ 1864 := hfit
    have hcarries := carries_pcCSendOutCb s d (outCb flag payload) w.buf
    have hdata : (outCb flag payload).length < 2 ^ 32 := by
      simp only [outCb, List.length_append, length_le32]
      omega
    rw [snd_of_mem_sent hcarries.cmd hsent]
    exact (carries_sendOutCb hcarries hdata buf).recv (by omega) alloc recvList

/-- The address of the first client, and the group of the second. -/
def firstAddr : WiAddr := firstId.data

def secondGroup : WiAddr := Vector.ofFn fun i => if i.val < 2 then 2 else 0xFF

/-- A broadcast of the first client is relayed to the second, which queues it. -/
theorem message_transparent_relayed :
    ∃ sent ∈ (pcServerRecvCb twoClients.server (pcCSendOutCb firstAddr.peerId.toClientId
        secondGroup.peerId.toClientId (outCb 2 [9]) twoClients.buf) none
        fun _ => cmdSuccess).2.2,
      (pcClientRecvCb (wiBusRecvCb ⟨true, true, true, secondGroup⟩) (sendOutCb sent.2 fun _ => 0)
        []).1 = [⟨firstAddr, [9], 1⟩] := by
  have h : 0 < (pcServerRecvCb twoClients.server (pcCSendOutCb firstAddr.peerId.toClientId
      secondGroup.peerId.toClientId (outCb 2 [9]) twoClients.buf) none
      fun _ => cmdSuccess).2.2.length := by decide
  refine ⟨_, List.getElem_mem h, ?_⟩
  exact (message_transparent firstAddr secondGroup 2 [9] ⟨true, true, true, secondGroup⟩ []
    fun _ => 0).2 (by decide) twoClients _ _ (List.getElem_mem h)

end CCode.MemShare
