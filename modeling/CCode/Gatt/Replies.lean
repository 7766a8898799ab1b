import CCode.Gatt.Server

/-!
# The request and response discipline of the server

The attribute protocol wants exactly one reply to a request and none to anything else.
`reply_discipline_iff` says exactly when `onReceive` keeps to that.

It fails in two ways. A read, blob read or write of a handle that `get_handle_info` does
not find is only logged, and a blob read of a descriptor falls through every case; both
leave the client without a reply. And the last case of the switch answers six opcodes
that are no requests, five responses and the confirmation, with an Error Response.

## Main definitions

* `IsReplyTo` — a response to a request, or an Error Response that names it.
* `ReplyDiscipline` — one reply to a request, nothing otherwise.
* `Answerable` — the PDUs for which the server keeps the discipline.
-/

namespace CCode.Gatt

open CCode.Lib

variable {σ : Type}

/-- The PDU is the response that belongs to the request opcode, or an Error Response
whose request-opcode field is that opcode. -/
def IsReplyTo (opcode : UInt8) (p : Pdu) : Prop :=
  getReqOpcode p.opcode = opcode ∨ (p.opcode = btAttOpErrorRsp ∧ p.params.head? = some opcode)

/-- Exactly one PDU went out, to the peer, and it replies to the opcode. -/
def RepliesOnce (peer : BdAddr) (opcode : UInt8) (sent : List (BdAddr × Pdu)) : Prop :=
  ∃ p, sent = [(peer, p)] ∧ IsReplyTo opcode p

/-- A request is replied to exactly once, anything else not at all. -/
def ReplyDiscipline (peer : BdAddr) (opcode : UInt8) (sent : List (BdAddr × Pdu)) : Prop :=
  if getOpType opcode = .req then RepliesOnce peer opcode sent else sent = []

/-- The opcodes that are no requests and get an Error Response. -/
def spuriousOpcodes : List UInt8 :=
  [btAttOpFindByTypeValRsp, btAttOpReadBlobRsp, btAttOpReadMultRsp, btAttOpPrepWriteRsp,
   btAttOpExecWriteRsp, btAttOpHandleValConf]

/-- The requests that name an attribute by its handle. -/
def handleRequests : List UInt8 := [btAttOpReadReq, btAttOpReadBlobReq, btAttOpWriteReq]

/-- The handle in the PDU is found and, for a blob read, names a characteristic value. -/
def HandleFound (serviceList : List (GattService σ)) (opcode : UInt8) (pdu : Mem) : Prop :=
  ∃ s c t, getHandleInfo serviceList (pdu.u16 0) = some (s, c, t) ∧
    (opcode = btAttOpReadBlobReq → t = .character)

/-- The PDUs for which the server keeps the discipline: not one of the spurious opcodes,
and a read, blob read or write only of a handle that is found. -/
def Answerable (serviceList : List (GattService σ)) (opcode : UInt8) (pdu : Mem) : Prop :=
  opcode ∉ spuriousOpcodes ∧
    (opcode ∈ handleRequests → HandleFound serviceList opcode pdu)

/-! ## One reply from each response function -/

theorem not_repliesOnce_nil (peer : BdAddr) (opcode : UInt8) : ¬ RepliesOnce peer opcode [] := by
  rintro ⟨p, h, -⟩
  simp at h

theorem repliesOnce_gattSend (peer : BdAddr) {opcode rsp : UInt8} (pdu : List UInt8)
    (hrsp : getOpType rsp = .rsp) (hreq : getReqOpcode rsp = opcode) :
    RepliesOnce peer opcode (sentPdus (gattSend peer rsp.toUInt16 pdu : List (Event σ))) :=
  ⟨⟨rsp, pdu⟩, sentPdus_gattSend peer pdu hrsp, .inl hreq⟩

theorem repliesOnce_sendAttError (peer : BdAddr) (opcode : UInt8) (handle : UInt16)
    (errCode : UInt8) :
    RepliesOnce peer opcode
      (sentPdus (sendAttError peer opcode.toUInt16 handle errCode : List (Event σ))) :=
  ⟨_, sentPdus_sendAttError peer opcode handle errCode, .inr ⟨rfl, rfl⟩⟩

/-- The services learn of a new MTU through callbacks only. -/
theorem sentPdus_mtuChange (peer : BdAddr) (mtu : UInt16) (ss : List (GattService σ)) (w : σ) :
    sentPdus (mtuChange peer mtu ss w).2.2 = [] := by
  induction ss generalizing w with
  | nil => rfl
  | cons s ss ih => simp [mtuChange, ih]

theorem repliesOnce_mtuRsp (g : GattServices σ) (peer : BdAddr) (mtu : UInt16) :
    RepliesOnce peer btAttOpMtuReq (sentPdus (mtuRsp g peer mtu).2) := by
  have h : RepliesOnce peer btAttOpMtuReq
      (sentPdus (gattSend peer btAttOpMtuRsp.toUInt16 (le16 mtu) : List (Event σ))) :=
    repliesOnce_gattSend peer _ (by decide) (by decide)
  simpa only [mtuRsp, sentPdus_append, sentPdus_mtuChange, List.append_nil] using h

theorem repliesOnce_findInfoRsp (ss : List (GattService σ)) (peer : BdAddr) (r : HandleRange) :
    RepliesOnce peer btAttOpFindInfoReq (sentPdus (findInfoRsp ss peer r)) := by
  rw [findInfoRsp]
  split
  · exact repliesOnce_gattSend peer _ (by decide) (by decide)
  · exact repliesOnce_sendAttError peer _ _ _

theorem repliesOnce_readByTypeRsp (ss : List (GattService σ)) (peer : BdAddr)
    (r : HandleRange) (uuid : BtUuid) (l : Locals) :
    RepliesOnce peer btAttOpReadByTypeReq (sentPdus (readByTypeRsp ss peer r uuid l)) := by
  rw [readByTypeRsp]
  split
  · split
    · exact repliesOnce_gattSend peer _ (by decide) (by decide)
    · exact repliesOnce_sendAttError peer _ _ _
  · exact repliesOnce_sendAttError peer _ _ _

theorem repliesOnce_readByGrpTypeRsp (ss : List (GattService σ)) (peer : BdAddr)
    (r : HandleRange) (uuid : BtUuid) (l : Locals) :
    RepliesOnce peer btAttOpReadByGrpTypeReq
      (sentPdus (readByGrpTypeRsp ss peer r uuid l)) := by
  rw [readByGrpTypeRsp]
  split
  · split
    · exact repliesOnce_gattSend peer _ (by decide) (by decide)
    · exact repliesOnce_sendAttError peer _ _ _
  · exact repliesOnce_sendAttError peer _ _ _

/-! ## Reads and writes -/

/-- A characteristic value answers all three opcodes, with the callback's result or, for
a blob read without a callback, with an error. -/
theorem repliesOnce_accessCharacter (g : GattServices σ) (peer : BdAddr) {opcode : UInt8}
    (pdu : Mem) (length : UInt16) (s : GattService σ) (c : GattCharacter)
    (hop : opcode ∈ handleRequests) :
    RepliesOnce peer opcode (sentPdus (accessCharacter g peer opcode pdu length s c).2) := by
  simp only [handleRequests, List.mem_cons, List.not_mem_nil, or_false] at hop
  rcases hop with rfl | rfl | rfl
  · exact repliesOnce_gattSend peer _ (by decide) (by decide)
  · simp only [accessCharacter, show ¬ btAttOpReadBlobReq = btAttOpWriteReq by decide,
      show ¬ btAttOpReadBlobReq = btAttOpReadReq by decide, if_false, if_true]
    split
    · exact repliesOnce_gattSend peer _ (by decide) (by decide)
    · exact repliesOnce_sendAttError peer _ _ _
  · have h : RepliesOnce peer btAttOpWriteReq
        (sentPdus (gattSend peer btAttOpWriteRsp.toUInt16 [] : List (Event σ))) :=
      repliesOnce_gattSend peer _ (by decide) (by decide)
    simpa [accessCharacter] using h

/-- A descriptor answers a read and a write, and is silent on a blob read. -/
theorem repliesOnce_accessDescConf_iff (g : GattServices σ) (peer : BdAddr) {opcode : UInt8}
    (pdu : Mem) (s : GattService σ) (c : GattCharacter) (l : Locals)
    (hop : opcode ∈ handleRequests) :
    RepliesOnce peer opcode (sentPdus (accessDescConf g peer opcode pdu s c l).2) ↔
      opcode ≠ btAttOpReadBlobReq := by
  simp only [handleRequests, List.mem_cons, List.not_mem_nil, or_false] at hop
  rcases hop with rfl | rfl | rfl
  · refine iff_of_true ?_ (by decide)
    exact repliesOnce_gattSend peer _ (by decide) (by decide)
  · exact iff_of_false (not_repliesOnce_nil peer _) (by simp)
  · refine iff_of_true ?_ (by decide)
    exact repliesOnce_gattSend peer _ (by decide) (by decide)

theorem repliesOnce_accessHandle_iff (g : GattServices σ) (peer : BdAddr) {opcode : UInt8}
    (pdu : Mem) (length : UInt16) (l : Locals)
    (hop : opcode ∈ handleRequests) :
    RepliesOnce peer opcode (sentPdus (accessHandle g peer opcode pdu length l).2) ↔
      HandleFound g.serviceList opcode pdu := by
  rw [accessHandle, HandleFound]
  split
  case h_1 s c heq =>
    refine iff_of_true (repliesOnce_accessCharacter g peer pdu length s c hop) ?_
    exact ⟨s, c, .character, heq, fun _ => rfl⟩
  case h_2 s c heq =>
    rw [repliesOnce_accessDescConf_iff g peer pdu s c l hop]
    simp [heq]
  case h_3 heq =>
    refine iff_of_false (not_repliesOnce_nil peer opcode) ?_
    simp [heq]

/-! ## The whole switch -/

/-- The opcodes on which the server does nothing: most responses, notifications,
indications, and the commands that the ATT layer drops. -/
def silentOpcodes : List UInt8 :=
  [btAttOpErrorRsp, btAttOpMtuRsp, btAttOpFindInfoRsp, btAttOpReadByTypeRsp,
   btAttOpReadByGrpTypeRsp, btAttOpReadRsp, btAttOpWriteRsp, btAttOpHandleValNot,
   btAttOpHandleValInd, btAttOpWriteCmd, btAttOpSignedWriteCmd]

/-- The requests that are answered as not supported. -/
def unsupportedRequests : List UInt8 :=
  [btAttOpFindByTypeValReq, btAttOpReadMultReq, btAttOpPrepWriteReq, btAttOpExecWriteReq]

/-- The requests with a response function of their own. -/
def servedRequests : List UInt8 :=
  [btAttOpMtuReq, btAttOpFindInfoReq, btAttOpReadByTypeReq, btAttOpReadByGrpTypeReq]

/-- A property of every opcode in a list, by evaluation over the list. Deciding the
quantifier instead may run through all values of the type. -/
theorem forall_mem_of_all {α : Type} {p : α → Prop} [DecidablePred p] {xs : List α}
    (h : (xs.all fun x => p x) = true) : ∀ x ∈ xs, p x := by
  simpa using h

/-- Every opcode is of unknown type or in one of the five groups. -/
theorem opcode_cases (opcode : UInt8) :
    getOpType opcode = .unknown ∨ opcode ∈ silentOpcodes ∨ opcode ∈ unsupportedRequests ∨
      opcode ∈ servedRequests ∨ opcode ∈ handleRequests ∨ opcode ∈ spuriousOpcodes := by
  rw [getOpType]
  cases h : attOpcodeTypeTable.find? fun e => e.1 == opcode with
  | none => exact .inl rfl
  | some e =>
      have hall : ∀ e ∈ attOpcodeTypeTable, e.1 ∈ silentOpcodes ∨ e.1 ∈ unsupportedRequests ∨
          e.1 ∈ servedRequests ∨ e.1 ∈ handleRequests ∨ e.1 ∈ spuriousOpcodes :=
        forall_mem_of_all (by decide)
      have heq : e.1 = opcode := by simpa using List.find?_some h
      exact .inr (heq ▸ hall e (List.mem_of_find?_eq_some h))

section Groups

variable (g : GattServices σ) (l : Locals) (peer : BdAddr) {opcode : UInt8} (pdu : Mem)
  (len : UInt32)

theorem receive_unknown (h : getOpType opcode = .unknown) :
    (receive g l peer opcode pdu len).2 = [] := by
  simp [receive, attIoReceive, h]

theorem receive_silent (h : opcode ∈ silentOpcodes) :
    (receive g l peer opcode pdu len).2 = [] := by
  simp only [silentOpcodes, List.mem_cons, List.not_mem_nil, or_false] at h
  rcases h with rfl | rfl | rfl | rfl | rfl | rfl | rfl | rfl | rfl | rfl | rfl <;> rfl

theorem receive_default (h : opcode ∈ unsupportedRequests ++ spuriousOpcodes) :
    (receive g l peer opcode pdu len).2 =
      sendAttError peer opcode.toUInt16 0x0001 btAttErrorRequestNotSupported := by
  simp only [unsupportedRequests, spuriousOpcodes, List.cons_append, List.nil_append,
    List.mem_cons, List.not_mem_nil, or_false] at h
  rcases h with rfl | rfl | rfl | rfl | rfl | rfl | rfl | rfl | rfl | rfl <;> rfl

/-- The three requests of a handle share one branch. -/
theorem onReceive_handle (length : UInt16) (h : opcode ∈ handleRequests) :
    onReceive g l peer opcode pdu length = accessHandle g peer opcode pdu length l := by
  have hearlier : ∀ op ∈ handleRequests, op ∉ [btAttOpErrorRsp, btAttOpMtuReq, btAttOpMtuRsp,
      btAttOpFindInfoReq, btAttOpFindInfoRsp, btAttOpReadByTypeReq, btAttOpReadByTypeRsp,
      btAttOpReadByGrpTypeReq, btAttOpReadByGrpTypeRsp] := forall_mem_of_all (by decide)
  have hne := hearlier opcode h
  simp only [List.mem_cons, List.not_mem_nil, or_false, not_or] at hne
  simp only [onReceive, hne, if_false]
  simp only [handleRequests, List.mem_cons, List.not_mem_nil, or_false] at h
  rw [if_pos h]

theorem receive_handle (h : opcode ∈ handleRequests) :
    receive g l peer opcode pdu len = accessHandle g peer opcode pdu len.toUInt16 l := by
  have hreq : ∀ op ∈ handleRequests, getOpType op = .req := forall_mem_of_all (by decide)
  simp only [receive, attIoReceive, hreq opcode h]
  exact onReceive_handle g l peer pdu _ h

/-- The state changes with an MTU exchange and with an access to a handle only. -/
theorem receive_state (opcode : UInt8) :
    (receive g l peer opcode pdu len).1 = g ∨
      (opcode = btAttOpMtuReq ∧ receive g l peer opcode pdu len = mtuRsp g peer (pdu.u16 0)) ∨
      (opcode ∈ handleRequests ∧
        receive g l peer opcode pdu len = accessHandle g peer opcode pdu len.toUInt16 l) := by
  rcases opcode_cases opcode with h | h | h | h | h | h
  · left
    simp [receive, attIoReceive, h]
  · left
    simp only [silentOpcodes, List.mem_cons, List.not_mem_nil, or_false] at h
    rcases h with rfl | rfl | rfl | rfl | rfl | rfl | rfl | rfl | rfl | rfl | rfl <;> rfl
  · left
    simp only [unsupportedRequests, List.mem_cons, List.not_mem_nil, or_false] at h
    rcases h with rfl | rfl | rfl | rfl <;> rfl
  · simp only [servedRequests, List.mem_cons, List.not_mem_nil, or_false] at h
    rcases h with rfl | rfl | rfl | rfl
    · exact .inr (.inl ⟨rfl, rfl⟩)
    · exact .inl rfl
    · exact .inl rfl
    · exact .inl rfl
  · exact .inr (.inr ⟨h, receive_handle g l peer pdu len h⟩)
  · left
    simp only [spuriousOpcodes, List.mem_cons, List.not_mem_nil, or_false] at h
    rcases h with rfl | rfl | rfl | rfl | rfl | rfl <;> rfl

/-- Each request with a response function of its own gets one reply. -/
theorem repliesOnce_served (h : opcode ∈ servedRequests) :
    RepliesOnce peer opcode (sentPdus (receive g l peer opcode pdu len).2) := by
  simp only [servedRequests, List.mem_cons, List.not_mem_nil, or_false] at h
  rcases h with rfl | rfl | rfl | rfl
  · exact repliesOnce_mtuRsp g peer _
  · exact repliesOnce_findInfoRsp g.serviceList peer _
  · exact repliesOnce_readByTypeRsp g.serviceList peer _ _ l
  · exact repliesOnce_readByGrpTypeRsp g.serviceList peer _ _ l

end Groups

/-- **The discipline holds exactly for the answerable PDUs**, in every state of the
server and whatever follows the received bytes in memory. -/
theorem reply_discipline_iff (g : GattServices σ) (l : Locals) (peer : BdAddr)
    (opcode : UInt8) (pdu : Mem) (len : UInt32) :
    ReplyDiscipline peer opcode (sentPdus (receive g l peer opcode pdu len).2) ↔
      Answerable g.serviceList opcode pdu := by
  rcases opcode_cases opcode with h | h | h | h | h | h
  · have hreq : getOpType opcode ≠ .req := by rw [h]; decide
    have hno : ∀ op ∈ handleRequests ++ spuriousOpcodes, getOpType op ≠ .unknown :=
      forall_mem_of_all (by decide)
    have hspur : opcode ∉ spuriousOpcodes := fun hm => hno _ (List.mem_append_right _ hm) h
    have hacc : opcode ∉ handleRequests := fun hm => hno _ (List.mem_append_left _ hm) h
    simp only [ReplyDiscipline, hreq, if_false, receive_unknown g l peer pdu len h,
      sentPdus_nil, true_iff]
    exact ⟨hspur, fun hm => absurd hm hacc⟩
  · have hgroup : ∀ op ∈ silentOpcodes,
        getOpType op ≠ .req ∧ op ∉ spuriousOpcodes ∧ op ∉ handleRequests :=
      forall_mem_of_all (by decide)
    obtain ⟨hreq, hspur, hacc⟩ := hgroup opcode h
    simp only [ReplyDiscipline, hreq, if_false, receive_silent g l peer pdu len h,
      sentPdus_nil, true_iff]
    exact ⟨hspur, fun hm => absurd hm hacc⟩
  · have hgroup : ∀ op ∈ unsupportedRequests,
        getOpType op = .req ∧ op ∉ spuriousOpcodes ∧ op ∉ handleRequests :=
      forall_mem_of_all (by decide)
    obtain ⟨hreq, hspur, hacc⟩ := hgroup opcode h
    rw [ReplyDiscipline, if_pos hreq,
      receive_default g l peer pdu len (List.mem_append_left _ h)]
    refine iff_of_true (repliesOnce_sendAttError peer opcode _ _) ?_
    exact ⟨hspur, fun hm => absurd hm hacc⟩
  · have hgroup : ∀ op ∈ servedRequests,
        getOpType op = .req ∧ op ∉ spuriousOpcodes ∧ op ∉ handleRequests :=
      forall_mem_of_all (by decide)
    obtain ⟨hreq, hspur, hacc⟩ := hgroup opcode h
    rw [ReplyDiscipline, if_pos hreq]
    refine iff_of_true (repliesOnce_served g l peer pdu len h) ?_
    exact ⟨hspur, fun hm => absurd hm hacc⟩
  · have hgroup : ∀ op ∈ handleRequests, getOpType op = .req ∧ op ∉ spuriousOpcodes :=
      forall_mem_of_all (by decide)
    obtain ⟨hreq, hspur⟩ := hgroup opcode h
    rw [ReplyDiscipline, if_pos hreq, receive_handle g l peer pdu len h,
      repliesOnce_accessHandle_iff g peer pdu _ l h]
    exact ⟨fun hf => ⟨hspur, fun _ => hf⟩, fun ha => ha.2 h⟩
  · have hgroup : ∀ op ∈ spuriousOpcodes, getOpType op ≠ .req :=
      forall_mem_of_all (by decide)
    rw [ReplyDiscipline, if_neg (hgroup opcode h),
      receive_default g l peer pdu len (List.mem_append_right _ h), sentPdus_sendAttError]
    exact iff_of_false (by simp) (fun ha => ha.1 h)

/-- The database of `services/battery.c`: the battery level with a client configuration,
laid out on the handles 1 to 4. -/
def batteryServer : GattServices Unit where
  serviceList := registerGattService []
    { (createService (.u16 0x180F) 0 0) with
        characterList := [createCharacter (.u16 0x2A19) 0x12] } .idle
  rspPdu := fun _ => 0
  rspLen := 0
  world := ()

/-- A read of handle 1, the service declaration, gets no reply at all. -/
theorem read_service_declaration_unanswered :
    ¬ ReplyDiscipline ⟨#v[1, 2, 3, 4, 5, 6]⟩ btAttOpReadReq
      (sentPdus (receive batteryServer ⟨.u16 0, Vector.replicate 16 0, 0⟩
        ⟨#v[1, 2, 3, 4, 5, 6]⟩ btAttOpReadReq (fun i => if i = 0 then 0x01 else 0x00) 2).2) := by
  rw [ReplyDiscipline, if_pos (by decide)]
  exact not_repliesOnce_nil _ _

end CCode.Gatt
