import CCode.Ota.Protocol

/-!
# Sessions

`main.c` repeats one session: make a socket, ask the server for an encrypted connection,
activate the device, ask for a new version. Each of the three steps sends a request and
polls for the first datagram. A session of the model is a function of what the environment
does in it, and it says which requests are given to the socket, which packets are accepted,
and which keys are given to the encryption device.

No request but the first is meant to be sent before a key is agreed on. But `req_enc_conn`
returns success where its own request could not be sent, and `sessions_ordered_iff` says
that this is the only way.

## Main definitions

* `Exchange`, `SessionInput` — what the environment does.
* `reqEncConn`, `activityDevice`, `checkVersion` — the steps.
* `session`, `run` — a session, and one after the other.
* `Ordered` — the requests come after a key.
* `Unguarded` — the sessions in which they do not.
-/

namespace CCode.Ota

open CCode.Lib

/-! ## Parameters -/

/-- `sOta_para_t`, and what lies behind it in memory. -/
structure OtaPara where
  deviceId : Vector UInt8 8
  chipId : Vector UInt8 8
  wifiAddr : Vector UInt8 6
  btAddr : Vector UInt8 6
  ubootVersion : Vector UInt8 8
  kernelVersion : Vector UInt8 8
  actState : UInt8
  behind : Mem

/-- `ACTIVITY_STATE_NOT_ACT`. -/
abbrev activityStateNotAct : UInt8 := 0

/-- The polls of `INIT_ENC_TIMEOUT_S`, `ACT_RECV_TIMEOUT_S` and `CHK_VERSION_TIMEOUT_S`
seconds. -/
abbrev timeoutPolls : ℕ := 3 * (1000000 / 10000)

/-- The size of the buffers for datagrams. -/
abbrev recvBufSize : ℕ := 1024

/-! ## The environment -/

/-- What the environment does while one request is made, sent and answered. -/
structure Exchange where
  /-- Whether `mem_malloc` has a buffer for the data of the request. -/
  alloc : Bool
  /-- The clock when the request is packed. -/
  packTime : Int
  /-- What `socket_send` returns. -/
  sendRes : Int
  /-- What the calls of `socket_recv` give: a datagram, or `none` where they fail. -/
  recv : ℕ → Option (List UInt8)
  /-- What `mem_malloc` gives `parse_package`. -/
  heap : Option Mem
  /-- The clock when the datagram is parsed. -/
  parseTime : Int
  /-- The buffer and the variables of the caller before they are assigned. -/
  buf : Mem
  reply : Reply

/-- What the environment does in a session. -/
structure SessionInput where
  /-- Whether `protocol_create` has its memory. -/
  alloc : Bool
  /-- Whether `socket_create` has a socket. -/
  socket : Bool
  para : OtaPara
  encConn : Exchange
  activity : Exchange
  version : Exchange

/-- What a session is seen to do. -/
inductive Event
  /-- A packet with this command is given to `socket_send`, which returns `res`. -/
  | send (cmd : UInt32) (packet : List UInt8) (res : Int)
  /-- `parse_package` has accepted a packet. -/
  | parsed (cmd : UInt32) (data : List UInt8)
  /-- `update_aes` was called and has returned `res`. -/
  | updateAes (key : List UInt8) (res : Int)

/-! ## Requests -/

/-- `pack_req_encrypt_comm`. -/
def packReqEncryptComm (enc : EncIf) (pro : Protocol) (now : Int) (para : OtaPara) :
    Option (List UInt8) :=
  packCommData enc .rsa
    (packValidData now pro.timeStampOffset.toUInt32 cmdReqEncryptComm para.deviceId.toList)

/-- The second half of the two functions below. -/
def packReq (enc : EncIf) (pro : Protocol) (alloc : Bool) (now : Int) (cmd : UInt32)
    (data : List UInt8) : Option (List UInt8) :=
  if alloc then
    packCommData enc (if pro.mode = .null then .null else .aes)
      (packValidData now pro.timeStampOffset.toUInt32 cmd data)
  else none

/-- `pack_req_activition`. -/
def packReqActivition (enc : EncIf) (pro : Protocol) (alloc : Bool) (now : Int)
    (para : OtaPara) : Option (List UInt8) :=
  packReq enc pro alloc now cmdReqActivition (para.deviceId.toList ++ para.chipId.toList ++
    para.wifiAddr.toList ++ para.btAddr.toList)

/-- `pack_req_new_version`. -/
def packReqNewVersion (enc : EncIf) (pro : Protocol) (alloc : Bool) (now : Int)
    (para : OtaPara) : Option (List UInt8) :=
  packReq enc pro alloc now cmdReqNewVersion (para.deviceId.toList ++ para.ubootVersion.toList ++
    para.kernelVersion.toList)

/-- The loop around `socket_recv`: the first datagram that is not empty, if one comes in
time. -/
def poll (recv : ℕ → Option (List UInt8)) : ℕ → ℕ → Option (List UInt8)
  | 0, _ => none
  | n + 1, i =>
      match recv i with
      | some (b :: bs) => some ((b :: bs).take recvBufSize)
      | _ => poll recv n (i + 1)

/-- The answer to a request, parsed. -/
def answer (enc : EncIf) (x : Exchange) (pro : Protocol) (packet : List UInt8) : Option Outcome :=
  (poll x.recv timeoutPolls 0).map fun datagram =>
    parsePackage enc x.parseTime x.heap pro x.reply ((x.buf.write 0 packet).write 0 datagram)
      datagram.length

/-- The data of a packet that was accepted. -/
def Reply.payload (reply : Reply) : List UInt8 := reply.data.read 0 reply.dataLen.toNat

/-! ## The steps -/

/-- `INIT_ENC_SUCCESS` and `INIT_ENC_ERROR`. -/
inductive InitEnc
  | success | error
  deriving DecidableEq, Repr

/-- `req_enc_conn`. -/
def reqEncConn (enc : EncIf) (x : Exchange) (para : OtaPara) (pro : Protocol) :
    InitEnc × Protocol × List Event :=
  match packReqEncryptComm enc pro x.packTime para with
  | none => (.error, pro, [])
  | some packet =>
      let sent := Event.send cmdReqEncryptComm packet x.sendRes
      if x.sendRes < 0 then (.success, pro, [sent])
      else
        match answer enc x pro packet with
        | none => (.error, pro, [sent])
        | some o =>
            if o.ret = .success then
              let parsed := Event.parsed o.reply.cmd o.reply.payload
              if o.reply.cmd = cmdAckEncryptComm ∧ o.reply.dataLen > 0 then
                let res := enc.updateAes o.reply.payload
                (if res = 0 then .success else .error, o.pro,
                  [sent, parsed, .updateAes o.reply.payload res])
              else (.error, o.pro, [sent, parsed])
            else (.error, o.pro, [sent])

/-- `ACTIVITY_SUCCESS` and `ACTIVITY_ERROR`. -/
inductive Activity
  | success | error
  deriving DecidableEq, Repr

/-- `activity_device`. -/
def activityDevice (enc : EncIf) (x : Exchange) (para : OtaPara) (pro : Protocol) :
    Activity × Protocol × List Event :=
  if para.actState = activityStateNotAct then
    match packReqActivition enc pro x.alloc x.packTime para with
    | none => (.error, pro, [])
    | some packet =>
        let sent := Event.send cmdReqActivition packet x.sendRes
        if x.sendRes < 0 then (.error, pro, [sent])
        else
          match answer enc x pro packet with
          | none => (.error, pro, [sent])
          | some o =>
              if o.ret = .success then
                let parsed := Event.parsed o.reply.cmd o.reply.payload
                if o.reply.cmd = cmdAckActivition ∧ o.reply.dataLen = 1 ∧
                    (o.reply.data 0 = 0 ∨ o.reply.data 0 = 1) then
                  (.success, o.pro, [sent, parsed])
                else (.error, o.pro, [sent, parsed])
              else (.error, o.pro, [sent])
  else (.success, pro, [])

/-- `strcmp` is zero, within the size of the arrays for the data. -/
def strEq : ℕ → Mem → Mem → Bool
  | 0, _, _ => false
  | n + 1, a, b =>
      a 0 = b 0 && (a 0 = 0 || strEq n (fun i => a (i + 1)) (fun i => b (i + 1)))

/-- `have_new_version`. -/
def haveNewVersion (para : OtaPara) (versionData : Mem) : Bool :=
  let versions := para.behind.write 0
    (para.ubootVersion.toList ++ para.kernelVersion.toList ++ [para.actState])
  if strEq validDataMaxLen versions versionData then false
  else if strEq validDataMaxLen (fun i => versions (8 + i)) (fun i => versionData (8 + i)) then
    false
  else true

/-- `CHK_VERSION_HAVE_NEW`, `CHK_VERSION_NO_NEW` and `CHK_VERSION_ERROR`. -/
inductive ChkVersion
  | haveNew | noNew | error
  deriving DecidableEq, Repr

/-- `check_version`. -/
def checkVersion (enc : EncIf) (x : Exchange) (para : OtaPara) (pro : Protocol) :
    ChkVersion × Protocol × List Event :=
  match packReqNewVersion enc pro x.alloc x.packTime para with
  | none => (.error, pro, [])
  | some packet =>
      let sent := Event.send cmdReqNewVersion packet x.sendRes
      if x.sendRes < 0 then (.error, pro, [sent])
      else
        match answer enc x pro packet with
        | none => (.error, pro, [sent])
        | some o =>
            if o.ret = .success then
              let parsed := Event.parsed o.reply.cmd o.reply.payload
              if o.reply.cmd = cmdAckNewVersion ∧ o.reply.dataLen > 0 then
                -- the two results stand the other way round than their names
                (if haveNewVersion para o.reply.data then .noNew else .haveNew, o.pro,
                  [sent, parsed])
              else (.error, o.pro, [sent, parsed])
            else (.error, o.pro, [sent])

/-! ## Sessions -/

/-- `protocol_create`. -/
def protocolCreate (mode : Encrypt) (alloc : Bool) : Option Protocol :=
  if alloc then some ⟨mode, 0⟩ else none

/-- What a session does once it may communicate. -/
def requests (enc : EncIf) (x : SessionInput) (pro : Protocol) : List Event :=
  let (res, pro', log) := activityDevice enc x.activity x.para pro
  if res = .success then log ++ (checkVersion enc x.version x.para pro').2.2 else log

/-- A session that has a protocol and a socket. -/
def sessionLog (enc : EncIf) (x : SessionInput) (pro : Protocol) : List Event :=
  let (res, pro', log) :=
    if pro.mode ≠ .null then reqEncConn enc x.encConn x.para pro else (.success, pro, [])
  if ¬ (pro.mode ≠ .null ∧ res ≠ .success) then log ++ requests enc x pro' else log

/-- An iteration of the loop of `main`, `none` where the program exits. -/
def session (enc : EncIf) (mode : Encrypt) (x : SessionInput) : Option (List Event) := do
  let pro ← protocolCreate mode x.alloc
  if x.socket then some (sessionLog enc x pro) else none

/-- The sessions of a run, as far as it gets. -/
def run (enc : EncIf) (mode : Encrypt) : List SessionInput → List (List Event)
  | [] => []
  | x :: xs =>
      match session enc mode x with
      | none => []
      | some log => log :: run enc mode xs

/-! ## The order of a session -/

/-- A request that is to be encrypted with the key of the session. -/
def Event.IsRequest : Event → Prop
  | send cmd _ _ => cmd = cmdReqActivition ∨ cmd = cmdReqNewVersion
  | _ => False

/-- An acknowledgement was accepted, and then its key. -/
def KeyAgreed (log : List Event) : Prop :=
  ∃ key, [Event.parsed cmdAckEncryptComm key, .updateAes key 0].Sublist log

/-- Every request comes after a key. -/
def Ordered (log : List Event) : Prop :=
  ∀ pre e post, log = pre ++ e :: post → e.IsRequest → KeyAgreed pre

/-- The next request can be made: for the activation, or for the version if the device is
activated. -/
def Packs (enc : EncIf) (x : SessionInput) (pro : Protocol) : Prop :=
  if x.para.actState = activityStateNotAct then
    (packReqActivition enc pro x.activity.alloc x.activity.packTime x.para).isSome
  else (packReqNewVersion enc pro x.version.alloc x.version.packTime x.para).isSome

/-- The request for a connection cannot be sent, and the next one can be made. -/
def Unguarded (enc : EncIf) (mode : Encrypt) (x : SessionInput) : Prop :=
  x.encConn.sendRes < 0 ∧
    (packReqEncryptComm enc ⟨mode, 0⟩ x.encConn.packTime x.para).isSome ∧ Packs enc x ⟨mode, 0⟩

@[simp] theorem not_isRequest_encryptComm (packet : List UInt8) (res : Int) :
    ¬ (Event.send cmdReqEncryptComm packet res).IsRequest := by
  rintro (h | h)
  · exact absurd h (by decide)
  · exact absurd h (by decide)

@[simp] theorem not_isRequest_parsed (cmd : UInt32) (data : List UInt8) :
    ¬ (Event.parsed cmd data).IsRequest := id

@[simp] theorem not_isRequest_updateAes (key : List UInt8) (res : Int) :
    ¬ (Event.updateAes key res).IsRequest := id

/-- There is no request in the log. -/
def NoRequest (log : List Event) : Prop := ∀ e ∈ log, ¬ e.IsRequest

theorem ordered_of_noRequest {log : List Event} (h : NoRequest log) : Ordered log := by
  rintro pre e post rfl he
  exact absurd he (h e (by simp))

/-- After a key every request is in order. -/
theorem ordered_append {log : List Event} (hkey : KeyAgreed log) (h : NoRequest log)
    (rest : List Event) : Ordered (log ++ rest) := by
  intro pre e post heq he
  rcases List.append_eq_append_iff.mp heq with ⟨mid, rfl, -⟩ | ⟨mid, hlog, hrest⟩
  · obtain ⟨key, hsub⟩ := hkey
    exact ⟨key, hsub.trans (List.sublist_append_left log mid)⟩
  · -- the request would be in the log, unless the log ends there
    rcases mid with _ | ⟨e', mid⟩
    · rw [List.append_nil] at hlog
      exact hlog ▸ hkey
    · obtain rfl : e = e' := (List.cons.inj hrest).1
      exact absurd he (h e (by simp [hlog]))

/-- `req_enc_conn` where its request cannot be sent. -/
theorem reqEncConn_of_send_fails {enc : EncIf} {x : Exchange} {para : OtaPara} {pro : Protocol}
    {packet : List UInt8} (hpack : packReqEncryptComm enc pro x.packTime para = some packet)
    (hsend : x.sendRes < 0) :
    reqEncConn enc x para pro =
      (.success, pro, [.send cmdReqEncryptComm packet x.sendRes]) := by
  simp only [reqEncConn, hpack, hsend, if_true]

/-- **Otherwise it succeeds only with a key.** -/
theorem reqEncConn_guarded {enc : EncIf} {x : Exchange} {para : OtaPara} {pro : Protocol}
    (h : ¬ (x.sendRes < 0 ∧ (packReqEncryptComm enc pro x.packTime para).isSome)) :
    NoRequest (reqEncConn enc x para pro).2.2 ∧
      ((reqEncConn enc x para pro).1 = .success → KeyAgreed (reqEncConn enc x para pro).2.2) := by
  cases hpack : packReqEncryptComm enc pro x.packTime para with
  | none => simp [reqEncConn, hpack, NoRequest]
  | some packet =>
      have hsend : ¬ x.sendRes < 0 := fun hlt => h ⟨hlt, by rw [hpack]; rfl⟩
      simp only [reqEncConn, hpack, hsend, if_false]
      cases answer enc x pro packet with
      | none => simp [NoRequest]
      | some o =>
          by_cases hret : o.ret = .success
          · by_cases hack : o.reply.cmd = cmdAckEncryptComm ∧ o.reply.dataLen > 0
            · simp only [hret, hack, and_self, if_true]
              refine ⟨by simp [NoRequest], fun hres => ?_⟩
              have hzero : enc.updateAes o.reply.payload = 0 := by
                by_contra hne
                simp [hne] at hres
              refine ⟨o.reply.payload, List.Sublist.cons _ ?_⟩
              rw [hzero]
            · simp [hret, hack, NoRequest]
          · simp [hret, NoRequest]

/-- What `activity_device` sends first. -/
theorem activityDevice_of_packs {enc : EncIf} {x : Exchange} {para : OtaPara} {pro : Protocol}
    {packet : List UInt8} (hstate : para.actState = activityStateNotAct)
    (hpack : packReqActivition enc pro x.alloc x.packTime para = some packet) :
    ∃ rest, (activityDevice enc x para pro).2.2 =
      .send cmdReqActivition packet x.sendRes :: rest := by
  simp only [activityDevice, hstate, if_true, hpack]
  by_cases hsend : x.sendRes < 0
  · simp [hsend]
  · simp only [hsend, if_false]
    cases answer enc x pro packet with
    | none => exact ⟨[], rfl⟩
    | some o =>
        dsimp only
        split_ifs <;> exact ⟨_, rfl⟩

/-- What `check_version` sends first. -/
theorem checkVersion_of_packs {enc : EncIf} {x : Exchange} {para : OtaPara} {pro : Protocol}
    {packet : List UInt8}
    (hpack : packReqNewVersion enc pro x.alloc x.packTime para = some packet) :
    ∃ rest, (checkVersion enc x para pro).2.2 =
      .send cmdReqNewVersion packet x.sendRes :: rest := by
  simp only [checkVersion, hpack]
  by_cases hsend : x.sendRes < 0
  · simp [hsend]
  · simp only [hsend, if_false]
    cases answer enc x pro packet with
    | none => exact ⟨[], rfl⟩
    | some o =>
        dsimp only
        split_ifs <;> exact ⟨_, rfl⟩

/-- If the next request can be made, it is what comes first. -/
theorem requests_of_packs {enc : EncIf} {x : SessionInput} {pro : Protocol}
    (h : Packs enc x pro) : ∃ e rest, requests enc x pro = e :: rest ∧ e.IsRequest := by
  by_cases hstate : x.para.actState = activityStateNotAct
  · rw [Packs, if_pos hstate, Option.isSome_iff_exists] at h
    obtain ⟨packet, hpack⟩ := h
    obtain ⟨rest, hlog⟩ := activityDevice_of_packs hstate hpack
    simp only [requests, hlog]
    split_ifs <;> exact ⟨_, _, rfl, .inl rfl⟩
  · rw [Packs, if_neg hstate, Option.isSome_iff_exists] at h
    obtain ⟨packet, hpack⟩ := h
    obtain ⟨rest, hlog⟩ := checkVersion_of_packs hpack
    refine ⟨.send cmdReqNewVersion packet x.version.sendRes, rest, ?_, Or.inr rfl⟩
    simp [requests, activityDevice, hstate, hlog]

/-- Otherwise there is none. -/
theorem requests_of_not_packs {enc : EncIf} {x : SessionInput} {pro : Protocol}
    (h : ¬ Packs enc x pro) : requests enc x pro = [] := by
  by_cases hstate : x.para.actState = activityStateNotAct
  · rw [Packs, if_pos hstate, Option.not_isSome_iff_eq_none] at h
    simp [requests, activityDevice, hstate, h]
  · rw [Packs, if_neg hstate, Option.not_isSome_iff_eq_none] at h
    simp [requests, activityDevice, hstate, checkVersion, h]

/-- A session that is to be encrypted, by what `req_enc_conn` returns. -/
theorem sessionLog_encrypted (enc : EncIf) {mode : Encrypt} (hmode : mode ≠ .null)
    (x : SessionInput) :
    sessionLog enc x ⟨mode, 0⟩ =
      if (reqEncConn enc x.encConn x.para ⟨mode, 0⟩).1 = .success then
        (reqEncConn enc x.encConn x.para ⟨mode, 0⟩).2.2 ++
          requests enc x (reqEncConn enc x.encConn x.para ⟨mode, 0⟩).2.1
      else (reqEncConn enc x.encConn x.para ⟨mode, 0⟩).2.2 := by
  simp only [sessionLog, ne_eq, hmode, not_false_eq_true, if_true, true_and, not_not]

/-- **A session is in order exactly if it is guarded.** -/
theorem sessionLog_ordered_iff (enc : EncIf) {mode : Encrypt} (hmode : mode ≠ .null)
    (x : SessionInput) : Ordered (sessionLog enc x ⟨mode, 0⟩) ↔ ¬ Unguarded enc mode x := by
  rw [sessionLog_encrypted enc hmode]
  by_cases hfails : x.encConn.sendRes < 0 ∧
      (packReqEncryptComm enc ⟨mode, 0⟩ x.encConn.packTime x.para).isSome
  · obtain ⟨packet, hpack⟩ := Option.isSome_iff_exists.mp hfails.2
    have hconn := reqEncConn_of_send_fails hpack hfails.1
    simp only [hconn, if_true]
    by_cases hpacks : Packs enc x ⟨mode, 0⟩
    · -- the next request is sent, and nothing was parsed yet
      have hunguarded : Unguarded enc mode x := ⟨hfails.1, hfails.2, hpacks⟩
      obtain ⟨e, rest, hlog, he⟩ := requests_of_packs hpacks
      simp only [hunguarded, not_true, iff_false, hlog]
      intro hordered
      obtain ⟨key, hsub⟩ :=
        hordered [.send cmdReqEncryptComm packet x.encConn.sendRes] e rest rfl he
      exact absurd hsub.length_le (by simp)
    · have hguarded : ¬ Unguarded enc mode x := fun h => hpacks h.2.2
      simp only [hguarded, not_false_eq_true, iff_true, requests_of_not_packs hpacks]
      exact ordered_of_noRequest (by simp [NoRequest])
  · have hguarded : ¬ Unguarded enc mode x := fun h => hfails ⟨h.1, h.2.1⟩
    obtain ⟨hnone, hkey⟩ := reqEncConn_guarded hfails
    simp only [hguarded, not_false_eq_true, iff_true]
    split_ifs with hres
    · exact ordered_append (hkey hres) hnone _
    · exact ordered_of_noRequest hnone

/-! ## Runs -/

/-- The sessions that a run gets to. -/
def reached (enc : EncIf) (mode : Encrypt) (xs : List SessionInput) : List SessionInput :=
  xs.takeWhile fun x => (session enc mode x).isSome

/-- A session that starts is one with a fresh protocol. -/
theorem session_eq_some {enc : EncIf} {mode : Encrypt} {x : SessionInput} {log : List Event}
    (h : session enc mode x = some log) : log = sessionLog enc x ⟨mode, 0⟩ := by
  simp only [session, protocolCreate] at h
  split_ifs at h <;> simp_all

/-- A device that is not activated. -/
def newDevice : OtaPara where
  deviceId := Vector.replicate 8 1
  chipId := Vector.replicate 8 2
  wifiAddr := Vector.replicate 6 3
  btAddr := Vector.replicate 6 4
  ubootVersion := Vector.replicate 8 0
  kernelVersion := Vector.replicate 8 0
  actState := activityStateNotAct
  behind := fun _ => 0

/-- An exchange in which `socket_send` returns `sendRes` and this datagram is received. -/
def exchange (sendRes : Int) (datagram : Option (List UInt8)) : Exchange where
  alloc := true
  packTime := 0
  sendRes
  recv := fun _ => datagram
  heap := some fun _ => 0
  parseTime := 0
  buf := fun _ => 0
  reply := ⟨0, fun _ => 0, 0⟩

/-- A session in which the first request is answered with a key of one byte, and the others
with nothing. -/
def keyedSession : SessionInput where
  alloc := true
  socket := true
  para := newDevice
  encConn := exchange 23 (some [0x58, 0x01, 0x00, 0x0C, 0x4A, 0x5A, 0x00, 0x08, 0x00, 0x00, 0x00,
    0x00, 0x00, 0x02, 0x2A, 0xD8])
  activity := exchange 43 none
  version := exchange 39 none

/-- A session in which the first request cannot be sent, and the next one can. -/
def keylessSession : SessionInput :=
  { keyedSession with encConn := exchange (-1) none }

end CCode.Ota
