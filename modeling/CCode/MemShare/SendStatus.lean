import CCode.MemShare.Registration

/-!
# The status of a send

`pc_c_send` looks a peer up in the list of devices, asks the server for the channel of a
peer that is not there, sends, and returns `data.err`. But the callback of the send,
`pc_c_send_ret_cb`, passes the status of the response on to its own caller and leaves
`data.err` alone; only the callback of the lookup writes it. So a first send returns what
the lookup left, and a send to a known peer returns whatever the stack held. `wi_send` above
it returns what `ret_cb` was told, but only after a result of `pc_c_send` that is not
negative.

`send_status_iff` says for which calls the result is right all the same.

## Main definitions

* `SendEnv`, `SendState` — what a call gets from outside, and what it leaves.
* `pcCSend`, `wiSend` — the calls.
* `StatusCorrect` — what their results are to be.
-/

namespace CCode.MemShare

open CCode.Lib

/-! ## The code -/

/-- What a call gets from outside: how the exchange with the server ends and what is in its
buffer then, where the new device goes and what its memory held (`none` if an allocation
fails), and the same two of the exchange with the remote. -/
structure SendEnv where
  lookup : SendResult
  lookupReply : Mem
  dev : Option (ℕ × Vector UInt8 maxClientIdLen × UInt32)
  sent : SendResult
  reply : Mem

/-- The storage that a call works on: the list of devices, `err` of `struct
pc_c_send_data`, and `res` of `struct wi_send_data`. Neither of the two is initialised. -/
structure SendState where
  devList : List PcSClient
  err : UInt32
  res : UInt32

/-- `ipc_send_cmd` has called the response callback. -/
def SendResult.answered : SendResult → Bool
  | .completed | .vSendFailed => true
  | .pSendFailed | .vSReadFailed | .pCReadFailed _ => false

/-- `pc_c_get_client_rsp_cb`. The identifiers of the channel are read into a record whose
keys are cleared. -/
def pcCGetClientRsp (id : ClientId) (env : SendEnv) (s : SendState) : SendState :=
  let err := env.lookupReply.u32 4
  if env.lookupReply.u32 0 ≠ cmdGetClientRsp ∨ err ≠ cmdSuccess then { s with err }
  else
    match env.dev with
    | none => { s with err := cmdFailed }
    | some (addr, residue, pid) =>
        match ipcCmdRemoteInit none ⟨0, 0, readIpcCmd env.lookupReply⟩ with
        | none => { s with err := cmdFailed }
        | some c =>
            let dev : PcSClient := ⟨addr, c.cmd, .copied residue id.data.toList id.len, pid⟩
            { s with devList := dev :: s.devList, err := cmdSuccess }

/-- `ret_cb` of `wi_bus.c`. -/
def retCb (status : UInt32) (s : SendState) : SendState := { s with res := status }

/-- `pc_c_send_ret_cb`. -/
def pcCSendRetCb (reply : Mem) (s : SendState) : SendState :=
  if reply.u32 0 ≠ cmdDataSendRsp then s else retCb (reply.u32 4) s

/-- The second half of `pc_c_send`: the exchange with the device, which is removed if the
exchange fails. -/
def sendToDev (dev : PcSClient) (env : SendEnv) (s : SendState) : SendState × UInt32 :=
  let s := if env.sent.answered then pcCSendRetCb env.reply s else s
  if env.sent ≠ .completed then
    ({ s with devList := removeClient s.devList dev }, cmdFailed)
  else (s, s.err)

/-- `pc_c_send` to one client, with its result. A failed `semop` is -1. -/
def pcCSend (id : ClientId) (env : SendEnv) (s : SendState) : SendState × UInt32 :=
  match findClient s.devList id.data.toList id.len with
  | some dev => sendToDev dev env s
  | none =>
      let s := if env.lookup.answered then pcCGetClientRsp id env s else s
      if env.lookup ≠ .completed then (s, cmdFailed)
      else
        match findClient s.devList id.data.toList id.len with
        | none => (s, cmdFailed)
        | some dev => sendToDev dev env s

/-- `wi_send` to one client. -/
def wiSend (id : ClientId) (env : SendEnv) (s : SendState) : UInt32 :=
  let (s, res) := pcCSend id env s
  if res.toInt32 < 0 then res else s.res

/-! ## What it is for -/

/-- The device of a peer, if it is in the list. -/
def knownDev (id : ClientId) (devList : List PcSClient) : Option PcSClient :=
  findClient devList id.data.toList id.len

/-- The exchange with the remote took place and completed. -/
def Exchanged (id : ClientId) (env : SendEnv) (devList : List PcSClient) : Prop :=
  env.sent = .completed ∧ ((knownDev id devList).isSome ∨ env.lookup = .completed ∧
    (knownDev id (pcCGetClientRsp id env ⟨devList, 0, 0⟩).devList).isSome)

/-- The response of the remote carried `CMD_SUCCESS`. -/
def Acknowledged (reply : Mem) : Prop := reply.u32 0 = cmdDataSendRsp ∧ reply.u32 4 = cmdSuccess

/-- Both calls return success exactly if the remote said so, and neither result depends on
what the uninitialised fields held. -/
structure StatusCorrect (id : ClientId) (env : SendEnv) (devList : List PcSClient) : Prop where
  pcCSend : ∀ err res, (pcCSend id env ⟨devList, err, res⟩).2 = cmdSuccess ↔
    Acknowledged env.reply
  wiSend : ∀ err res, wiSend id env ⟨devList, err, res⟩ = cmdSuccess ↔ Acknowledged env.reply
  initialised : ∀ err res err' res',
    (MemShare.pcCSend id env ⟨devList, err, res⟩).2 =
        (MemShare.pcCSend id env ⟨devList, err', res'⟩).2 ∧
      MemShare.wiSend id env ⟨devList, err, res⟩ = MemShare.wiSend id env ⟨devList, err', res'⟩

/-! ## The callbacks -/

@[simp] theorem pcCSendRetCb_err (reply : Mem) (s : SendState) :
    (pcCSendRetCb reply s).err = s.err := by
  simp only [pcCSendRetCb, retCb]
  split <;> rfl

theorem pcCSendRetCb_res (reply : Mem) (s : SendState) :
    (pcCSendRetCb reply s).res = if reply.u32 0 = cmdDataSendRsp then reply.u32 4 else s.res := by
  by_cases h : reply.u32 0 = cmdDataSendRsp <;> simp [pcCSendRetCb, retCb, h]

/-- The callback of the lookup leaves the list alone, or it adds a device and reports a
success. It does not look at what the fields held. -/
theorem pcCGetClientRsp_cases (id : ClientId) (env : SendEnv) (devList : List PcSClient) :
    (∀ err res, (pcCGetClientRsp id env ⟨devList, err, res⟩).devList = devList) ∨
      ∃ dev, ∀ err res,
        pcCGetClientRsp id env ⟨devList, err, res⟩ = ⟨dev :: devList, cmdSuccess, res⟩ := by
  by_cases hrsp : env.lookupReply.u32 0 ≠ cmdGetClientRsp ∨ env.lookupReply.u32 4 ≠ cmdSuccess
  · left
    intro err res
    simp only [pcCGetClientRsp, if_pos hrsp]
  cases hdev : env.dev with
  | none =>
      left
      intro err res
      simp only [pcCGetClientRsp, if_neg hrsp, hdev]
  | some dev =>
      cases hinit : ipcCmdRemoteInit none ⟨0, 0, readIpcCmd env.lookupReply⟩ with
      | none =>
          left
          intro err res
          simp only [pcCGetClientRsp, if_neg hrsp, hdev, hinit]
      | some c =>
          right
          refine ⟨⟨dev.1, c.cmd, .copied dev.2.1 id.data.toList id.len, dev.2.2⟩, ?_⟩
          intro err res
          simp only [pcCGetClientRsp, if_neg hrsp, hdev, hinit]

section Results

variable {id : ClientId} {env : SendEnv} {devList : List PcSClient}

/-- A send to a known device returns what `err` held. -/
theorem pcCSend_known (hsent : env.sent = .completed) (hknown : (knownDev id devList).isSome)
    (err res : UInt32) :
    pcCSend id env ⟨devList, err, res⟩ = (pcCSendRetCb env.reply ⟨devList, err, res⟩, err) := by
  obtain ⟨dev, hdev⟩ := Option.isSome_iff_exists.mp hknown
  simp only [knownDev] at hdev
  simp only [pcCSend, hdev, sendToDev, hsent, SendResult.answered, if_true, ne_eq, not_true,
    if_false, pcCSendRetCb_err]

/-- A send to a device that had to be looked up returns a success, whatever the response. -/
theorem pcCSend_first (hex : Exchanged id env devList) (hnew : knownDev id devList = none) :
    ∃ devList', ∀ err res, pcCSend id env ⟨devList, err, res⟩ =
      (pcCSendRetCb env.reply ⟨devList', cmdSuccess, res⟩, cmdSuccess) := by
  obtain ⟨hsent, hknown | ⟨hlookup, hfound⟩⟩ := hex
  · simp [hnew] at hknown
  rcases pcCGetClientRsp_cases id env devList with hsame | ⟨dev, hadd⟩
  · rw [hsame, hnew] at hfound
    simp at hfound
  · refine ⟨dev :: devList, fun err res => ?_⟩
    rw [hadd] at hfound
    obtain ⟨dev', hdev'⟩ := Option.isSome_iff_exists.mp hfound
    simp only [knownDev] at hdev' hnew
    simp only [pcCSend, hnew, hlookup, SendResult.answered, if_true, hadd, ne_eq, not_true,
      if_false, hdev', sendToDev, hsent, pcCSendRetCb_err]

/-- **The status of a send.** For every list of devices that earlier sends have left, every
peer and every response: the status of a completed exchange is right exactly if the peer
had to be looked up and the response is a success. -/
theorem send_status_iff (hex : Exchanged id env devList) :
    StatusCorrect id env devList ↔ knownDev id devList = none ∧ Acknowledged env.reply := by
  constructor
  · intro h
    cases hdev : knownDev id devList with
    | some dev =>
        -- the result is whatever `err` held, so it is a success and it is not
        have hresult := pcCSend_known hex.1 (by simp [hdev] : (knownDev id devList).isSome)
        have hack := (h.pcCSend cmdSuccess 0).mp (by rw [hresult])
        have hfail := (h.pcCSend cmdFailed 0).mpr hack
        rw [hresult] at hfail
        exact absurd hfail (by decide : cmdFailed ≠ cmdSuccess)
    | none =>
        obtain ⟨devList', hresult⟩ := pcCSend_first hex hdev
        exact ⟨rfl, (h.pcCSend 0 0).mp (by rw [hresult])⟩
  · rintro ⟨hnew, hack⟩
    obtain ⟨devList', hresult⟩ := pcCSend_first hex hnew
    have hwi : ∀ err res, wiSend id env ⟨devList, err, res⟩ = cmdSuccess := by
      intro err res
      have hpos : ¬ cmdSuccess.toInt32 < 0 := by decide
      simp only [wiSend, hresult, hpos, if_false, pcCSendRetCb_res, hack.1, hack.2, if_true]
    refine ⟨fun err res => ?_, fun err res => ?_, fun err res err' res' => ?_⟩
    · simp [hresult, hack]
    · simp [hwi, hack]
    · simp [hresult, hwi]

end Results

/-- The server's answer to a lookup, and the response of a remote. -/
def foundReply : Mem :=
  Mem.write (fun _ => 0) 0 (rspBytes cmdGetClientRsp cmdSuccess (firstAlloc.channel 1800).bytes)

def statusReply (status : UInt32) : Mem :=
  Mem.write (fun _ => 0) 0 (rspBytes cmdDataSendRsp status [])

/-- Both exchanges complete. -/
def sendOk (status : UInt32) : SendEnv :=
  ⟨.completed, foundReply, some (1, firstAlloc.residue, 0), .completed, statusReply status⟩

/-- The list after a first send. -/
def firstKnown : List PcSClient :=
  (pcCSend firstId.toClientId (sendOk cmdSuccess) ⟨[], 0, 0⟩).1.devList

theorem send_status_first :
    Exchanged firstId.toClientId (sendOk cmdSuccess) [] ∧
      StatusCorrect firstId.toClientId (sendOk cmdSuccess) [] := by
  have hex : Exchanged firstId.toClientId (sendOk cmdSuccess) [] :=
    ⟨rfl, .inr ⟨rfl, by decide⟩⟩
  refine ⟨hex, (send_status_iff hex).mpr ⟨rfl, ?_, ?_⟩⟩
  · decide
  · decide

/-- A second send to the same peer, which the remote acknowledges, fails if the stack held
-1. -/
theorem send_status_cached_wrong :
    Exchanged firstId.toClientId (sendOk cmdSuccess) firstKnown ∧
      ¬ StatusCorrect firstId.toClientId (sendOk cmdSuccess) firstKnown := by
  refine ⟨⟨rfl, .inl (by decide)⟩, fun h => ?_⟩
  have hack : Acknowledged (sendOk cmdSuccess).reply := ⟨by decide, by decide⟩
  have hfail : (pcCSend firstId.toClientId (sendOk cmdSuccess)
      ⟨firstKnown, cmdFailed, 0⟩).2 ≠ cmdSuccess := by decide
  exact hfail ((h.pcCSend cmdFailed 0).mpr hack)

end CCode.MemShare
