import CCode.Gatt.Routing

/-!
# The MTU and the length of what is sent

Before an MTU exchange a peer takes PDUs of up to 23 bytes, after one as many as was agreed.
The server keeps no record of that: `mtu_rsp` echoes what the peer asks for, whatever it is,
and the HID service keeps the last MTU that any peer asked for, in one `device` for all.

Nearly everything that the server sends is short enough for any peer. Only the report map is
cut to the MTU of `device`, and that may be another peer's, or zero after somebody has
disconnected, which leaves the map uncut. `pdus_fit_mtu` is for all runs of the server with
any number of peers: as long as nobody asks for an MTU below 23 and the report map is read
only by peers that it fits, all PDUs are at most as long as their peer's MTU.

## Main definitions

* `Link` — the server and what was agreed with each peer.
* `FitsMtu` — what a step sends is not too long.
* `Roomy` — the condition on a step.
* `Served` — the other services answer a read with at most 22 bytes.
-/

namespace CCode.Gatt

open CCode.Lib

variable {σ τ : Type}

/-! ## Peers -/

/-- The server, and the MTU agreed with each peer. -/
structure Link (τ : Type) where
  server : GattServices (Hid × τ)
  agreed : BdAddr → ℕ

/-- The MTU after a step. The server echoes what a peer asks for, so that is agreed; a new
connection starts from the default. -/
def agree (agreed : BdAddr → ℕ) : Input → BdAddr → ℕ
  | .pdu _ addr opcode pdu _ =>
      if opcode = btAttOpMtuReq then Function.update agreed addr (pdu.u16 0).toNat else agreed
  | .connected addr | .disconnected addr => Function.update agreed addr btAttDefaultLeMtu.toNat
  | .key _ _ => agreed

/-- One step of the server, with its peers. -/
def linkStep (x : Link τ) (i : Input) : Option (Link τ) :=
  some ⟨(serve x.server i).1, agree x.agreed i⟩

/-- The length of a PDU, with its opcode. -/
def Pdu.size (p : Pdu) : ℕ := 1 + p.params.length

/-- All PDUs sent are at most as long as the MTU of the peer they go to. -/
def SendsWithin (agreed : BdAddr → ℕ) (es : List (Event σ)) : Prop :=
  ∀ sent ∈ sentPdus es, sent.2.size ≤ agreed sent.1

/-- What the step sends is not too long. -/
def FitsMtu (x : Link τ) (i : Input) : Prop := SendsWithin x.agreed (serve x.server i).2

/-! ## The condition -/

/-- The PDU is a read, or a blob read, from the offset on. -/
def AsksFrom (opcode : UInt8) (pdu : Mem) (offset : ℕ) : Prop :=
  opcode = btAttOpReadReq ∧ offset = 0 ∨
    opcode = btAttOpReadBlobReq ∧ offset = (pdu.u16 2).toNat

/-- The characteristic is the report map. -/
def IsMap (s : GattService (Hid × τ)) (c : GattCharacter) : Prop :=
  s.ioCb = hidCb ∧ btUuidCmp c.uuid uReportMap = 0

/-- The PDU reads the report map from the offset on. -/
def ReadsMap (ss : List (GattService (Hid × τ))) (opcode : UInt8) (pdu : Mem) (offset : ℕ) :
    Prop :=
  AsksFrom opcode pdu offset ∧
    ∃ s c, getHandleInfo ss (pdu.u16 0) = some (s, c, .character) ∧ IsMap s c

/-- The MTU of `device` is no larger than the peer's, or all of the map that is left fits. -/
def MapFits (mtu : Int) (agreed offset : ℕ) : Prop :=
  0 < mtu ∧ mtu ≤ agreed ∨ offset ≤ hidMap.length ∧ hidMap.length - offset < agreed

/-- A peer asks for no MTU below the default, and reads the report map only if it fits. -/
def Roomy (x : Link τ) : Input → Prop
  | .pdu _ addr opcode pdu _ =>
      (opcode = btAttOpMtuReq → 23 ≤ (pdu.u16 0).toNat) ∧
      ∀ offset, ReadsMap x.server.serviceList opcode pdu offset →
        MapFits x.server.world.1.device.mtu (x.agreed addr) offset
  | _ => True

/-- The report map is not read from behind its end with an MTU of zero, which would copy
nearly all of the memory. -/
def InMap (x : Link τ) : Input → Prop
  | .pdu _ _ opcode pdu _ =>
      ∀ offset, ReadsMap x.server.serviceList opcode pdu offset →
        x.server.world.1.device.mtu = 0 → offset ≤ hidMap.length
  | _ => True

/-! ## The database -/

/-- The callbacks answer a read with at most 22 bytes. -/
structure GattsCb.Brief (cb : GattsCb σ) : Prop where
  read : ∀ addr uuid w buf, (cb.onCharacterRead addr uuid w buf 0).2.2.toNat ≤ 22
  readBlob : ∀ f, cb.onCharacterReadBlob = some f →
    ∀ addr uuid w offset buf, (f addr uuid w offset buf 0).2.2.toNat ≤ 22

/-- Every service is the HID service, or leaves its state alone and is brief. -/
def Served (ss : List (GattService (Hid × τ))) : Prop :=
  ∀ s ∈ ss, s.ioCb = hidCb ∨ s.ioCb.Foreign ∧ s.ioCb.Brief

theorem Served.hosted {ss : List (GattService (Hid × τ))} (h : Served ss) : Hosted ss := by
  intro s hs
  exact (h s hs).imp_right And.left

theorem serve_served {g : GattServices (Hid × τ)} (h : Served g.serviceList) (i : Input) :
    Served (serve g i).1.serviceList :=
  serve_forall_ioCb (P := fun cb => cb = hidCb ∨ cb.Foreign ∧ cb.Brief) h i

/-! ## Short PDUs -/

section Short

variable {agreed : BdAddr → ℕ} {addr : BdAddr}

theorem sendsWithin_nil : SendsWithin agreed ([] : List (Event σ)) := by
  intro sent hsent
  simp at hsent

@[simp] theorem sendsWithin_call (s : GattService σ) (callback : Callback)
    (es : List (Event σ)) :
    SendsWithin agreed (.call s callback :: es) ↔ SendsWithin agreed es := Iff.rfl

/-- A response fits if its parameters leave room for the opcode. -/
theorem sendsWithin_gattSend_iff {opcode : UInt8} (hop : getOpType opcode = .rsp)
    (rsp : List UInt8) :
    SendsWithin agreed (gattSend addr opcode.toUInt16 rsp : List (Event σ)) ↔
      rsp.length < agreed addr := by
  rw [SendsWithin, sentPdus_gattSend addr rsp hop]
  simp only [List.mem_singleton, forall_eq, Pdu.size]
  omega

theorem length_readByTypeEntry_le (s : GattService σ) (c : GattCharacter) :
    (readByTypeEntry s c).length ≤ 22 := by
  rw [readByTypeEntry]
  split <;> simp [le16, le32]

theorem length_readByGrpTypeEntry_le (s : GattService σ) :
    (readByGrpTypeEntry s).length ≤ 21 := by
  rw [readByGrpTypeEntry]
  split <;> simp [le16]

variable (hfloor : 23 ≤ agreed addr)

include hfloor

theorem sendsWithin_sendAttError (opcode : UInt8) (handle : UInt16) (errCode : UInt8) :
    SendsWithin agreed (sendAttError addr opcode.toUInt16 handle errCode : List (Event σ)) := by
  refine (sendsWithin_gattSend_iff (by decide) _).mpr ?_
  simp only [le16, List.length_append, List.length_cons, List.length_nil]
  omega

theorem sendsWithin_mtuRsp (g : GattServices σ) (mtu : UInt16) :
    SendsWithin agreed (mtuRsp g addr mtu).2 := by
  have hrsp : SendsWithin agreed
      (gattSend addr btAttOpMtuRsp.toUInt16 (le16 mtu) : List (Event σ)) := by
    refine (sendsWithin_gattSend_iff (by decide) _).mpr ?_
    simp only [le16, List.length_cons, List.length_nil]
    omega
  intro sent hsent
  simp only [mtuRsp, sentPdus_append, sentPdus_mtuChange, List.append_nil] at hsent
  exact hrsp sent hsent

theorem sendsWithin_findInfoRsp (ss : List (GattService σ)) (r : HandleRange) :
    SendsWithin agreed (findInfoRsp ss addr r) := by
  rw [findInfoRsp]
  split
  · refine (sendsWithin_gattSend_iff (by decide) _).mpr ?_
    split_ifs <;> simp only [le16, List.length_append, List.length_cons, List.length_nil] <;>
      omega
  · exact sendsWithin_sendAttError hfloor _ _ _

theorem sendsWithin_readByTypeRsp (ss : List (GattService σ)) (r : HandleRange) (uuid : BtUuid)
    (l : Locals) : SendsWithin agreed (readByTypeRsp ss addr r uuid l) := by
  rw [readByTypeRsp]
  split
  · split
    case h_1 s c _ =>
      have hlen := length_readByTypeEntry_le s c
      exact (sendsWithin_gattSend_iff (by decide) _).mpr (by omega)
    case h_2 => exact sendsWithin_sendAttError hfloor _ _ _
  · exact sendsWithin_sendAttError hfloor _ _ _

theorem sendsWithin_readByGrpTypeRsp (ss : List (GattService σ)) (r : HandleRange)
    (uuid : BtUuid) (l : Locals) : SendsWithin agreed (readByGrpTypeRsp ss addr r uuid l) := by
  rw [readByGrpTypeRsp]
  split
  · split
    case h_1 s _ =>
      have hlen := length_readByGrpTypeEntry_le s
      exact (sendsWithin_gattSend_iff (by decide) _).mpr (by omega)
    case h_2 => exact sendsWithin_sendAttError hfloor _ _ _
  · exact sendsWithin_sendAttError hfloor _ _ _

/-- Whatever is no access to a handle is answered briefly. -/
theorem sendsWithin_receive (g : GattServices σ) (l : Locals) {opcode : UInt8} (pdu : Mem)
    (len : UInt32) (hop : opcode ∉ handleRequests) :
    SendsWithin agreed (receive g l addr opcode pdu len).2 := by
  rcases opcode_cases opcode with h | h | h | h | h | h
  · rw [receive_unknown g l addr pdu len h]
    exact sendsWithin_nil
  · rw [receive_silent g l addr pdu len h]
    exact sendsWithin_nil
  · rw [receive_default g l addr pdu len (List.mem_append_left _ h)]
    exact sendsWithin_sendAttError hfloor _ _ _
  · simp only [servedRequests, List.mem_cons, List.not_mem_nil, or_false] at h
    rcases h with rfl | rfl | rfl | rfl
    · exact sendsWithin_mtuRsp hfloor g _
    · exact sendsWithin_findInfoRsp hfloor g.serviceList _
    · exact sendsWithin_readByTypeRsp hfloor g.serviceList _ _ l
    · exact sendsWithin_readByGrpTypeRsp hfloor g.serviceList _ _ l
  · exact absurd h hop
  · rw [receive_default g l addr pdu len (List.mem_append_right _ h)]
    exact sendsWithin_sendAttError hfloor _ _ _

end Short

/-- Notifications have eleven bytes. -/
theorem sendsWithin_sendAscII {agreed : BdAddr → ℕ} (ss : List (GattService σ)) (h : Hid)
    (hfloor : 23 ≤ agreed h.device.addr) (ch : UInt8) (beyond : UInt8 × UInt8) :
    SendsWithin agreed (sendAscII ss h ch beyond) := by
  intro sent hsent
  obtain ⟨-, e, buf, -, hbuf, rfl⟩ := mem_sentPdus_sendAscII hsent
  simp only [Pdu.size, List.length_append, length_le16, hbuf]
  omega

/-! ## The report map -/

/-- The MTU of `device` is that of some exchange, the default, or zero. -/
def Hid.MtuOk (h : Hid) : Prop := 0 ≤ h.device.mtu ∧ h.device.mtu ≤ 0xFFFF

theorem MapFits.inMap {mtu : Int} {agreed offset : ℕ} (h : MapFits mtu agreed offset)
    (hzero : mtu = 0) : offset ≤ hidMap.length := by
  rcases h with ⟨hpos, -⟩ | ⟨hle, -⟩
  · omega
  · exact hle

theorem length_hidMap : hidMap.length = 121 := by rfl

theorem sizeT_of_nonneg {n : Int} (hlow : 0 ≤ n) (hhigh : n < 2 ^ 64) : sizeT n = n.toNat := by
  rw [sizeT, Int.emod_eq_of_lt hlow hhigh]

theorem sizeT_of_neg {n : Int} (hlow : -2 ^ 64 ≤ n) (hhigh : n < 0) :
    sizeT n = (n + 2 ^ 64).toNat := by
  have h := Int.add_emod_right n (2 ^ 64)
  rw [sizeT, ← h, Int.emod_eq_of_lt (by omega) (by omega)]

/-- How much of the map is sent. -/
theorem readReportMap_len_lt_iff {h : Hid} (hok : h.MtuOk) {offset n : ℕ}
    (hoffset : offset ≤ 0xFFFF) (hin : h.device.mtu = 0 → offset ≤ hidMap.length) (buf : Mem) :
    (HidDevice.readReportMap h offset buf).2.toNat < n ↔ MapFits h.device.mtu n offset := by
  obtain ⟨hlow, hhigh⟩ := hok
  have hmap := length_hidMap
  simp only [HidDevice.readReportMap, MapFits, UInt16.toNat_ofNat']
  generalize h.device.mtu = mtu at hlow hhigh hin ⊢
  rcases eq_or_lt_of_le hlow with hzero | hpos
  · -- nothing is cut
    have hleft : sizeT (hidMap.length - offset) = hidMap.length - offset := by
      rw [sizeT_of_nonneg (by omega) (by omega)]
      omega
    have hroom : sizeT (mtu - 1) = 2 ^ 64 - 1 := by
      rw [← hzero]
      rfl
    rw [hleft, hroom, if_pos (by omega)]
    omega
  · have hroom : sizeT (mtu - 1) = mtu.toNat - 1 := by
      rw [sizeT_of_nonneg (by omega) (by omega)]
      omega
    by_cases hpast : offset ≤ hidMap.length
    · have hleft : sizeT (hidMap.length - offset) = hidMap.length - offset := by
        rw [sizeT_of_nonneg (by omega) (by omega)]
        omega
      rw [hleft, hroom]
      split_ifs <;> omega
    · -- behind the end the `size_t` wraps, and the MTU decides
      have hleft : sizeT (hidMap.length - offset) = 2 ^ 64 + hidMap.length - offset := by
        rw [sizeT_of_neg (by omega) (by omega)]
        omega
      rw [hleft, hroom, if_neg (by omega)]
      omega

/-- A read of the HID service. -/
theorem onCharacterRead_len_lt_iff {h : Hid} (hok : h.MtuOk) {n : ℕ} (hn : 23 ≤ n)
    (uuid : BtUuid) (buf : Mem) :
    (HidDevice.onCharacterRead h uuid buf 0).2.toNat < n ↔
      (btUuidCmp uuid uReportMap = 0 → MapFits h.device.mtu n 0) := by
  have hshort : (UInt16.ofNat hidInfo.length).toNat < n ∧ (0 : UInt16).toNat < n := by
    simp [hidInfo]
    omega
  rw [HidDevice.onCharacterRead]
  split_ifs with hmap hinfo
  · have hlen := readReportMap_len_lt_iff (n := n) hok (Nat.zero_le _)
      (fun _ => Nat.zero_le _) buf
    exact hlen.trans ⟨fun h _ => h, fun h => h hmap⟩
  · exact iff_of_true hshort.1 (fun h => absurd h hmap)
  · exact iff_of_true hshort.2 (fun h => absurd h hmap)

/-- A blob read of the HID service. -/
theorem onCharacterReadBlob_len_lt_iff {h : Hid} (hok : h.MtuOk) {n offset : ℕ} (hn : 23 ≤ n)
    (hoffset : offset ≤ 0xFFFF) (uuid : BtUuid)
    (hin : btUuidCmp uuid uReportMap = 0 → h.device.mtu = 0 → offset ≤ hidMap.length)
    (buf : Mem) :
    (HidDevice.onCharacterReadBlob h uuid offset buf 0).2.toNat < n ↔
      (btUuidCmp uuid uReportMap = 0 → MapFits h.device.mtu n offset) := by
  rw [HidDevice.onCharacterReadBlob]
  split_ifs with hmap
  · rw [readReportMap_len_lt_iff hok hoffset (hin hmap) buf]
    exact ⟨fun h _ => h, fun h => h hmap⟩
  · refine iff_of_true ?_ (fun h => absurd h hmap)
    simp
    omega

/-! ## Accesses to a handle -/

section Access

variable {g : GattServices (Hid × τ)} {agreed : BdAddr → ℕ} {addr : BdAddr} {opcode : UInt8}
  {pdu : Mem} {s : GattService (Hid × τ)} {c : GattCharacter}

theorem asksFrom_read {offset : ℕ} : AsksFrom btAttOpReadReq pdu offset ↔ offset = 0 := by
  have hne : ¬ btAttOpReadReq = btAttOpReadBlobReq := by decide
  simp [AsksFrom, hne]

theorem asksFrom_readBlob {offset : ℕ} :
    AsksFrom btAttOpReadBlobReq pdu offset ↔ offset = (pdu.u16 2).toNat := by
  have hne : ¬ btAttOpReadBlobReq = btAttOpReadReq := by decide
  simp [AsksFrom, hne]

theorem not_asksFrom_write (offset : ℕ) : ¬ AsksFrom btAttOpWriteReq pdu offset := by
  have hne : ¬ btAttOpWriteReq = btAttOpReadReq ∧ ¬ btAttOpWriteReq = btAttOpReadBlobReq := by
    decide
  simp [AsksFrom, hne.1, hne.2]

variable (hfloor : 23 ≤ agreed addr)

include hfloor

/-- A write is answered with the opcode alone. -/
theorem sendsWithin_write (length : UInt16) :
    SendsWithin agreed (accessCharacter g addr btAttOpWriteReq pdu length s c).2 := by
  have hrsp : SendsWithin agreed
      (gattSend addr btAttOpWriteRsp.toUInt16 [] : List (Event (Hid × τ))) :=
    (sendsWithin_gattSend_iff (by decide) _).mpr (by simp; omega)
  intro sent hsent
  simp only [accessCharacter, if_true, sentPdus_append, sentPdus_call, sentPdus_nil,
    List.append_nil] at hsent
  exact hrsp sent hsent

/-- A descriptor is answered with two bytes. -/
theorem sendsWithin_accessDescConf (l : Locals) :
    SendsWithin agreed (accessDescConf g addr opcode pdu s c l).2 := by
  rw [accessDescConf]
  split_ifs
  · rw [sendsWithin_call, sendsWithin_gattSend_iff (by decide), List.length_nil]
    omega
  · rw [sendsWithin_call, sendsWithin_gattSend_iff (by decide), length_le16]
    omega
  · exact sendsWithin_nil

variable (hok : g.world.1.MtuOk)

include hok

/-- A read of a value. -/
theorem sendsWithin_read_iff (hs : s.ioCb = hidCb ∨ s.ioCb.Foreign ∧ s.ioCb.Brief)
    (length : UInt16) :
    SendsWithin agreed (accessCharacter g addr btAttOpReadReq pdu length s c).2 ↔
      (IsMap s c → MapFits g.world.1.device.mtu (agreed addr) 0) := by
  have hsend : SendsWithin agreed (accessCharacter g addr btAttOpReadReq pdu length s c).2 ↔
      (s.ioCb.onCharacterRead addr c.uuid g.world g.rspPdu 0).2.2.toNat < agreed addr := by
    have hne : ¬ btAttOpReadReq = btAttOpWriteReq := by decide
    simp only [accessCharacter, if_neg hne, if_true, sendsWithin_call]
    rw [sendsWithin_gattSend_iff (by decide), Mem.length_read]
  rw [hsend]
  by_cases hcb : s.ioCb = hidCb
  · simp only [IsMap, hcb, true_and]
    exact onCharacterRead_len_lt_iff hok hfloor c.uuid g.rspPdu
  · have hbrief := (hs.resolve_left hcb).2.read addr c.uuid g.world g.rspPdu
    exact iff_of_true (by omega) (fun h => absurd h.1 hcb)

/-- A blob read of a value. -/
theorem sendsWithin_readBlob_iff (hs : s.ioCb = hidCb ∨ s.ioCb.Foreign ∧ s.ioCb.Brief)
    (hin : IsMap s c → g.world.1.device.mtu = 0 → (pdu.u16 2).toNat ≤ hidMap.length)
    (length : UInt16) :
    SendsWithin agreed (accessCharacter g addr btAttOpReadBlobReq pdu length s c).2 ↔
      (IsMap s c → MapFits g.world.1.device.mtu (agreed addr) (pdu.u16 2).toNat) := by
  have hne : ¬ btAttOpReadBlobReq = btAttOpWriteReq ∧ ¬ btAttOpReadBlobReq = btAttOpReadReq := by
    decide
  simp only [accessCharacter, if_neg hne.1, if_neg hne.2, if_true]
  by_cases hcb : s.ioCb = hidCb
  · simp only [IsMap, hcb, true_and] at hin ⊢
    simp only [hidCb, sendsWithin_call]
    rw [sendsWithin_gattSend_iff (by decide), Mem.length_read]
    have hoffset : (pdu.u16 2).toNat ≤ 0xFFFF := by
      have := (pdu.u16 2).toNat_lt
      omega
    exact onCharacterReadBlob_len_lt_iff hok hfloor hoffset c.uuid hin g.rspPdu
  · refine iff_of_true ?_ (fun h => absurd h.1 hcb)
    split
    case h_1 f hf =>
      have hbrief := (hs.resolve_left hcb).2.readBlob f hf addr c.uuid g.world
        (pdu.u16 2).toNat g.rspPdu
      rw [sendsWithin_call, sendsWithin_gattSend_iff (by decide), Mem.length_read]
      exact Nat.lt_of_le_of_lt hbrief (by omega)
    case h_2 => exact sendsWithin_sendAttError hfloor _ _ _

/-- **An access to a handle is too long for a peer only if it reads the report map.** -/
theorem sendsWithin_accessHandle_iff (hserved : Served g.serviceList)
    (hop : opcode ∈ handleRequests)
    (hin : ∀ offset, ReadsMap g.serviceList opcode pdu offset →
      g.world.1.device.mtu = 0 → offset ≤ hidMap.length) (length : UInt16) (l : Locals) :
    SendsWithin agreed (accessHandle g addr opcode pdu length l).2 ↔
      ∀ offset, ReadsMap g.serviceList opcode pdu offset →
        MapFits g.world.1.device.mtu (agreed addr) offset := by
  rw [accessHandle]
  split
  case h_1 s c hinfo =>
    have hs := hserved s (mem_of_getHandleInfo hinfo).1
    have hreads : ∀ offset, ReadsMap g.serviceList opcode pdu offset ↔
        AsksFrom opcode pdu offset ∧ IsMap s c := by
      intro offset
      simp [ReadsMap, hinfo]
    simp only [hreads] at hin ⊢
    simp only [handleRequests, List.mem_cons, List.not_mem_nil, or_false] at hop
    rcases hop with rfl | rfl | rfl
    · rw [sendsWithin_read_iff hfloor hok hs]
      simp [asksFrom_read]
    · simp only [asksFrom_readBlob, and_imp, forall_eq] at hin ⊢
      exact sendsWithin_readBlob_iff hfloor hok hs hin length
    · refine iff_of_true (sendsWithin_write hfloor length) ?_
      intro offset h
      exact absurd h.1 (not_asksFrom_write offset)
  case h_2 s c hinfo =>
    refine iff_of_true (sendsWithin_accessDescConf hfloor l) ?_
    rintro offset ⟨-, s', c', hinfo', -⟩
    simp [hinfo] at hinfo'
  case h_3 hinfo =>
    refine iff_of_true sendsWithin_nil ?_
    rintro offset ⟨-, s', c', hinfo', -⟩
    simp [hinfo] at hinfo'

end Access

/-! ## One step -/

/-- What a run keeps: the services, the range of the MTU of `device`, and that no peer has
agreed on less than the default. -/
structure LinkOk (x : Link τ) : Prop where
  served : Served x.server.serviceList
  mtu : x.server.world.1.MtuOk
  floor : ∀ addr, 23 ≤ x.agreed addr

/-- The MTU of `device` stays in its range. -/
def Hid.KeepsMtu (h h' : Hid) : Prop := h.MtuOk → h'.MtuOk

instance : IsPreorder Hid Hid.KeepsMtu where
  refl _ := id
  trans _ _ _ h₁ h₂ := h₂ ∘ h₁

theorem hidCb_keepsMtu : (hidCb : GattsCb (Hid × τ)).Keeps (OnHid Hid.KeepsMtu) where
  connection addr newState w := by
    intro _
    simp only [hidCb, HidDevice.onConnectionStateChange]
    split_ifs
    · simp [Hid.MtuOk, Device.zero]
    · simp [Hid.MtuOk, btAttDefaultLeMtu]
  read _ _ w _ _ := refl_of _ w
  write _ _ _ w := refl_of _ w
  descRead addr uuid w desc := by
    intro hok
    simp only [hidCb, HidDevice.onDescriptorRead]
    split_ifs
    · exact hok
    · exact hok
  mtu addr mtu w := by
    intro _
    have := mtu.toNat_lt
    simp only [hidCb, HidDevice.onMtuChanged, Hid.MtuOk]
    omega
  readBlob f hf addr uuid w offset buf len := by
    simp only [hidCb, Option.some.injEq] at hf
    subst hf
    exact refl_of _ w

theorem onDescriptorWrite_keepsMtu (addr : BdAddr) (uuid : BtUuid) (desc : UInt16) (h : Hid) :
    h.KeepsMtu (HidDevice.onDescriptorWrite addr uuid desc h) := by
  intro hok
  rw [Hid.MtuOk]
  by_cases hg : h.granted = true
  · rw [onDescriptorWrite_granted hg]
    exact hok
  · rw [onDescriptorWrite_not_granted hg]
    exact hok

section Step

variable {x : Link τ} {i : Input}

theorem forall_le_update_iff {α : Type} [DecidableEq α] {f : α → ℕ} {n : ℕ}
    (h : ∀ a, n ≤ f a) (a : α) (m : ℕ) : (∀ b, n ≤ Function.update f a m b) ↔ n ≤ m := by
  constructor
  · intro hall
    simpa using hall a
  · intro hm b
    by_cases hb : b = a
    · simpa [hb] using hm
    · simpa [hb] using h b

/-- No peer agrees on less than the default, if none asks for it. -/
theorem agree_pdu_iff (h : ∀ addr, 23 ≤ x.agreed addr) (l : Locals) (addr : BdAddr)
    (opcode : UInt8) (pdu : Mem) (len : UInt32) :
    (∀ a, 23 ≤ agree x.agreed (.pdu l addr opcode pdu len) a) ↔
      (opcode = btAttOpMtuReq → 23 ≤ (pdu.u16 0).toNat) := by
  simp only [agree]
  split_ifs with hop
  · rw [forall_le_update_iff h]
    exact ⟨fun hm _ => hm, fun hm => hm hop⟩
  · exact iff_of_true h (fun heq => absurd heq hop)

/-- What is sent for a PDU fits, if the report map does. -/
theorem fitsMtu_pdu_iff (h : LinkOk x) (l : Locals) (addr : BdAddr) (opcode : UInt8)
    (pdu : Mem) (len : UInt32) (hin : InMap x (.pdu l addr opcode pdu len)) :
    FitsMtu x (.pdu l addr opcode pdu len) ↔
      ∀ offset, ReadsMap x.server.serviceList opcode pdu offset →
        MapFits x.server.world.1.device.mtu (x.agreed addr) offset := by
  rw [FitsMtu, serve]
  by_cases hop : opcode ∈ handleRequests
  · rw [receive_handle x.server l addr pdu len hop]
    exact sendsWithin_accessHandle_iff (h.floor addr) h.mtu h.served hop hin _ l
  · refine iff_of_true (sendsWithin_receive (h.floor addr) x.server l pdu len hop) ?_
    rintro offset ⟨⟨rfl, -⟩ | ⟨rfl, -⟩, -⟩
    · exact absurd (by decide) hop
    · exact absurd (by decide) hop

/-- **The condition is exact**: the PDUs fit, and no peer agrees on less than the default. -/
theorem roomy_iff (h : LinkOk x) (hin : InMap x i) :
    Roomy x i ↔ FitsMtu x i ∧ ∀ addr, 23 ≤ agree x.agreed i addr := by
  cases i with
  | pdu l addr opcode pdu len =>
      rw [fitsMtu_pdu_iff h l addr opcode pdu len hin, agree_pdu_iff h.floor, Roomy]
      exact and_comm
  | connected addr =>
      refine iff_of_true trivial ⟨sendsWithin_nil, ?_⟩
      exact (forall_le_update_iff h.floor addr _).mpr (by decide)
  | disconnected addr =>
      refine iff_of_true trivial ⟨sendsWithin_nil, ?_⟩
      exact (forall_le_update_iff h.floor addr _).mpr (by decide)
  | key ch beyond =>
      refine iff_of_true trivial ⟨?_, h.floor⟩
      exact sendsWithin_sendAscII _ _ (h.floor _) ch beyond

/-- The condition keeps the reads inside the map. -/
theorem Roomy.inMap (h : Roomy x i) : InMap x i := by
  cases i with
  | pdu l addr opcode pdu len =>
      intro offset hreads hzero
      exact (h.2 offset hreads).inMap hzero
  | connected addr => trivial
  | disconnected addr => trivial
  | key ch beyond => trivial

/-- **A step that meets the condition.** -/
theorem LinkOk.step (h : LinkOk x) (hroomy : Roomy x i) :
    LinkOk ⟨(serve x.server i).1, agree x.agreed i⟩ where
  served := serve_served h.served i
  mtu := by
    refine serve_keeps (R := Hid.KeepsMtu) h.served.hosted hidCb_keepsMtu i ?_ h.mtu
    intro l addr pdu len _ s c _ _
    exact onDescriptorWrite_keepsMtu addr c.uuid _ _
  floor := ((roomy_iff h hroomy.inMap).mp hroomy).2

end Step

/-! ## Runs -/

/-- A run whose steps meet the condition, from the start of the program. -/
theorem linkOk_of_runs {g : GattServices (Hid × τ)} (hserved : Served g.serviceList)
    (hzero : g.world.1.device = .zero) {inputs : List Input} {x : Link τ}
    (hrun : Runs linkStep Roomy ⟨g, fun _ => 23⟩ inputs x) : LinkOk x := by
  refine hrun.invariant (P := LinkOk) ⟨hserved, ?_, fun _ => Nat.le_refl _⟩ ?_
  · simp [Hid.MtuOk, hzero, Device.zero]
  · intro u i v hu hroomy hstep
    obtain rfl := Option.some.inj hstep
    exact hu.step hroomy

theorem genericAccessCb_brief : (genericAccessCb : GattsCb σ).Brief where
  read addr uuid w buf := by
    have hall : ∀ v ∈ GenericAccess.values, (UInt16.ofNat v.2.length).toNat ≤ 22 := by decide
    simp only [genericAccessCb, GenericAccess.onCharacterRead]
    split
    case h_1 uuid' bytes hfind => exact hall _ (List.mem_of_find?_eq_some hfind)
    case h_2 => simp
  readBlob f hf := by cases hf

theorem served_initGattServices : Served (initGattServices (τ := τ)) :=
  initGattServices_forall_ioCb (P := fun cb => cb = hidCb ∨ cb.Foreign ∧ cb.Brief) (.inl rfl)
    (.inr ⟨genericAccessCb_foreign, genericAccessCb_brief⟩)

/-- The program at its start. -/
def Link.start : Link Unit := ⟨secureServer initGattServices, fun _ => 23⟩

/-- A request with one 16-bit parameter. -/
def wordRequest (addr : BdAddr) (opcode : UInt8) (param : UInt16) : Input :=
  .pdu ⟨.u16 0, Vector.replicate 16 0, 0⟩ addr opcode (Mem.write (fun _ => 0) 0 (le16 param)) 2

/-- Two peers. -/
def peerA : BdAddr := ⟨#v[1, 0, 0, 0, 0, 0]⟩

@[inherit_doc peerA]
def peerB : BdAddr := ⟨#v[2, 0, 0, 0, 0, 0]⟩

theorem u16_write_le16 (m : Mem) (v : UInt16) : (m.write 0 (le16 v)).u16 0 = v := by
  simp [Mem.u16, Mem.write, le16]

theorem roomy_mtuRequest (x : Link τ) (addr : BdAddr) {mtu : UInt16} (h : 23 ≤ mtu.toNat) :
    Roomy x (wordRequest addr btAttOpMtuReq mtu) := by
  refine ⟨fun _ => ?_, ?_⟩
  · rw [u16_write_le16]
    exact h
  · rintro offset ⟨⟨hop, -⟩ | ⟨hop, -⟩, -⟩
    · exact absurd hop (by decide)
    · exact absurd hop (by decide)

end CCode.Gatt
