import CCode.Lib.Checked
import CCode.Gatt.Dispatch

/-!
# What a malformed PDU makes the server read

`onReceive` decodes its parameters through macros that move a pointer and never look at the
length. This module has its text once more, over what a read of the PDU is. With a read of
memory it is `onReceive`; with a read of the received bytes that fails outside them, and
with no value for a UUID that was never set, it says whether the handler keeps to what it
has received.

The received bytes come from `io_read_callback`, which passes on an empty read as well: the
opcode is then what the stack held, and the length is `-1`.

## Main definitions

* `Reader` — a way to read the PDU, `Reader.mem` and `Reader.received` the two in use.
* `Reader.onReceive` — the handler over a reader.
* `ioReadCallback` — the read from the socket.
* `Confined` — the handler keeps to the received bytes.
* `LongEnough` — the PDUs for which it does.
-/

namespace CCode.Gatt

open CCode.Lib

variable {σ : Type}

/-- How the handler reads its PDU, and what a UUID that was never set is. -/
structure Reader (m : Type → Type) where
  u16 : ℕ → m UInt16
  block : ℕ → ℕ → m (List UInt8)
  uuid : m BtUuid

/-- Reads of memory find something everywhere. -/
def Reader.mem (pdu : Mem) (l : Locals) : Reader Id := ⟨pdu.u16, pdu.read, l.uuid⟩

/-- Reads of the received bytes fail outside them. -/
def Reader.received (params : List UInt8) : Reader Option := ⟨u16At params, bytesAt params, none⟩

namespace Reader

variable {m : Type → Type} [Monad m] (rd : Reader m)

/-- The attribute type of a read-by-type or read-by-group-type request. -/
def requestUuid (length : UInt16) : m BtUuid := do
  let remainLen := length - 4
  if remainLen = 2 then
    let tmp ← rd.u16 4
    return .u16 tmp
  else if remainLen = 16 then
    let tmp ← rd.block 4 16
    return .u128 (Vector.ofFn fun i => tmp.getD i 0)
  else rd.uuid

/-- The branch of `onReceive` for a characteristic's value. -/
def accessCharacter (g : GattServices σ) (addr : BdAddr) (opcode : UInt8) (length : UInt16)
    (s : GattService σ) (c : GattCharacter) : m (GattServices σ × List (Event σ)) := do
  if opcode = btAttOpWriteReq then
    let buf ← rd.block 2 (length - 2).toNat
    return ({ g with world := s.ioCb.onCharacterWrite addr c.uuid buf g.world },
      gattSend addr btAttOpWriteRsp.toUInt16 [] ++ [.call s (.characterWrite c.uuid buf)])
  else if opcode = btAttOpReadReq then
    let (world, rspPdu, rspLen) := s.ioCb.onCharacterRead addr c.uuid g.world g.rspPdu 0
    return ({ g with world, rspPdu, rspLen },
      .call s (.characterRead c.uuid) ::
        gattSend addr btAttOpReadRsp.toUInt16 (rspPdu.read 0 rspLen.toNat))
  else if opcode = btAttOpReadBlobReq then
    let offset ← rd.u16 2
    match s.ioCb.onCharacterReadBlob with
    | some onCharacterReadBlob =>
        let (world, rspPdu, rspLen) :=
          onCharacterReadBlob addr c.uuid g.world offset.toNat g.rspPdu 0
        return ({ g with world, rspPdu, rspLen },
          .call s (.characterReadBlob c.uuid offset) ::
            gattSend addr btAttOpReadBlobRsp.toUInt16 (rspPdu.read 0 rspLen.toNat))
    | none =>
        return (g, sendAttError addr opcode.toUInt16 0x0001 btAttErrorRequestNotSupported)
  else return (g, [])

/-- The branch of `onReceive` for a descriptor. The value that a read sends is an
out-parameter of the callback and no part of the PDU. -/
def accessDescConf (g : GattServices σ) (addr : BdAddr) (opcode : UInt8) (s : GattService σ)
    (c : GattCharacter) (l : Locals) : m (GattServices σ × List (Event σ)) := do
  if opcode = btAttOpWriteReq then
    let descValue ← rd.u16 2
    return ({ g with world := s.ioCb.onDescriptorWrite addr c.uuid descValue g.world },
      .call s (.descriptorWrite c.uuid descValue) ::
        gattSend addr btAttOpWriteRsp.toUInt16 [])
  else if opcode = btAttOpReadReq then
    let (world, descValue) := s.ioCb.onDescriptorRead addr c.uuid g.world l.descValue
    return ({ g with world, rspLen := 0 },
      .call s (.descriptorRead c.uuid) ::
        gattSend addr btAttOpReadRsp.toUInt16 (le16 descValue))
  else return (g, [])

/-- The branch of `onReceive` for reads, blob reads and writes. -/
def accessHandle (g : GattServices σ) (addr : BdAddr) (opcode : UInt8) (length : UInt16)
    (l : Locals) : m (GattServices σ × List (Event σ)) := do
  let handle ← rd.u16 0
  match getHandleInfo g.serviceList handle with
  | some (s, c, .character) => rd.accessCharacter g addr opcode length s c
  | some (s, c, .descConf) => rd.accessDescConf g addr opcode s c l
  | none => return (g, [])

/-- `onReceive` over a reader. -/
def onReceive (g : GattServices σ) (l : Locals) (addr : BdAddr) (opcode : UInt8)
    (length : UInt16) : m (GattServices σ × List (Event σ)) := do
  if opcode = btAttOpErrorRsp then return (g, [])
  else if opcode = btAttOpMtuReq then
    let mtu ← rd.u16 0
    return mtuRsp g addr mtu
  else if opcode = btAttOpMtuRsp then return (g, [])
  else if opcode = btAttOpFindInfoReq then
    let startHandle ← rd.u16 0
    let endHandle ← rd.u16 2
    return (g, findInfoRsp g.serviceList addr ⟨startHandle, endHandle⟩)
  else if opcode = btAttOpFindInfoRsp then return (g, [])
  else if opcode = btAttOpReadByTypeReq then
    let startHandle ← rd.u16 0
    let endHandle ← rd.u16 2
    let uuid ← rd.requestUuid length
    return (g, readByTypeRsp g.serviceList addr ⟨startHandle, endHandle⟩ uuid l)
  else if opcode = btAttOpReadByTypeRsp then return (g, [])
  else if opcode = btAttOpReadByGrpTypeReq then
    let startHandle ← rd.u16 0
    let endHandle ← rd.u16 2
    let uuid ← rd.requestUuid length
    return (g, readByGrpTypeRsp g.serviceList addr ⟨startHandle, endHandle⟩ uuid l)
  else if opcode = btAttOpReadByGrpTypeRsp then return (g, [])
  else if opcode = btAttOpReadReq ∨ opcode = btAttOpReadBlobReq ∨ opcode = btAttOpWriteReq then
    rd.accessHandle g addr opcode length l
  else if opcode = btAttOpHandleValNot ∨ opcode = btAttOpHandleValInd ∨
      opcode = btAttOpReadRsp ∨ opcode = btAttOpWriteRsp then return (g, [])
  else return (g, sendAttError addr opcode.toUInt16 0x0001 btAttErrorRequestNotSupported)

end Reader

/-! ## Over memory the text is that of the handler -/

theorem requestUuid_mem (pdu : Mem) (l : Locals) (length : UInt16) :
    (Reader.mem pdu l).requestUuid length = requestUuid pdu length l := by
  refine ite_congr rfl (fun _ => rfl) fun _ => ?_
  exact ite_congr rfl (fun _ => rfl) fun _ => rfl

theorem accessCharacter_mem (pdu : Mem) (g : GattServices σ) (addr : BdAddr) (opcode : UInt8)
    (length : UInt16) (s : GattService σ) (c : GattCharacter) (l : Locals) :
    (Reader.mem pdu l).accessCharacter g addr opcode length s c =
      accessCharacter g addr opcode pdu length s c := by
  refine ite_congr rfl (fun _ => rfl) fun _ => ?_
  refine ite_congr rfl (fun _ => rfl) fun _ => ?_
  refine ite_congr rfl (fun _ => ?_) fun _ => rfl
  dsimp only [Reader.mem]
  cases s.ioCb.onCharacterReadBlob <;> rfl

theorem accessHandle_mem (pdu : Mem) (g : GattServices σ) (addr : BdAddr) (opcode : UInt8)
    (length : UInt16) (l : Locals) :
    (Reader.mem pdu l).accessHandle g addr opcode length l =
      accessHandle g addr opcode pdu length l := by
  rw [accessHandle]
  show (match getHandleInfo g.serviceList (pdu.u16 0) with
    | some (s, c, .character) => (Reader.mem pdu l).accessCharacter g addr opcode length s c
    | some (s, c, .descConf) => (Reader.mem pdu l).accessDescConf g addr opcode s c l
    | none => (g, [])) = _
  rcases getHandleInfo g.serviceList (pdu.u16 0) with _ | ⟨s, c, t⟩
  · rfl
  · cases t with
    | character => exact accessCharacter_mem pdu g addr opcode length s c l
    | descConf => rfl

/-- **Over memory the text is that of the handler.** -/
theorem onReceive_mem (pdu : Mem) (g : GattServices σ) (l : Locals) (addr : BdAddr)
    (opcode : UInt8) (length : UInt16) :
    (Reader.mem pdu l).onReceive g l addr opcode length =
      onReceive g l addr opcode pdu length := by
  refine ite_congr rfl (fun _ => rfl) fun _ => ?_
  refine ite_congr rfl (fun _ => rfl) fun _ => ?_
  refine ite_congr rfl (fun _ => rfl) fun _ => ?_
  refine ite_congr rfl (fun _ => rfl) fun _ => ?_
  refine ite_congr rfl (fun _ => rfl) fun _ => ?_
  refine ite_congr rfl (fun _ => ?_) fun _ => ?_
  · rw [← requestUuid_mem]
    rfl
  refine ite_congr rfl (fun _ => rfl) fun _ => ?_
  refine ite_congr rfl (fun _ => ?_) fun _ => ?_
  · rw [← requestUuid_mem]
    rfl
  refine ite_congr rfl (fun _ => rfl) fun _ => ?_
  refine ite_congr rfl (fun _ => ?_) fun _ => rfl
  exact accessHandle_mem pdu g addr opcode length l

/-! ## Over the received bytes it agrees with memory -/

/-- If the first computation succeeds, the second one has the same result. -/
def Refines {α : Type} (x : Option α) (y : Id α) : Prop := ∀ a, x = some a → y = a

theorem Refines.pure {α : Type} (a : α) : Refines (pure a) (pure a) :=
  fun _ h => Option.some.inj h

theorem Refines.bind {α β : Type} {x : Option α} {y : Id α} {f : α → Option β} {k : α → Id β}
    (h : Refines x y) (hf : ∀ a, Refines (f a) (k a)) : Refines (x >>= f) (y >>= k) := by
  intro b hb
  obtain ⟨a, ha, hb⟩ := Option.bind_eq_some_iff.mp hb
  obtain rfl := h a ha
  exact hf _ b hb

theorem Refines.ite {α : Type} {c : Prop} [Decidable c] {x x' : Option α} {y y' : Id α}
    (h : Refines x y) (h' : Refines x' y') :
    Refines (if c then x else x') (if c then y else y') := by
  split_ifs
  · exact h
  · exact h'

/-- What the first reader reads the second one reads as well. -/
structure Reader.Agrees (rd : Reader Option) (rd' : Reader Id) : Prop where
  u16 : ∀ p, Refines (rd.u16 p) (rd'.u16 p)
  block : ∀ p n, Refines (rd.block p n) (rd'.block p n)
  uuid : Refines rd.uuid rd'.uuid

theorem agrees_received {params : List UInt8} {pdu : Mem}
    (h : pdu.read 0 params.length = params) (l : Locals) :
    (Reader.received params).Agrees (Reader.mem pdu l) where
  u16 _ _ hv := Mem.u16_of_u16At h hv
  block _ _ _ hbs := Mem.read_of_bytesAt h hbs
  uuid _ hu := by cases hu

section Agrees

variable {rd : Reader Option} {rd' : Reader Id} (h : rd.Agrees rd') (g : GattServices σ)
  (l : Locals) (addr : BdAddr) (opcode : UInt8) (length : UInt16)
include h

theorem Reader.Agrees.requestUuid : Refines (rd.requestUuid length) (rd'.requestUuid length) := by
  refine .ite (.bind (h.u16 4) fun _ => .pure _) ?_
  exact .ite (.bind (h.block 4 16) fun _ => .pure _) h.uuid

theorem Reader.Agrees.accessHandle :
    Refines (rd.accessHandle g addr opcode length l) (rd'.accessHandle g addr opcode length l) := by
  refine .bind (h.u16 0) fun handle => ?_
  rcases getHandleInfo g.serviceList handle with _ | ⟨s, c, t⟩
  · exact .pure _
  · cases t with
    | character =>
        refine .ite (.bind (h.block 2 _) fun _ => .pure _) (.ite (.pure _) (.ite ?_ (.pure _)))
        refine .bind (h.u16 2) fun offset => ?_
        cases s.ioCb.onCharacterReadBlob <;> exact .pure _
    | descConf =>
        exact .ite (.bind (h.u16 2) fun _ => .pure _) (.ite (.pure _) (.pure _))

/-- **What the handler does on the received bytes alone it does on memory.** -/
theorem Reader.Agrees.onReceive :
    Refines (rd.onReceive g l addr opcode length) (rd'.onReceive g l addr opcode length) := by
  refine .ite (.pure _) ?_
  refine .ite (.bind (h.u16 0) fun _ => .pure _) ?_
  refine .ite (.pure _) ?_
  refine .ite (.bind (h.u16 0) fun _ => .bind (h.u16 2) fun _ => .pure _) ?_
  refine .ite (.pure _) ?_
  refine .ite (.bind (h.u16 0) fun _ => .bind (h.u16 2) fun _ =>
    .bind (h.requestUuid length) fun _ => .pure _) ?_
  refine .ite (.pure _) ?_
  refine .ite (.bind (h.u16 0) fun _ => .bind (h.u16 2) fun _ =>
    .bind (h.requestUuid length) fun _ => .pure _) ?_
  refine .ite (.pure _) ?_
  refine .ite (h.accessHandle g l addr opcode length) ?_
  exact .ite (.pure _) (.pure _)

end Agrees

/-! ## From the socket -/

/-- `io_read_callback` after a read that did not fail: the bytes are in the stack buffer,
the first one is the opcode. The length is an `int` that becomes unsigned. -/
def ioReadCallback {α : Type} (receive : UInt8 → Mem → UInt32 → α) (buf : Mem)
    (data : List UInt8) : α :=
  let buf := buf.write 0 data
  receive (buf 0) (fun i => buf (1 + i)) (UInt32.ofInt ((data.length : Int) - 1))

/-- The received bytes through the ATT layer into the handler. -/
def receiveChecked (g : GattServices σ) (l : Locals) (addr : BdAddr) (params : List UInt8)
    (opcode : UInt8) (pdu : Mem) (len : UInt32) : Option (GattServices σ × List (Event σ)) :=
  attIoReceive (fun addr opcode _ length =>
    (Reader.received params).onReceive g l addr opcode length) (some (g, [])) addr opcode pdu len

/-- The length that a callback is given. -/
def Callback.len : Callback → ℕ
  | .characterWrite _ buf => buf.length
  | _ => 0

/-- The handler keeps to the received bytes: it gets through without a read outside them and
without a UUID that it did not decode, as memory has it, and the lengths that callbacks are
given are at most the received one. -/
def Confined (g : GattServices σ) (l : Locals) (addr : BdAddr) (buf : Mem) (data : List UInt8) :
    Prop :=
  ∃ r, ioReadCallback (receiveChecked g l addr data.tail) buf data = some r ∧
    ioReadCallback (receive g l addr) buf data = r ∧
    ∀ call ∈ invoked r.2, call.2.len ≤ data.tail.length

/-- The handle is that of an attribute for which the handler reads a second word: the offset
of a blob read, or the value of a descriptor. -/
def ReadsOn (ss : List (GattService σ)) (opcode : UInt8) (params : List UInt8) : Prop :=
  ∃ handle s c t, u16At params 0 = some handle ∧ getHandleInfo ss handle = some (s, c, t) ∧
    (opcode = btAttOpReadBlobReq ∧ t = .character ∨ opcode = btAttOpWriteReq ∧ t = .descConf)

/-- The parameters are as long as the handler takes them to be. -/
def LongEnough (ss : List (GattService σ)) (opcode : UInt8) (params : List UInt8) : Prop :=
  if opcode = btAttOpMtuReq then 2 ≤ params.length
  else if opcode = btAttOpFindInfoReq then 4 ≤ params.length
  else if opcode = btAttOpReadByTypeReq ∨ opcode = btAttOpReadByGrpTypeReq then
    params.length = 6 ∨ params.length = 20
  else if opcode ∈ handleRequests then
    2 ≤ params.length ∧ (ReadsOn ss opcode params → 4 ≤ params.length)
  else True

/-! ## When the reads stay inside -/

section Received

variable {params : List UInt8} {length : UInt16} (g : GattServices σ) (l : Locals) (addr : BdAddr)

theorem toNat_sub_eq_iff {n k : ℕ} (hk : k ≤ 0xFFFF) (h : k ≤ length.toNat) :
    length - UInt16.ofNat k = UInt16.ofNat n ↔ length.toNat - k = n % 2 ^ 16 := by
  have hle : UInt16.ofNat k ≤ length := by
    rw [UInt16.le_iff_toNat_le, UInt16.toNat_ofNat']
    omega
  rw [← UInt16.toNat_inj, UInt16.toNat_sub_of_le _ _ hle, UInt16.toNat_ofNat',
    UInt16.toNat_ofNat', Nat.mod_eq_of_lt (by omega : k < 2 ^ 16)]

/-- The attribute type is decoded if it has one of the two right sizes. -/
theorem requestUuid_isSome_iff (h : 4 ≤ params.length) (hlen : length.toNat = params.length) :
    ((Reader.received params).requestUuid length).isSome ↔
      params.length = 6 ∨ params.length = 20 := by
  have htwo : length - 4 = 2 ↔ length.toNat - 4 = 2 :=
    toNat_sub_eq_iff (k := 4) (n := 2) (by omega) (by omega)
  have hsixteen : length - 4 = 16 ↔ length.toNat - 4 = 16 :=
    toNat_sub_eq_iff (k := 4) (n := 16) (by omega) (by omega)
  simp only [Reader.requestUuid, htwo, hsixteen]
  split_ifs with h₂ h₁₆
  · have : (u16At params 4).isSome := u16At_isSome_iff.mpr (by omega)
    obtain ⟨v, hv⟩ := Option.isSome_iff_exists.mp this
    simp [Reader.received, hv]
    omega
  · have : (bytesAt params 4 16).isSome := bytesAt_isSome_iff.mpr (by omega)
    obtain ⟨v, hv⟩ := Option.isSome_iff_exists.mp this
    simp [Reader.received, hv]
    omega
  · simp [Reader.received]
    omega

/-- What comes after a read that is there does not fail. -/
theorem isSome_bind_iff {α β : Type} {x : Option α} {f : α → Option β}
    (h : ∀ a, (f a).isSome) : (x >>= f).isSome ↔ x.isSome := by
  cases x with
  | none => rfl
  | some a => exact iff_of_true (h a) rfl

/-- Only the offset of a blob read is read behind the handle of a value. -/
theorem accessCharacter_isSome_iff {opcode : UInt8} (hop : opcode ∈ handleRequests)
    (h : 2 ≤ params.length) (hlen : length.toNat = params.length) (s : GattService σ)
    (c : GattCharacter) :
    ((Reader.received params).accessCharacter g addr opcode length s c).isSome ↔
      (opcode = btAttOpReadBlobReq → 4 ≤ params.length) := by
  simp only [handleRequests, List.mem_cons, List.not_mem_nil, or_false] at hop
  rcases hop with rfl | rfl | rfl
  · exact iff_of_true rfl fun hblob => absurd hblob (by decide)
  · show ((u16At params 2).bind _).isSome ↔ _
    rw [← Option.bind_eq_bind, isSome_bind_iff, u16At_isSome_iff]
    · simp
    · intro offset
      cases s.ioCb.onCharacterReadBlob <;> rfl
  · refine iff_of_true ?_ fun hblob => absurd hblob (by decide)
    show ((bytesAt params 2 (length - 2).toNat).bind _).isSome
    have hsub : (length - 2).toNat = length.toNat - 2 :=
      UInt16.toNat_sub_of_le _ _ (UInt16.le_iff_toNat_le.mpr (by simp; omega))
    rw [← Option.bind_eq_bind, isSome_bind_iff, bytesAt_isSome_iff, hsub]
    · omega
    · intro buf
      rfl

/-- Only the value of a write is read behind the handle of a descriptor. -/
theorem accessDescConf_isSome_iff {opcode : UInt8} (hop : opcode ∈ handleRequests)
    (s : GattService σ) (c : GattCharacter) :
    ((Reader.received params).accessDescConf g addr opcode s c l).isSome ↔
      (opcode = btAttOpWriteReq → 4 ≤ params.length) := by
  simp only [handleRequests, List.mem_cons, List.not_mem_nil, or_false] at hop
  rcases hop with rfl | rfl | rfl
  · exact iff_of_true rfl fun hwrite => absurd hwrite (by decide)
  · exact iff_of_true rfl fun hwrite => absurd hwrite (by decide)
  · show ((u16At params 2).bind _).isSome ↔ _
    rw [← Option.bind_eq_bind, isSome_bind_iff, u16At_isSome_iff]
    · simp
    · intro value
      rfl

/-- An access by handle gets through if the handle is there, and the second word if it is
read. -/
theorem accessHandle_isSome_iff {opcode : UInt8} (hop : opcode ∈ handleRequests)
    (hlen : 2 ≤ params.length → length.toNat = params.length) :
    ((Reader.received params).accessHandle g addr opcode length l).isSome ↔
      2 ≤ params.length ∧ (ReadsOn g.serviceList opcode params → 4 ≤ params.length) := by
  by_cases h : 2 ≤ params.length
  · obtain ⟨handle, hhandle⟩ := Option.isSome_iff_exists.mp
      (u16At_isSome_iff.mpr (by omega : 0 + 2 ≤ params.length))
    have hread : (Reader.received params).u16 0 = some handle := hhandle
    rw [Reader.accessHandle, hread, Option.bind_eq_bind, Option.bind_some, and_iff_right h]
    simp only [ReadsOn, hhandle, Option.some.injEq, exists_and_left, exists_eq_left']
    rcases getHandleInfo g.serviceList handle with _ | ⟨s, c, t⟩
    · simp
    · cases t with
      | character =>
          rw [accessCharacter_isSome_iff g addr hop h (hlen h)]
          simp
      | descConf =>
          rw [accessDescConf_isSome_iff g l addr hop]
          simp
  · have hnone : u16At params 0 = none := by
      rw [← Option.not_isSome_iff_eq_none, u16At_isSome_iff]
      omega
    simp [Reader.accessHandle, Reader.received, hnone, h]

/-- The two range requests get through if both handles are there and the type is decoded. -/
theorem range_isSome_iff {f : UInt16 → UInt16 → BtUuid → GattServices σ × List (Event σ)}
    (hlen : 2 ≤ params.length → length.toNat = params.length) :
    (do let startHandle ← (Reader.received params).u16 0
        let endHandle ← (Reader.received params).u16 2
        let uuid ← (Reader.received params).requestUuid length
        return f startHandle endHandle uuid).isSome ↔
      params.length = 6 ∨ params.length = 20 := by
  by_cases h : 4 ≤ params.length
  · obtain ⟨x, hx⟩ := Option.isSome_iff_exists.mp
      (u16At_isSome_iff.mpr (by omega : 0 + 2 ≤ params.length))
    obtain ⟨y, hy⟩ := Option.isSome_iff_exists.mp
      (u16At_isSome_iff.mpr (by omega : 2 + 2 ≤ params.length))
    rw [← requestUuid_isSome_iff h (hlen (by omega))]
    have hx' : (Reader.received params).u16 0 = some x := hx
    have hy' : (Reader.received params).u16 2 = some y := hy
    rw [hx', hy']
    simp only [Option.bind_eq_bind, Option.bind_some]
    rw [← Option.bind_eq_bind, isSome_bind_iff]
    intro uuid
    rfl
  · have hnone : (Reader.received params).u16 2 = none := by
      show u16At params 2 = none
      rw [← Option.not_isSome_iff_eq_none, u16At_isSome_iff]
      omega
    rw [hnone]
    cases (Reader.received params).u16 0 <;> simp <;> omega

/-- Each request with a response function of its own. -/
theorem served_isSome_iff {opcode : UInt8} (hop : opcode ∈ servedRequests)
    (hlen : 2 ≤ params.length → length.toNat = params.length) :
    ((Reader.received params).onReceive g l addr opcode length).isSome ↔
      LongEnough g.serviceList opcode params := by
  simp only [servedRequests, List.mem_cons, List.not_mem_nil, or_false] at hop
  rcases hop with rfl | rfl | rfl | rfl
  · show (u16At params 0 >>= _).isSome ↔ 2 ≤ params.length
    rw [isSome_bind_iff fun _ => rfl, u16At_isSome_iff]
  · show (u16At params 0 >>= fun _ => u16At params 2 >>= _).isSome ↔ 4 ≤ params.length
    cases h : u16At params 0 with
    | none =>
        rw [← Option.not_isSome_iff_eq_none, u16At_isSome_iff] at h
        simp
        omega
    | some v =>
        show (u16At params 2 >>= _).isSome ↔ _
        rw [isSome_bind_iff fun _ => rfl, u16At_isSome_iff]
  · exact range_isSome_iff hlen
  · exact range_isSome_iff hlen

/-- The other opcodes are handled without a look at the parameters. -/
theorem onReceive_isSome_of_notMem {opcode : UInt8}
    (h : opcode ∉ servedRequests ++ handleRequests) :
    ((Reader.received params).onReceive g l addr opcode length).isSome ∧
      LongEnough g.serviceList opcode params := by
  simp only [servedRequests, handleRequests, List.cons_append, List.nil_append, List.mem_cons,
    List.not_mem_nil, or_false, not_or] at h
  simp only [Reader.onReceive, LongEnough, handleRequests, List.mem_cons, List.not_mem_nil,
    or_false, h, if_false, and_true]
  split_ifs <;> rfl

/-- **The handler keeps to the received bytes exactly if they are long enough.** -/
theorem receiveChecked_isSome_iff (opcode : UInt8) (pdu : Mem) {len : UInt32}
    (hlen : 2 ≤ params.length → len.toUInt16.toNat = params.length) :
    (receiveChecked g l addr params opcode pdu len).isSome ↔
      LongEnough g.serviceList opcode params := by
  have hreq : ∀ op ∈ servedRequests ++ handleRequests, getOpType op = .req :=
    forall_mem_of_all (by decide)
  rw [receiveChecked, attIoReceive]
  by_cases hmem : opcode ∈ servedRequests ++ handleRequests
  · simp only [hreq opcode hmem]
    rcases List.mem_append.mp hmem with hserved | hhandle
    · exact served_isSome_iff g l addr hserved hlen
    · have hearlier := hhandle
      simp only [handleRequests, List.mem_cons, List.not_mem_nil, or_false] at hearlier
      have hlong : LongEnough g.serviceList opcode params ↔
          2 ≤ params.length ∧ (ReadsOn g.serviceList opcode params → 4 ≤ params.length) := by
        rcases hearlier with rfl | rfl | rfl <;> rfl
      rw [hlong, ← accessHandle_isSome_iff g l addr hhandle hlen]
      rcases hearlier with rfl | rfl | rfl <;> rfl
  · obtain ⟨hsome, hlong⟩ :=
      @onReceive_isSome_of_notMem σ params len.toUInt16 g l addr opcode hmem
    refine iff_of_true ?_ hlong
    split
    · exact hsome
    · exact hsome
    · exact hsome
    · exact hsome
    · exact hsome
    · rfl
    · rfl

end Received

/-! ## The lengths that callbacks are given -/

section Len

variable (g : GattServices σ) (l : Locals) (addr : BdAddr) (opcode : UInt8) (pdu : Mem)

theorem invoked_findInfoRsp (ss : List (GattService σ)) (r : HandleRange) :
    invoked (findInfoRsp ss addr r) = [] := by
  rw [findInfoRsp]
  split <;> simp

theorem invoked_readByTypeRsp (ss : List (GattService σ)) (r : HandleRange) (uuid : BtUuid) :
    invoked (readByTypeRsp ss addr r uuid l) = [] := by
  rw [readByTypeRsp]
  split
  · split <;> simp
  · simp

theorem invoked_readByGrpTypeRsp (ss : List (GattService σ)) (r : HandleRange) (uuid : BtUuid) :
    invoked (readByGrpTypeRsp ss addr r uuid l) = [] := by
  rw [readByGrpTypeRsp]
  split
  · split <;> simp
  · simp

theorem len_mtuChange (mtu : UInt16) (ss : List (GattService σ)) (w : σ) :
    ∀ call ∈ invoked (mtuChange addr mtu ss w).2.2, call.2.len = 0 := by
  induction ss generalizing w with
  | nil => simp [mtuChange]
  | cons s ss ih =>
      intro call hcall
      rcases List.mem_cons.mp hcall with rfl | hcall
      · rfl
      · exact ih _ call hcall

/-- An access hands over at most what follows the handle. -/
theorem len_accessHandle (length : UInt16) :
    ∀ call ∈ invoked (accessHandle g addr opcode pdu length l).2,
      call.2.len ≤ (length - 2).toNat := by
  rw [accessHandle]
  split
  · rw [accessCharacter]
    split_ifs
    · simp [Callback.len]
    · simp [Callback.len]
    · split <;> simp [Callback.len]
    · simp
  · rw [accessDescConf]
    split_ifs <;> simp [Callback.len]
  · simp

/-- Every other opcode hands over no buffer at all. -/
theorem len_receive (h : opcode ∉ handleRequests) (len : UInt32) :
    ∀ call ∈ invoked (receive g l addr opcode pdu len).2, call.2.len = 0 := by
  rcases opcode_cases opcode with h' | h' | h' | h' | h' | h'
  · simp [receive_unknown g l addr pdu len h']
  · simp [receive_silent g l addr pdu len h']
  · simp [receive_default g l addr pdu len (List.mem_append_left _ h')]
  · simp only [servedRequests, List.mem_cons, List.not_mem_nil, or_false] at h'
    rcases h' with rfl | rfl | rfl | rfl
    · intro call hcall
      have hmem : call ∈ invoked (gattSend addr btAttOpMtuRsp.toUInt16 (le16 (pdu.u16 0)) ++
          (mtuChange addr (pdu.u16 0) g.serviceList g.world).2.2) := hcall
      rw [invoked_append, invoked_gattSend] at hmem
      exact len_mtuChange addr _ _ _ call hmem
    · have hnone := invoked_findInfoRsp addr g.serviceList ⟨pdu.u16 0, pdu.u16 2⟩
      intro call hcall
      exact absurd (hnone ▸ hcall) List.not_mem_nil
    · have hnone := invoked_readByTypeRsp l addr g.serviceList ⟨pdu.u16 0, pdu.u16 2⟩
        (requestUuid pdu len.toUInt16 l)
      intro call hcall
      exact absurd (hnone ▸ hcall) List.not_mem_nil
    · have hnone := invoked_readByGrpTypeRsp l addr g.serviceList ⟨pdu.u16 0, pdu.u16 2⟩
        (requestUuid pdu len.toUInt16 l)
      intro call hcall
      exact absurd (hnone ▸ hcall) List.not_mem_nil
  · exact absurd h' h
  · simp [receive_default g l addr pdu len (List.mem_append_right _ h')]

end Len

/-! ## The read from the socket -/

/-- Behind a non-empty read the length is the number of parameter bytes. -/
theorem toNat_readLength {data : List UInt8} (hdata : data.length ≤ 1024)
    (h : 2 ≤ data.tail.length) :
    (UInt32.ofInt ((data.length : Int) - 1)).toUInt16.toNat = data.tail.length := by
  rw [List.length_tail] at h ⊢
  have hint : (data.length : Int) - 1 = ((data.length - 1 : ℕ) : Int) := by omega
  rw [hint, UInt32.ofInt, UInt32.toNat_toUInt16]
  simp
  omega

/-- The PDU is the received bytes behind the opcode. -/
theorem read_behind_opcode (buf : Mem) (data : List UInt8) :
    Mem.read (fun i => buf.write 0 data (1 + i)) 0 data.tail.length = data.tail := by
  cases data with
  | nil => rfl
  | cons b data =>
      have h := Mem.read_write buf (b :: data) 0 1 data.length (by simp [Nat.add_comm])
      rw [Mem.read_offset]
      simpa using h

/-- A run on the received bytes alone is the run on memory. -/
theorem receive_of_checked {g : GattServices σ} {l : Locals} {addr : BdAddr} {opcode : UInt8}
    {params : List UInt8} {pdu : Mem} {len : UInt32} {r : GattServices σ × List (Event σ)}
    (hpdu : pdu.read 0 params.length = params)
    (h : receiveChecked g l addr params opcode pdu len = some r) :
    receive g l addr opcode pdu len = r := by
  have hrefine := (agrees_received hpdu l).onReceive g l addr opcode len.toUInt16 r
  rw [onReceive_mem] at hrefine
  rw [receiveChecked, attIoReceive] at h
  rw [receive, attIoReceive]
  cases htype : getOpType opcode
  all_goals
    simp only [htype] at h ⊢
    first
      | exact hrefine h
      | exact Option.some.inj h

/-- **Malformed PDUs.** Whatever the socket returns, an empty read included, whatever the
stack holds and in every state of the server: the handler keeps to the received bytes
exactly if they are long enough. -/
theorem malformed_pdu_iff (g : GattServices σ) (l : Locals) (addr : BdAddr) (buf : Mem)
    {data : List UInt8} (hdata : data.length ≤ 1024) :
    Confined g l addr buf data ↔
      LongEnough g.serviceList (buf.write 0 data 0) data.tail := by
  have hlen := toNat_readLength hdata
  have hpdu := read_behind_opcode buf data
  have hiff := receiveChecked_isSome_iff g l addr (buf.write 0 data 0)
    (fun i => buf.write 0 data (1 + i)) hlen
  simp only [Confined, ioReadCallback]
  rw [← hiff]
  constructor
  · rintro ⟨r, hr, -⟩
    rw [hr]
    rfl
  · intro hsome
    have hlong := hiff.mp hsome
    obtain ⟨r, hr⟩ := Option.isSome_iff_exists.mp hsome
    refine ⟨r, hr, receive_of_checked hpdu hr, ?_⟩
    rw [← receive_of_checked hpdu hr]
    generalize buf.write 0 data 0 = opcode at hlong ⊢
    intro call hcall
    by_cases hop : opcode ∈ handleRequests
    · have htwo : 2 ≤ data.tail.length := by
        rw [LongEnough] at hlong
        split_ifs at hlong
        · exact hlong
        · omega
        · omega
        · exact hlong.1
      rw [receive_handle g l addr _ _ hop] at hcall
      have hcall' := len_accessHandle g l addr opcode _ _ call hcall
      have hsub : ∀ x : UInt16, 2 ≤ x.toNat → (x - 2).toNat = x.toNat - 2 := by
        intro x hx
        exact UInt16.toNat_sub_of_le _ _ (UInt16.le_iff_toNat_le.mpr (by simpa using hx))
      have hlen' := hlen htwo
      rw [hsub _ (by omega)] at hcall'
      omega
    · rw [len_receive g l addr opcode _ hop _ call hcall]
      exact Nat.zero_le _

/-- A server in front of the battery service receives an MTU request. -/
theorem malformed_pdu_iff_mtu :
    Confined batterySession.server (batterySession.locals 0) ⟨#v[1, 2, 3, 4, 5, 6]⟩
      (fun _ => 0) [btAttOpMtuReq, 0x17, 0x00] := by
  refine (malformed_pdu_iff _ _ _ _ (by decide)).mpr ?_
  show 2 ≤ 2
  exact le_rfl

/-- An MTU request of its opcode alone: two bytes behind it are taken for the MTU. -/
theorem mtu_request_unconfined :
    ¬ Confined batterySession.server (batterySession.locals 0) ⟨#v[1, 2, 3, 4, 5, 6]⟩
      (fun _ => 0) [btAttOpMtuReq] := by
  rintro ⟨r, hr, -⟩
  have hnone : ioReadCallback (receiveChecked batterySession.server (batterySession.locals 0)
      ⟨#v[1, 2, 3, 4, 5, 6]⟩ []) (fun _ => 0) [btAttOpMtuReq] = none := rfl
  rw [List.tail_cons, hnone] at hr
  cases hr

end CCode.Gatt
