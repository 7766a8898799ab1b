import CCode.Gatt.HidDevice
import CCode.Gatt.Replies
import Mathlib.Order.Defs.Unbundled

/-!
# What a step of the server leaves alone

The services stay as they were registered, up to the MTU they are told. Their state changes
through their callbacks only: a relation that every callback keeps to is one that every step
keeps to. `receive_keeps` and `connChange_keeps` say so for the callbacks of any services,
`serve_keeps` for a server that the HID service is part of, where the other services cannot
reach the state of `hid_device.c`.

A written descriptor is left out of `GattsCb.Keeps`; what happens there depends on the PDU.

## Main definitions

* `GattsCb.Keeps` — callbacks that keep to a relation on the states.
* `GattsCb.Foreign`, `Hosted` — databases that the HID service can be part of.
-/

namespace CCode.Gatt

open CCode.Lib

variable {σ τ : Type}

/-! ## The services -/

/-- An MTU exchange changes the MTU of the services only. -/
theorem mtuChange_services (addr : BdAddr) (mtu : UInt16) (ss : List (GattService σ)) (w : σ) :
    (mtuChange addr mtu ss w).1 = ss.map fun s => { s with mtu := (mtu.toNat : Int) } := by
  induction ss generalizing w with
  | nil => rfl
  | cons s ss ih => simp [mtuChange, ih]

/-- A handle is looked up among the services and their characteristics. -/
theorem mem_of_getHandleInfo {ss : List (GattService σ)} {handle : UInt16} {s : GattService σ}
    {c : GattCharacter} {t : HandleType} (h : getHandleInfo ss handle = some (s, c, t)) :
    s ∈ ss ∧ c ∈ s.characterList := by
  rw [getHandleInfo] at h
  split_ifs at h
  split at h
  · simp at h
  · rename_i s' hs
    split at h
    · simp at h
    · rename_i c' hc
      have hmem := List.mem_of_find?_eq_some hs
      have hmem' := List.mem_of_find?_eq_some hc
      split_ifs at h <;> simp only [Option.some.injEq, Prod.mk.injEq] at h <;>
        obtain ⟨rfl, rfl, -⟩ := h <;> exact ⟨hmem, hmem'⟩

theorem accessHandle_serviceList (g : GattServices σ) (addr : BdAddr) (opcode : UInt8)
    (pdu : Mem) (length : UInt16) (l : Locals) :
    (accessHandle g addr opcode pdu length l).1.serviceList = g.serviceList := by
  rw [accessHandle]
  split
  · rw [accessCharacter]
    split_ifs
    · rfl
    · rfl
    · split <;> rfl
    · rfl
  · rw [accessDescConf]
    split_ifs <;> rfl
  · rfl

/-- The services stay the same up to their MTU. -/
theorem serve_serviceList (g : GattServices (Hid × τ)) (i : Input) :
    (serve g i).1.serviceList = g.serviceList ∨
      ∃ mtu : Int, (serve g i).1.serviceList = g.serviceList.map fun s => { s with mtu } := by
  cases i with
  | pdu l addr opcode pdu len =>
      rcases receive_state g l addr pdu len opcode with h | ⟨-, h⟩ | ⟨-, h⟩
      · exact .inl (congrArg GattServices.serviceList h)
      · right
        refine ⟨((pdu.u16 0).toNat : Int), ?_⟩
        rw [serve, h]
        exact mtuChange_services addr _ _ _
      · left
        rw [serve, h]
        exact accessHandle_serviceList g addr opcode pdu _ l
  | connected addr => exact .inl rfl
  | disconnected addr => exact .inl rfl
  | key ch beyond => exact .inl rfl

/-- So what holds of the callbacks of all services goes on holding. -/
theorem serve_forall_ioCb {g : GattServices (Hid × τ)} {P : GattsCb (Hid × τ) → Prop}
    (h : ∀ s ∈ g.serviceList, P s.ioCb) (i : Input) :
    ∀ s ∈ (serve g i).1.serviceList, P s.ioCb := by
  rcases serve_serviceList g i with heq | ⟨mtu, heq⟩
  · rw [heq]
    exact h
  · rw [heq]
    intro s hs
    obtain ⟨s', hs', rfl⟩ := List.mem_map.mp hs
    exact h s' hs'

/-- What holds of the callbacks that are registered holds of those of all services. -/
theorem registerGattService_forall_ioCb {ss : List (GattService σ)} {P : GattsCb σ → Prop}
    (h : ∀ s ∈ ss, P s.ioCb) (s : GattService σ) {ioCb : GattsCb σ} (hcb : P ioCb) :
    ∀ t ∈ registerGattService ss s ioCb, P t.ioCb := by
  intro t ht
  rcases List.mem_append.mp ht with ht | ht
  · exact h t ht
  · rw [List.mem_singleton.mp ht]
    exact hcb

/-! ## The state of the services -/

/-- All callbacks but the one for a written descriptor keep to the relation. -/
structure GattsCb.Keeps (R : σ → σ → Prop) (cb : GattsCb σ) : Prop where
  connection : ∀ addr newState w, R w (cb.onConnectionStateChange addr newState w)
  read : ∀ addr uuid w buf len, R w (cb.onCharacterRead addr uuid w buf len).1
  write : ∀ addr uuid buf w, R w (cb.onCharacterWrite addr uuid buf w)
  descRead : ∀ addr uuid w desc, R w (cb.onDescriptorRead addr uuid w desc).1
  mtu : ∀ addr (mtu : UInt16) w, R w (cb.onMtuChanged addr mtu.toNat w)
  readBlob : ∀ f, cb.onCharacterReadBlob = some f →
    ∀ addr uuid w offset buf len, R w (f addr uuid w offset buf len).1

section Keeps

variable {R : σ → σ → Prop} [IsPreorder σ R] {g : GattServices σ} {addr : BdAddr}
  {opcode : UInt8} {pdu : Mem}

theorem mtuChange_keeps {ss : List (GattService σ)} (h : ∀ s ∈ ss, s.ioCb.Keeps R)
    (addr : BdAddr) (mtu : UInt16) (w : σ) : R w (mtuChange addr mtu ss w).2.1 := by
  induction ss generalizing w with
  | nil => exact refl_of R w
  | cons s ss ih =>
      obtain ⟨hs, hss⟩ := List.forall_mem_cons.mp h
      exact trans_of R (hs.mtu addr mtu w) (ih hss _)

theorem connChange_keeps {ss : List (GattService σ)} (h : ∀ s ∈ ss, s.ioCb.Keeps R)
    (addr : BdAddr) (status : Int) (w : σ) :
    R w (ss.foldl (fun w s => s.ioCb.onConnectionStateChange addr status w) w) := by
  induction ss generalizing w with
  | nil => exact refl_of R w
  | cons s ss ih =>
      obtain ⟨hs, hss⟩ := List.forall_mem_cons.mp h
      exact trans_of R (hs.connection addr status w) (ih hss _)

theorem accessCharacter_keeps {s : GattService σ} (h : s.ioCb.Keeps R) (c : GattCharacter)
    (length : UInt16) : R g.world (accessCharacter g addr opcode pdu length s c).1.world := by
  rw [accessCharacter]
  split_ifs
  · exact h.write addr c.uuid _ g.world
  · exact h.read addr c.uuid g.world g.rspPdu 0
  · split
    case h_1 f hf => exact h.readBlob f hf addr c.uuid g.world _ g.rspPdu 0
    case h_2 => exact refl_of R _
  · exact refl_of R _

theorem accessDescConf_keeps {s : GattService σ} (h : s.ioCb.Keeps R) (c : GattCharacter)
    (l : Locals) (hwrite : opcode = btAttOpWriteReq →
      R g.world (s.ioCb.onDescriptorWrite addr c.uuid (pdu.u16 2) g.world)) :
    R g.world (accessDescConf g addr opcode pdu s c l).1.world := by
  rw [accessDescConf]
  split_ifs with hop
  · exact hwrite hop
  · exact h.descRead addr c.uuid g.world l.descValue
  · exact refl_of R _

/-- **A PDU changes the state through callbacks only.** -/
theorem receive_keeps (h : ∀ s ∈ g.serviceList, s.ioCb.Keeps R) (l : Locals) (len : UInt32)
    (hwrite : opcode = btAttOpWriteReq → ∀ s c,
      getHandleInfo g.serviceList (pdu.u16 0) = some (s, c, .descConf) →
      R g.world (s.ioCb.onDescriptorWrite addr c.uuid (pdu.u16 2) g.world)) :
    R g.world (receive g l addr opcode pdu len).1.world := by
  rcases receive_state g l addr pdu len opcode with heq | ⟨-, heq⟩ | ⟨-, heq⟩
  · rw [heq]
    exact refl_of R _
  · rw [heq]
    exact mtuChange_keeps h addr _ g.world
  · rw [heq, accessHandle]
    split
    case h_1 s c hinfo => exact accessCharacter_keeps (h s (mem_of_getHandleInfo hinfo).1) c _
    case h_2 s c hinfo =>
      refine accessDescConf_keeps (h s (mem_of_getHandleInfo hinfo).1) c l ?_
      intro hop
      exact hwrite hop s c hinfo
    case h_3 => exact refl_of R _

end Keeps

/-! ## The state of the HID service -/

/-- The callbacks leave the state of the HID service alone. -/
structure GattsCb.Foreign (cb : GattsCb (Hid × τ)) : Prop where
  connection : ∀ addr newState w, (cb.onConnectionStateChange addr newState w).1 = w.1
  read : ∀ addr uuid w buf len, (cb.onCharacterRead addr uuid w buf len).1.1 = w.1
  write : ∀ addr uuid buf w, (cb.onCharacterWrite addr uuid buf w).1 = w.1
  descRead : ∀ addr uuid w desc, (cb.onDescriptorRead addr uuid w desc).1.1 = w.1
  descWrite : ∀ addr uuid desc w, (cb.onDescriptorWrite addr uuid desc w).1 = w.1
  mtu : ∀ addr mtu w, (cb.onMtuChanged addr mtu w).1 = w.1
  readBlob : ∀ f, cb.onCharacterReadBlob = some f →
    ∀ addr uuid w offset buf len, (f addr uuid w offset buf len).1.1 = w.1

/-- Every service has the callbacks of the HID service or leaves its state alone. -/
def Hosted (ss : List (GattService (Hid × τ))) : Prop :=
  ∀ s ∈ ss, s.ioCb = hidCb ∨ s.ioCb.Foreign

theorem serve_hosted {g : GattServices (Hid × τ)} (h : Hosted g.serviceList) (i : Input) :
    Hosted (serve g i).1.serviceList :=
  serve_forall_ioCb (P := fun cb => cb = hidCb ∨ cb.Foreign) h i

section Hid

variable {R : Hid → Hid → Prop} [IsPreorder Hid R]

/-- The relation on the first part of the state. -/
def OnHid (R : Hid → Hid → Prop) (w w' : Hid × τ) : Prop := R w.1 w'.1

instance : IsPreorder (Hid × τ) (OnHid R) where
  refl w := refl_of R w.1
  trans _ _ _ h h' := trans_of R h h'

theorem OnHid.of_eq {w w' : Hid × τ} (h : w'.1 = w.1) : OnHid R w w' := by
  rw [OnHid, h]
  exact refl_of R w.1

theorem GattsCb.Foreign.keeps {cb : GattsCb (Hid × τ)} (h : cb.Foreign) : cb.Keeps (OnHid R) where
  connection addr newState w := .of_eq (h.connection addr newState w)
  read addr uuid w buf len := .of_eq (h.read addr uuid w buf len)
  write addr uuid buf w := .of_eq (h.write addr uuid buf w)
  descRead addr uuid w desc := .of_eq (h.descRead addr uuid w desc)
  mtu addr mtu w := .of_eq (h.mtu addr mtu.toNat w)
  readBlob f hf addr uuid w offset buf len := .of_eq (h.readBlob f hf addr uuid w offset buf len)

theorem Hosted.keeps {ss : List (GattService (Hid × τ))} (h : Hosted ss)
    (hhid : (hidCb : GattsCb (Hid × τ)).Keeps (OnHid R)) :
    ∀ s ∈ ss, s.ioCb.Keeps (OnHid R) := by
  intro s hs
  rcases h s hs with heq | hf
  · rw [heq]
    exact hhid
  · exact hf.keeps

/-- **A step keeps to what the callbacks of the HID service keep to**, if a write to one of
its descriptors does. -/
theorem serve_keeps {g : GattServices (Hid × τ)} (h : Hosted g.serviceList)
    (hhid : (hidCb : GattsCb (Hid × τ)).Keeps (OnHid R)) (i : Input)
    (hwrite : ∀ l addr pdu len, i = .pdu l addr btAttOpWriteReq pdu len → ∀ s c,
      getHandleInfo g.serviceList (pdu.u16 0) = some (s, c, .descConf) → s.ioCb = hidCb →
      R g.world.1 (HidDevice.onDescriptorWrite addr c.uuid (pdu.u16 2) g.world.1)) :
    R g.world.1 (serve g i).1.world.1 := by
  have hall := h.keeps hhid
  cases i with
  | pdu l addr opcode pdu len =>
      refine receive_keeps hall l len ?_
      intro hop s c hinfo
      rcases h s (mem_of_getHandleInfo hinfo).1 with heq | hf
      · rw [heq]
        exact hwrite l addr pdu len (hop ▸ rfl) s c hinfo heq
      · exact .of_eq (hf.descWrite addr c.uuid _ g.world)
  | connected addr => exact connChange_keeps hall addr _ g.world
  | disconnected addr => exact connChange_keeps hall addr _ g.world
  | key ch beyond => exact refl_of R _

end Hid

end CCode.Gatt
