import CCode.Gatt.Allocation
import CCode.Gatt.Discovery
import CCode.Gatt.Frame

/-!
# Where notifications go

A client subscribes to a characteristic by writing to its descriptor. The server finds the
characteristic by the handle and tells the service its UUID; the service stores the UUID,
and a notification goes to the first characteristic with that UUID in the whole database. So
the characteristic is lost in between where another one before it has the same UUID, as the
two reports of the HID service have.

`notification_routing_iff` says for which characteristics of which databases every later
notification carries the right handle. The database is any list of services that have the
callbacks of the HID service or leave its state alone.

## Main definitions

* `Stores` — a step that stores a subscription.
* `RoutesTo` — notifications of a subscription carry the handle of its characteristic.
* `Unshadowed` — the condition for that.
-/

namespace CCode.Gatt

open CCode.Lib

variable {σ τ : Type}

/-! ## The database -/

/-- All characteristics of a database in order. -/
def characters (ss : List (GattService σ)) : List GattCharacter :=
  ss.flatMap GattService.characterList

/-- The search over the services is one over all characteristics. -/
theorem findChacByUuid_eq (ss : List (GattService σ)) (uuid : BtUuid) :
    findChacByUuid ss uuid = (characters ss).find? (findChacByUuidCb uuid) := by
  induction ss with
  | nil => rfl
  | cons s ss ih =>
      rw [characters] at ih
      rw [characters, List.flatMap_cons, List.find?_append, ← ih, findChacByUuid,
        List.find?_cons]
      cases h : s.characterList.find? (findChacByUuidCb uuid) with
      | some c => simp [findChacIsInServiceByUuidCb, h]
      | none => simp [findChacIsInServiceByUuidCb, h, findChacByUuid]

/-! ## What keeps a subscription -/

/-- A subscription that is there afterwards was there before. -/
def Hid.Keeps (h h' : Hid) : Prop :=
  h'.device.isPaired = true →
    h.device.isPaired = true ∧ h'.device.descUuid = h.device.descUuid

instance : IsPreorder Hid Hid.Keeps where
  refl _ := fun hp => ⟨hp, rfl⟩
  trans _ _ _ h₁ h₂ := by
    intro hp
    obtain ⟨hp', hu'⟩ := h₂ hp
    obtain ⟨hp'', hu''⟩ := h₁ hp'
    exact ⟨hp'', hu'.trans hu''⟩

theorem hidCb_keeps : (hidCb : GattsCb (Hid × τ)).Keeps (OnHid Hid.Keeps) where
  connection addr newState w := by
    intro hp
    simp only [hidCb, HidDevice.onConnectionStateChange] at hp
    split_ifs at hp
    · simp [Device.zero] at hp
  read _ _ w _ _ := refl_of _ w
  write _ _ _ w := refl_of _ w
  descRead addr uuid w desc := by
    intro hp
    simp only [hidCb, HidDevice.onDescriptorRead] at hp ⊢
    split_ifs at hp ⊢
    · exact ⟨hp, rfl⟩
    · exact ⟨hp, rfl⟩
  mtu _ _ _ := fun hp => ⟨hp, rfl⟩
  readBlob f hf addr uuid w offset buf len := by
    simp only [hidCb, Option.some.injEq] at hf
    subst hf
    exact refl_of _ w

/-! ## One step -/

/-- The link becomes secure within the tries of `onDescriptorWrite`. -/
def Hid.granted (h : Hid) : Bool := (HidDevice.waitSecure 30 h.security).1

/-- The PDU is a write to the descriptor handle that the HID service accepts. -/
def Accepts (g : GattServices (Hid × τ)) (opcode : UInt8) (pdu : Mem) : Prop :=
  opcode = btAttOpWriteReq ∧ g.world.1.granted = true ∧
    ∃ s c, getHandleInfo g.serviceList (pdu.u16 0) = some (s, c, .descConf) ∧ s.ioCb = hidCb

/-- The step stores a subscription. -/
def Stores (g : GattServices (Hid × τ)) : Input → Prop
  | .pdu _ _ opcode pdu _ => Accepts g opcode pdu
  | _ => False

/-- What an accepted write stores. -/
theorem onDescriptorWrite_granted {h : Hid} (hg : h.granted = true) (addr : BdAddr)
    (uuid : BtUuid) (desc : UInt16) :
    (HidDevice.onDescriptorWrite addr uuid desc h).device =
      { h.device with status := desc, addr, descUuid := uuid, isPaired := true } := by
  simp only [Hid.granted] at hg
  simp only [HidDevice.onDescriptorWrite, hg, if_true]

theorem onDescriptorWrite_not_granted {h : Hid} (hg : ¬ h.granted = true) (addr : BdAddr)
    (uuid : BtUuid) (desc : UInt16) :
    (HidDevice.onDescriptorWrite addr uuid desc h).device = h.device := by
  simp only [Hid.granted] at hg
  simp only [HidDevice.onDescriptorWrite, if_neg hg]

/-- The characteristics stay. -/
theorem serve_characters (g : GattServices (Hid × τ)) (i : Input) :
    characters (serve g i).1.serviceList = characters g.serviceList := by
  rcases serve_serviceList g i with h | ⟨mtu, h⟩
  · rw [h]
  · rw [h, characters, List.flatMap_map]
    rfl

/-- **A step that stores no subscription keeps the one there is.** -/
theorem serve_keeps_subscription {g : GattServices (Hid × τ)} (h : Hosted g.serviceList)
    {i : Input} (hno : ¬ Stores g i) : g.world.1.Keeps (serve g i).1.world.1 := by
  refine serve_keeps h hidCb_keeps i ?_
  intro l addr pdu len hi s c hinfo hcb
  have hg : ¬ g.world.1.granted = true := by
    intro hg
    rw [hi] at hno
    exact hno ⟨rfl, hg, s, c, hinfo, hcb⟩
  intro hp
  rw [onDescriptorWrite_not_granted hg] at hp ⊢
  exact ⟨hp, rfl⟩

/-! ## Runs -/

/-- One step of the server as a step of runs. -/
def serveStep (g : GattServices (Hid × τ)) (i : Input) : Option (GattServices (Hid × τ)) :=
  some (serve g i).1

/-- **Routing.** After a write to the characteristic's descriptor that was accepted, and as
long as no other one was, every notification carries the characteristic's value handle. -/
def RoutesTo (ss : List (GattService (Hid × τ))) (c : GattCharacter) : Prop :=
  ∀ (g : GattServices (Hid × τ)) (l : Locals) (addr : BdAddr) (pdu : Mem) (len : UInt32),
    g.serviceList = ss → pdu.u16 0 = c.descHandle → Accepts g btAttOpWriteReq pdu →
    ∀ (inputs : List Input) (g' : GattServices (Hid × τ)),
      Runs serveStep (fun g i => ¬ Stores g i) (serve g (.pdu l addr btAttOpWriteReq pdu len)).1
        inputs g' →
      ∀ ch beyond, ∀ sent ∈ sentPdus (serve g' (.key ch beyond)).2,
        sent.2.params.take 2 = le16 c.valueHandle

/-- The characteristic whose descriptor has the handle shares its UUID with none before the
one with the value handle. -/
def Unshadowed (ss : List (GattService (Hid × τ))) (c : GattCharacter) : Prop :=
  ∀ s d, getHandleInfo ss c.descHandle = some (s, d, .descConf) → s.ioCb = hidCb →
    ∃ pre e post, characters ss = pre ++ e :: post ∧ e.valueHandle = c.valueHandle ∧
      btUuidCmp e.uuid d.uuid = 0 ∧ ∀ x ∈ pre, btUuidCmp x.uuid d.uuid ≠ 0

/-- The first characteristic with a UUID. -/
theorem findChacByUuid_eq_some_iff {ss : List (GattService σ)} {uuid : BtUuid}
    {e : GattCharacter} :
    findChacByUuid ss uuid = some e ↔ ∃ pre post, characters ss = pre ++ e :: post ∧
      btUuidCmp e.uuid uuid = 0 ∧ ∀ x ∈ pre, btUuidCmp x.uuid uuid ≠ 0 := by
  rw [findChacByUuid_eq, List.find?_eq_some_iff_append]
  simp only [findChacByUuidCb, decide_eq_true_eq, Bool.not_eq_true', decide_eq_false_iff_not]
  constructor
  · intro ⟨hcmp, pre, post, heq, hpre⟩
    exact ⟨pre, post, heq, hcmp, hpre⟩
  · intro ⟨pre, post, heq, hcmp, hpre⟩
    exact ⟨hcmp, pre, post, heq, hpre⟩

/-- A notification carries the value handle of the first characteristic with the UUID. -/
theorem sentPdus_gattsSendNotification (ss : List (GattService σ)) (addr : BdAddr)
    (uuid : BtUuid) (buf : List UInt8) :
    sentPdus (gattsSendNotification ss addr uuid buf) =
      ((findChacByUuid ss uuid).map fun e =>
        (addr, (⟨btAttOpHandleValNot, le16 e.valueHandle ++ buf⟩ : Pdu))).toList := by
  have htype : getOpType btAttOpHandleValNot = .not := by decide
  rw [gattsSendNotification]
  cases findChacByUuid ss uuid with
  | none => rfl
  | some e => simp [gattSend, attSend, htype]

/-- What a key press sends goes to the first characteristic with the stored UUID. -/
theorem mem_sentPdus_sendAscII {ss : List (GattService σ)} {h : Hid} {ch : UInt8}
    {beyond : UInt8 × UInt8} {sent : BdAddr × Pdu}
    (hsent : sent ∈ sentPdus (sendAscII ss h ch beyond)) :
    h.device.isPaired = true ∧ ∃ e buf, findChacByUuid ss h.device.descUuid = some e ∧
      buf.length = 8 ∧
        sent = (h.device.addr, ⟨btAttOpHandleValNot, le16 e.valueHandle ++ buf⟩) := by
  simp only [sendAscII] at hsent
  split_ifs at hsent with hpaired hcode
  · simp at hsent
  · refine ⟨hpaired.1, ?_⟩
    simp only [sentPdus_append, sentPdus_gattsSendNotification, List.mem_append,
      Option.mem_toList, Option.map_eq_some_iff] at hsent
    rcases hsent with ⟨e, he, heq⟩ | ⟨e, he, heq⟩
    · exact ⟨e, _, he, rfl, heq.symm⟩
    · exact ⟨e, _, he, rfl, heq.symm⟩
  · simp at hsent

/-- An accepted write stores the UUID of the characteristic that the handle resolves to. -/
theorem serve_accepted {g : GattServices (Hid × τ)} {pdu : Mem} {s : GattService (Hid × τ)}
    {d : GattCharacter}
    (hinfo : getHandleInfo g.serviceList (pdu.u16 0) = some (s, d, .descConf))
    (hcb : s.ioCb = hidCb) (hg : g.world.1.granted = true) (l : Locals) (addr : BdAddr)
    (len : UInt32) :
    (serve g (.pdu l addr btAttOpWriteReq pdu len)).1.world.1.device =
      { g.world.1.device with
        status := pdu.u16 2, addr, descUuid := d.uuid, isPaired := true } := by
  rw [serve, receive_handle g l addr pdu len (by decide), accessHandle, hinfo]
  simp only [accessDescConf, if_true, hcb, hidCb]
  exact onDescriptorWrite_granted hg addr d.uuid _

/-- **Enough**: no notification of the subscription goes astray. -/
theorem Unshadowed.routesTo {ss : List (GattService (Hid × τ))} {c : GattCharacter}
    (h : Unshadowed ss c) (hhosted : Hosted ss) : RoutesTo ss c := by
  intro g l addr pdu len hss hhandle haccept inputs g' hrun ch beyond sent hsent
  obtain ⟨-, hg, s, d, hinfo, hcb⟩ := haccept
  have hdev := serve_accepted hinfo hcb hg l addr len
  have hinv : Hosted g'.serviceList ∧ characters g'.serviceList = characters ss ∧
      (g'.world.1.device.isPaired = true → g'.world.1.device.descUuid = d.uuid) := by
    refine hrun.invariant (P := fun u => Hosted u.serviceList ∧
      characters u.serviceList = characters ss ∧
      (u.world.1.device.isPaired = true → u.world.1.device.descUuid = d.uuid)) ⟨?_, ?_, ?_⟩ ?_
    · exact serve_hosted (hss ▸ hhosted) _
    · rw [serve_characters, hss]
    · intro _
      rw [hdev]
    · intro u i v ⟨hu, hchars, huuid⟩ hno hstep
      obtain rfl := Option.some.inj hstep
      refine ⟨serve_hosted hu i, (serve_characters u i).trans hchars, ?_⟩
      intro hp
      obtain ⟨hp', heq⟩ := serve_keeps_subscription hu hno hp
      rw [heq]
      exact huuid hp'
  obtain ⟨-, hchars, huuid⟩ := hinv
  obtain ⟨hp, e, buf, he, -, rfl⟩ := mem_sentPdus_sendAscII hsent
  rw [hhandle, hss] at hinfo
  obtain ⟨pre, e', post, hdb, hvalue, hcmp, hpre⟩ := h s d hinfo hcb
  rw [huuid hp, findChacByUuid_eq, hchars, ← findChacByUuid_eq,
    findChacByUuid_eq_some_iff.mpr ⟨pre, post, hdb, hcmp, hpre⟩] at he
  obtain rfl := Option.some.inj he
  rw [← hvalue]
  simp [le16]

/-- A client configuration write. -/
def descWrite (handle desc : UInt16) : Mem := Mem.write (fun _ => 0) 0 (le16 handle ++ le16 desc)

theorem u16_descWrite (handle desc : UInt16) :
    (descWrite handle desc).u16 0 = handle ∧ (descWrite handle desc).u16 2 = desc :=
  Mem.u16_write_pair _ handle desc

/-- A server on the services, with a secure link. -/
def secureServer [Inhabited τ] (ss : List (GattService (Hid × τ))) : GattServices (Hid × τ) where
  serviceList := ss
  rspPdu := fun _ => 0
  rspLen := 0
  world := (⟨.zero, 0, fun _ => 0, fun _ => btSecurityHigh⟩, default)

theorem btUuidCmp_self (uuid : BtUuid) : btUuidCmp uuid uuid = 0 :=
  (memcmp_eq_zero_iff rfl).mpr rfl

theorem le16_injective {v w : UInt16} (h : le16 v = le16 w) : v = w := by
  simp only [le16, List.cons.injEq, and_true] at h
  rw [← ofLe16_bytes v, ← ofLe16_bytes w, h.1, h.2]

/-- The letter `a` on a server with a subscription. -/
theorem sentPdus_sendAscII_letter {ss : List (GattService σ)} {h : Hid} {e : GattCharacter}
    (hp : h.device.isPaired = true) (hs : h.device.status &&& descreptorNotification ≠ 0)
    (he : findChacByUuid ss h.device.descUuid = some e) (beyond : UInt8 × UInt8) :
    sentPdus (sendAscII ss h 0x61 beyond) =
      [(h.device.addr, ⟨btAttOpHandleValNot, le16 e.valueHandle ++ [0, 0, 4, 0, 0, 0, 0, 0]⟩),
       (h.device.addr, ⟨btAttOpHandleValNot, le16 e.valueHandle ++ List.replicate 8 0⟩)] := by
  have hkey : keyMap.getD (0x61 : UInt8).toNat beyond = (0, 0x04) := rfl
  have hcode : ¬ (0x04 : UInt8) = 0 := by decide
  simp only [sendAscII, if_pos (And.intro hp hs), hkey, if_neg hcode, sentPdus_append,
    sentPdus_gattsSendNotification, he, Option.map_some, Option.toList_some, List.singleton_append]

/-- A subscription for notifications, and the letter `a` behind it. -/
theorem mem_sentPdus_letter {g : GattServices (Hid × τ)} {pdu : Mem} {s : GattService (Hid × τ)}
    {d e : GattCharacter}
    (hinfo : getHandleInfo g.serviceList (pdu.u16 0) = some (s, d, .descConf))
    (hcb : s.ioCb = hidCb) (hg : g.world.1.granted = true)
    (hdesc : pdu.u16 2 &&& descreptorNotification ≠ 0)
    (he : findChacByUuid g.serviceList d.uuid = some e) (l : Locals) (addr : BdAddr)
    (len : UInt32) (beyond : UInt8 × UInt8) :
    (addr, ⟨btAttOpHandleValNot, le16 e.valueHandle ++ [0, 0, 4, 0, 0, 0, 0, 0]⟩) ∈
      sentPdus (serve (serve g (.pdu l addr btAttOpWriteReq pdu len)).1 (.key 0x61 beyond)).2 := by
  have hdev := serve_accepted hinfo hcb hg l addr len
  have hchars := serve_characters g (.pdu l addr btAttOpWriteReq pdu len)
  generalize (serve g (.pdu l addr btAttOpWriteReq pdu len)).1 = g' at hdev hchars ⊢
  have he' : findChacByUuid g'.serviceList g'.world.1.device.descUuid = some e := by
    rw [findChacByUuid_eq, hchars, ← findChacByUuid_eq, hdev]
    exact he
  have hstatus : g'.world.1.device.status &&& descreptorNotification ≠ 0 := by
    rw [hdev]
    exact hdesc
  rw [serve, sentPdus_sendAscII_letter (congrArg Device.isPaired hdev) hstatus he', hdev]
  exact List.mem_cons_self

/-- **Needed**: a subscription and one key. -/
theorem RoutesTo.unshadowed [Inhabited τ] {ss : List (GattService (Hid × τ))} {c : GattCharacter}
    (h : RoutesTo ss c) : Unshadowed ss c := by
  intro s d hinfo hcb
  obtain ⟨hhandle, hdesc⟩ := u16_descWrite c.descHandle descreptorNotification
  generalize descWrite c.descHandle descreptorNotification = pdu at hhandle hdesc
  have hg : (secureServer ss).world.1.granted = true := rfl
  have hnotify : pdu.u16 2 &&& descreptorNotification ≠ 0 := by
    rw [hdesc]
    decide
  rw [← hhandle] at hinfo
  -- some characteristic has the UUID
  obtain ⟨e, he⟩ : ∃ e, findChacByUuid ss d.uuid = some e := by
    obtain ⟨hs, hd⟩ := mem_of_getHandleInfo hinfo
    rw [findChacByUuid_eq, ← Option.isSome_iff_exists, List.find?_isSome]
    refine ⟨d, List.mem_flatMap.mpr ⟨s, hs, hd⟩, ?_⟩
    simp [findChacByUuidCb, btUuidCmp_self]
  have hsent := mem_sentPdus_letter (g := secureServer ss) hinfo hcb hg hnotify he
    ⟨.u16 0, Vector.replicate 16 0, 0⟩ ⟨Vector.replicate 6 0⟩ 4 (0, 0)
  have htake := h (secureServer ss) _ _ pdu 4 rfl hhandle ⟨rfl, hg, s, d, hinfo, hcb⟩ [] _ .refl
    0x61 (0, 0) _ hsent
  have hvalue : e.valueHandle = c.valueHandle := le16_injective (by simpa [le16] using htake)
  obtain ⟨pre, post, hdb, hcmp, hpre⟩ := findChacByUuid_eq_some_iff.mp he
  exact ⟨pre, e, post, hdb, hvalue, hcmp, hpre⟩

/-! ## Databases that did not wrap -/

section Laid

variable {ss : List (GattService σ)} {last : ℕ} {s : GattService σ} {c d : GattCharacter}

/-- A handle that a characteristic answers to is one of its own. -/
theorem CharLaid.mem_handles_of_find {e : ℕ} (h : CharLaid e c) {handle : UInt16}
    (hne : handle ≠ 0) (hfind : findGattCharacterByHandleCb handle c = true) :
    handle ∈ c.handles := by
  simp only [findGattCharacterByHandleCb, decide_eq_true_eq] at hfind
  simp only [GattCharacter.handles, List.mem_filter, List.mem_cons, List.not_mem_nil, or_false,
    decide_eq_true_eq]
  refine ⟨?_, hne⟩
  rcases hfind with htype | hvalue | hrpt | hdesc
  · left
    have := h.type
    have := h.value
    exact UInt16.toNat_inj.mp (by omega)
  · exact .inr (.inl hvalue)
  · exact .inr (.inr (.inr hrpt))
  · exact .inr (.inr (.inl hdesc))

/-- A characteristic of a laid out service is laid out. -/
theorem CharsLaid.charLaid {e e' : ℕ} {cs : List GattCharacter} (h : CharsLaid e cs e')
    (hc : c ∈ cs) : ∃ x, CharLaid x c := by
  induction h with
  | nil => simp at hc
  | cons hl _ ih =>
      rcases List.mem_cons.mp hc with rfl | hc
      · exact ⟨_, hl⟩
      · exact ih hc

/-- Different characteristics have no handle in common. -/
theorem DbLaid.handles_disjoint (h : DbLaid 0 ss last) :
    (characters ss).Pairwise (Function.onFun List.Disjoint GattCharacter.handles) := by
  have hnodup : ((characters ss).flatMap GattCharacter.handles).Nodup := by
    rw [characters, List.flatMap_assoc]
    exact h.handlesOk.distinct
  exact (List.nodup_flatMap.mp hnodup).2

/-- Characteristics with a common handle are the same one. -/
theorem DbLaid.eq_of_mem_handles (h : DbLaid 0 ss last) (hc : c ∈ characters ss)
    (hd : d ∈ characters ss) {x : UInt16} (hxc : x ∈ c.handles) (hxd : x ∈ d.handles) : c = d := by
  by_contra hne
  have : Std.Symm (Function.onFun List.Disjoint GattCharacter.handles) :=
    ⟨fun _ _ hdis => List.disjoint_symm hdis⟩
  exact h.handles_disjoint.forall hc hd hne hxc hxd

/-- The value handle of a characteristic is one of its handles. -/
theorem CharLaid.valueHandle_mem {e : ℕ} (h : CharLaid e c) : c.valueHandle ∈ c.handles := by
  have hne : c.valueHandle ≠ 0 := by
    intro hzero
    have := h.value
    rw [hzero] at this
    simp at this
  simp [GattCharacter.handles, hne]

theorem DbLaid.charLaid (h : DbLaid 0 ss last) (hc : c ∈ characters ss) : ∃ e, CharLaid e c := by
  obtain ⟨s, hs, hc⟩ := List.mem_flatMap.mp hc
  obtain ⟨l, hl⟩ := h.serviceLaid hs
  exact hl.chars.charLaid hc

/-- No characteristic is there twice. -/
theorem DbLaid.characters_nodup (h : DbLaid 0 ss last) : (characters ss).Nodup := by
  refine h.handles_disjoint.imp_of_mem ?_
  intro c d hc hd hdis heq
  obtain ⟨e, he⟩ := h.charLaid hc
  exact hdis he.valueHandle_mem (heq ▸ he.valueHandle_mem)

/-- So there is one way to cut the characteristics before it. -/
theorem DbLaid.before_unique (h : DbLaid 0 ss last) {pre pre' post post' : List GattCharacter}
    (heq : characters ss = pre ++ c :: post) (heq' : characters ss = pre' ++ c :: post') :
    pre = pre' := by
  have hnodup := h.characters_nodup
  rw [heq, List.nodup_append, List.nodup_cons] at hnodup
  have hnot : c ∉ pre := fun hin => hnodup.2.2 c hin c List.mem_cons_self rfl
  rw [heq] at heq'
  exact ((List.append_cons_inj_of_notMem hnot hnodup.2.1.1).mp heq').1

/-- A handle of a service is looked up there. -/
theorem DbLaid.find_service (h : DbLaid 0 ss last) (hs : s ∈ ss) {handle : UInt16}
    (hlow : s.handleStart ≤ handle) (hhigh : handle ≤ s.handleEnd) :
    ss.find? (findGattServiceByHandleCb handle) = some s := by
  cases hfind : ss.find? (findGattServiceByHandleCb handle) with
  | none =>
      have := List.find?_eq_none.mp hfind s hs
      simp [findGattServiceByHandleCb, hlow, hhigh] at this
  | some t =>
      have hcover := List.find?_some hfind
      simp only [findGattServiceByHandleCb, decide_eq_true_eq] at hcover
      rw [h.eq_of_meets (List.mem_of_find?_eq_some hfind) hs
        (UInt16.le_trans hcover.1 hhigh) (UInt16.le_trans hlow hcover.2)]

/-- A handle of a characteristic is looked up there. -/
theorem DbLaid.find_character (h : DbLaid 0 ss last) (hs : s ∈ ss) (hc : c ∈ s.characterList)
    {handle : UInt16} (hmem : handle ∈ c.handles)
    (hcb : findGattCharacterByHandleCb handle c = true) :
    s.characterList.find? (findGattCharacterByHandleCb handle) = some c := by
  have hne : handle ≠ 0 := by
    simpa using (List.mem_filter.mp hmem).2
  cases hfind : s.characterList.find? (findGattCharacterByHandleCb handle) with
  | none => exact absurd hcb (List.find?_eq_none.mp hfind c hc)
  | some d =>
      have hd : d ∈ characters ss :=
        List.mem_flatMap.mpr ⟨s, hs, List.mem_of_find?_eq_some hfind⟩
      obtain ⟨e, he⟩ := h.charLaid hd
      have hhandle := he.mem_handles_of_find hne (List.find?_some hfind)
      rw [h.eq_of_mem_handles (List.mem_flatMap.mpr ⟨s, hs, hc⟩) hd hmem hhandle]

/-- The handle names the value or a descriptor of the characteristic. Zero is no handle; a
characteristic without a descriptor has it there. -/
def GattCharacter.Owns (c : GattCharacter) (handle : UInt16) : Prop :=
  handle ≠ 0 ∧ (handle = c.valueHandle ∨ handle = c.descHandle ∨ handle = c.rptRefHandle)

theorem GattCharacter.Owns.mem_handles {handle : UInt16} (h : c.Owns handle) :
    handle ∈ c.handles := by
  obtain ⟨hne, h⟩ := h
  simp only [handles, List.mem_filter, List.mem_cons, List.not_mem_nil, or_false,
    decide_eq_true_eq]
  exact ⟨.inr h, hne⟩

theorem GattCharacter.Owns.find {handle : UInt16} (h : c.Owns handle) :
    findGattCharacterByHandleCb handle c = true := by
  simp only [findGattCharacterByHandleCb, decide_eq_true_eq]
  rcases h.2 with h | h | h
  · exact .inr (.inl h)
  · exact .inr (.inr (.inr h))
  · exact .inr (.inr (.inl h))

/-- **A handle that a characteristic owns resolves to it.** -/
theorem DbLaid.getHandleInfo_owned (h : DbLaid 0 ss last) (hlast : last ≤ 0xFFFE) (hs : s ∈ ss)
    (hc : c ∈ s.characterList) {handle : UInt16} (hown : c.Owns handle) :
    getHandleInfo ss handle =
      some (s, c, if handle = c.valueHandle then .character else .descConf) := by
  obtain ⟨hlow, hhigh⟩ := h.handlesOk.inside s hs c hc _ hown.mem_handles
  have hend := (h.range hs).2.2
  have hrange : ¬ (handle = 0 ∨ handle ≥ 0xFFFF) := by
    rintro (hzero | hbig)
    · exact hown.1 hzero
    · rw [ge_iff_le, UInt16.le_iff_toNat_le] at hbig
      rw [UInt16.le_iff_toNat_le] at hhigh
      simp at hbig
      omega
  simp only [getHandleInfo, if_neg hrange, h.find_service hs hlow hhigh,
    h.find_character hs hc hown.mem_handles hown.find]
  by_cases hvalue : handle = c.valueHandle
  · simp only [if_pos hvalue]
  · have hdesc := hown.2.resolve_left hvalue
    simp only [if_neg hvalue]
    by_cases hd : handle = c.descHandle
    · rw [if_pos hd]
    · rw [if_neg hd, if_pos (hdesc.resolve_left hd)]

/-- The two handles of a characteristic differ. -/
theorem CharLaid.descHandle_ne {e : ℕ} (h : CharLaid e c) : c.descHandle ≠ c.valueHandle := by
  intro heq
  have hv := h.value
  have hd := h.desc
  rw [heq] at hd
  split_ifs at hd
  · omega
  · omega

/-- A descriptor handle resolves to its characteristic. -/
theorem DbLaid.getHandleInfo_desc (h : DbLaid 0 ss last) (hlast : last ≤ 0xFFFE) (hs : s ∈ ss)
    (hc : c ∈ s.characterList) (hne : c.descHandle ≠ 0) :
    getHandleInfo ss c.descHandle = some (s, c, .descConf) := by
  obtain ⟨e, he⟩ := h.charLaid (List.mem_flatMap.mpr ⟨s, hs, hc⟩)
  rw [h.getHandleInfo_owned hlast hs hc ⟨hne, .inr (.inl rfl)⟩, if_neg he.descHandle_ne]

end Laid

/-- **Without a wrap only the characteristics before it matter**: the condition says that
none of them has the UUID. -/
theorem unshadowed_iff_of_built {ss : List (GattService (Hid × τ))} (hbuilt : Built ss)
    (hno : NoWrap ss) {s : GattService (Hid × τ)} (hs : s ∈ ss) (hcb : s.ioCb = hidCb)
    {c : GattCharacter} (hc : c ∈ s.characterList) (hne : c.descHandle ≠ 0) :
    Unshadowed ss c ↔ ∀ pre post, characters ss = pre ++ c :: post →
      ∀ d ∈ pre, btUuidCmp d.uuid c.uuid ≠ 0 := by
  obtain ⟨last, hlaid, hlast⟩ := dbLaid_of_built hbuilt hno
  have hmem : c ∈ characters ss := List.mem_flatMap.mpr ⟨s, hs, hc⟩
  have hinfo := hlaid.getHandleInfo_desc hlast hs hc hne
  obtain ⟨x, hx⟩ := hlaid.charLaid hmem
  constructor
  · intro h pre post hdb
    obtain ⟨pre', e, post', hdb', hvalue, -, hpre⟩ := h s c hinfo hcb
    -- the first one with the UUID has the value handle, so it is the characteristic
    have he : e ∈ characters ss := by
      rw [hdb']
      exact List.mem_append_right _ List.mem_cons_self
    obtain ⟨y, hy⟩ := hlaid.charLaid he
    obtain rfl := hlaid.eq_of_mem_handles he hmem (hvalue ▸ hy.valueHandle_mem) hx.valueHandle_mem
    rw [← hlaid.before_unique hdb' hdb]
    exact hpre
  · intro h s' d hinfo' _
    rw [hinfo] at hinfo'
    simp only [Option.some.injEq, Prod.mk.injEq] at hinfo'
    obtain ⟨-, rfl, -⟩ := hinfo'
    obtain ⟨pre, post, hdb⟩ := List.append_of_mem hmem
    exact ⟨pre, c, post, hdb, rfl, btUuidCmp_self c.uuid, h pre post hdb⟩

/-- **Routing by UUID.** Exactly the characteristics that are not shadowed get their
notifications; where the handles did not wrap, these are the ones whose UUID no
characteristic before them has. -/
theorem notification_routing_iff [Inhabited τ] {ss : List (GattService (Hid × τ))}
    (hhosted : Hosted ss) (c : GattCharacter) :
    (RoutesTo ss c ↔ Unshadowed ss c) ∧
      (Built ss → NoWrap ss → ∀ s ∈ ss, s.ioCb = hidCb → c ∈ s.characterList →
        c.descHandle ≠ 0 →
        (RoutesTo ss c ↔ ∀ pre post, characters ss = pre ++ c :: post →
          ∀ d ∈ pre, btUuidCmp d.uuid c.uuid ≠ 0)) := by
  have hiff : RoutesTo ss c ↔ Unshadowed ss c :=
    ⟨fun h => h.unshadowed, fun h => h.routesTo hhosted⟩
  refine ⟨hiff, ?_⟩
  intro hbuilt hno s hs hcb hc hne
  rw [hiff]
  exact unshadowed_iff_of_built hbuilt hno hs hcb hc hne

/-! ## The services of the program -/

theorem initGattServices_forall_ioCb {P : GattsCb (Hid × τ) → Prop} (hhid : P hidCb)
    (haccess : P genericAccessCb) : ∀ s ∈ initGattServices, P s.ioCb := by
  refine registerGattService_forall_ioCb ?_ _ haccess
  refine registerGattService_forall_ioCb ?_ _ hhid
  intro s hs
  simp at hs

theorem genericAccessCb_foreign : (genericAccessCb : GattsCb (Hid × τ)).Foreign where
  connection _ _ _ := rfl
  read _ _ _ _ _ := rfl
  write _ _ _ _ := rfl
  descRead _ _ _ _ := rfl
  descWrite _ _ _ _ := rfl
  mtu _ _ _ := rfl
  readBlob f hf := by cases hf

theorem hosted_initGattServices : Hosted (initGattServices (τ := τ)) :=
  initGattServices_forall_ioCb (P := fun cb => cb = hidCb ∨ cb.Foreign) (.inl rfl)
    (.inr genericAccessCb_foreign)

theorem built_initGattServices : Built (initGattServices (τ := τ)) := by
  refine .register _ (.register _ .nil ?_) ?_
  · intro c hc
    simp only [hidService, List.mem_cons, List.not_mem_nil, or_false] at hc
    rcases hc with rfl | rfl | rfl | rfl <;> exact ⟨_, _, rfl⟩
  · intro c hc
    obtain ⟨v, -, rfl⟩ := List.mem_map.mp hc
    exact ⟨_, _, rfl⟩

/-- The characteristics of the HID service, with their handles. -/
def hidCharacters : List GattCharacter :=
  let prop := btGattChrcPropRead ||| btGattChrcPropWrite ||| btGattChrcPropNotify
  [⟨uReportMap, 2, 3, 4, 0, prop⟩, ⟨uHidInfo, 5, 6, 7, 0, prop⟩,
   ⟨uHidReport, 8, 9, 10, 11, prop ||| btGattChrcPropReportRef⟩,
   ⟨uHidReport, 12, 13, 14, 15, prop ||| btGattChrcPropReportRef⟩]

/-- The characteristics of the generic access service, with their handles. -/
def accessCharacters : List GattCharacter :=
  [⟨.u16 0x2A00, 17, 18, 0, 0, btGattChrcPropRead⟩,
   ⟨.u16 0x2A01, 19, 20, 0, 0, btGattChrcPropRead⟩,
   ⟨.u16 0x2A03, 21, 22, 0, 0, btGattChrcPropRead⟩,
   ⟨.u16 0x2A04, 23, 24, 0, 0, btGattChrcPropRead⟩]

/-- The two services laid out. -/
theorem initGattServices_eq : (initGattServices : List (GattService (Hid × τ))) =
    [⟨1, 15, .u16 0x1812, hidCharacters, hidCb, btAttDefaultLeMtu⟩,
     ⟨16, 24, .u16 0x1800, accessCharacters, genericAccessCb, btAttDefaultLeMtu⟩] := by
  rfl

theorem noWrap_initGattServices : NoWrap (initGattServices (τ := τ)) := by
  have hchars : (hidCharacters.all fun c => c.handles.all fun h => h ≤ 0xFFFE) = true ∧
      (accessCharacters.all fun c => c.handles.all fun h => h ≤ 0xFFFE) = true := by decide
  have hle : (1 : UInt16) ≤ 0xFFFE ∧ (15 : UInt16) ≤ 0xFFFE ∧ (16 : UInt16) ≤ 0xFFFE ∧
      (24 : UInt16) ≤ 0xFFFE := by decide
  simp only [List.all_eq_true, decide_eq_true_eq] at hchars
  intro s hs
  rw [initGattServices_eq] at hs
  rcases List.mem_pair.mp hs with rfl | rfl
  · exact ⟨hle.1, hle.2.1, hchars.1⟩
  · exact ⟨hle.2.2.1, hle.2.2.2, hchars.2⟩

/-- The first of the two reports gets its notifications. -/
theorem notification_routing_iff_report :
    hidCharacters[2] ∈ characters (initGattServices (τ := Unit)) ∧
      RoutesTo (initGattServices (τ := Unit)) hidCharacters[2] := by
  have hdb : characters (initGattServices (τ := Unit)) = hidCharacters.take 2 ++
      hidCharacters[2] :: ([hidCharacters[3]] ++ accessCharacters) := rfl
  have hmem : hidCharacters[2] ∈ hidCharacters := List.getElem_mem _
  refine ⟨List.mem_flatMap.mpr ⟨_, List.mem_cons_self, hmem⟩, ?_⟩
  refine ((notification_routing_iff hosted_initGattServices _).2 built_initGattServices
    noWrap_initGattServices _ List.mem_cons_self rfl hmem (by decide)).mpr ?_
  intro pre post heq
  obtain ⟨last, hlaid, -⟩ := dbLaid_of_built (built_initGattServices (τ := Unit))
    noWrap_initGattServices
  rw [← hlaid.before_unique hdb heq]
  decide

/-- A subscription to the second report is one to the first. -/
theorem notification_routing_second_report :
    hidCharacters[3] ∈ characters (initGattServices (τ := Unit)) ∧
      ¬ RoutesTo (initGattServices (τ := Unit)) hidCharacters[3] := by
  refine ⟨List.mem_flatMap.mpr ⟨_, List.mem_cons_self, List.getElem_mem _⟩, ?_⟩
  intro h
  obtain ⟨pre, e, post, hdb, hvalue, hcmp, hpre⟩ := h.unshadowed _ hidCharacters[3] rfl rfl
  have hfirst : findChacByUuid (initGattServices (τ := Unit)) hidCharacters[3].uuid =
      some hidCharacters[2] := rfl
  rw [findChacByUuid_eq_some_iff.mpr ⟨pre, post, hdb, hcmp, hpre⟩] at hfirst
  obtain rfl := Option.some.inj hfirst
  exact absurd hvalue (by decide)

end CCode.Gatt
