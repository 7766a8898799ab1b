import CCode.Gatt.Discovery

/-!
# The encoding of discovery responses

A discovery response is one length byte and one entry: handles, for a characteristic its
properties, and a UUID, which on the wire is little-endian. The two response functions
compute the length byte from the UUID of the attribute, copy a 128-bit UUID as it is
stored, which is big-endian, and `read_by_type_rsp` decides whether to copy it by the
width of the *service's* UUID.

So a response is right for every 16-bit UUID, for a 128-bit UUID that reads the same in
both directions, and for a characteristic of the latter kind only inside a service with
a 128-bit UUID. `discovery_encoding_iff` says that it is right in no other case.

## Main definitions

* `uuidOfLe`, `decodeDeclarationEntry`, `decodeServiceEntry` — the client's decoders.
* `DeclarationEncodes`, `ServiceEncodes` — what is wanted of a response.
* `BtUuid.OrderFree` — the UUIDs whose byte order does not matter.
-/

namespace CCode.Gatt

open CCode.Lib

variable {σ : Type}

/-! ## What is wanted of a response -/

/-- The UUID that bytes on the wire stand for: two bytes for 16 bits, sixteen for 128. -/
def uuidOfLe (bs : List UInt8) : Option BtUuid :=
  if bs.length = 2 then some (.u16 (ofLe16 (bs.getD 0 0) (bs.getD 1 0)))
  else if h : bs.length = 16 then some (.u128 ⟨bs.reverse.toArray, by simp [h]⟩)
  else none

/-- The handles, the properties and the UUID in a Read By Type response whose length byte
fits. -/
def decodeDeclarationEntry : List UInt8 → Option (UInt16 × UInt8 × UInt16 × BtUuid)
  | len :: t₀ :: t₁ :: prop :: v₀ :: v₁ :: uuid =>
      if len.toNat = 5 + uuid.length then
        (uuidOfLe uuid).map fun u => (ofLe16 t₀ t₁, prop, ofLe16 v₀ v₁, u)
      else none
  | _ => none

/-- The handles and the UUID in a Read By Group Type response whose length byte fits. -/
def decodeServiceEntry : List UInt8 → Option (UInt16 × UInt16 × BtUuid)
  | len :: s₀ :: s₁ :: e₀ :: e₁ :: uuid =>
      if len.toNat = 4 + uuid.length then
        (uuidOfLe uuid).map fun u => (ofLe16 s₀ s₁, ofLe16 e₀ e₁, u)
      else none
  | _ => none

/-- The parameters of a Read By Type response describe the characteristic: the length byte
is the length of the entry, the UUID is in its wire form, and decoding gives back what was
registered. -/
structure DeclarationEncodes (c : GattCharacter) (params : List UInt8) : Prop where
  length : params.head?.map UInt8.toNat = some params.tail.length
  uuid : btUuidToLe c.uuid = some (params.drop 6)
  decode : decodeDeclarationEntry params =
    some (c.typeHandle, c.prop.toUInt8, c.valueHandle, c.uuid)

/-- The parameters of a Read By Group Type response describe the service. -/
structure ServiceEncodes (s : GattService σ) (params : List UInt8) : Prop where
  length : params.head?.map UInt8.toNat = some params.tail.length
  uuid : btUuidToLe s.uuid = some (params.drop 5)
  decode : decodeServiceEntry params = some (s.handleStart, s.handleEnd, s.uuid)

/-- The byte order of the UUID does not matter: it has 16 bits, or 128 that read the same
in both directions. -/
def BtUuid.OrderFree : BtUuid → Prop
  | .u16 _ => True
  | .u128 v => v.toList.reverse = v.toList
  | .u32 _ | .unspec _ => False

/-- The characteristic can be described: the byte order of its UUID does not matter, and
if it has 128 bits the UUID of its service has as many. -/
def Describable (s : GattService σ) (c : GattCharacter) : Prop :=
  c.uuid.OrderFree ∧ (c.uuid.type = 128 → s.uuid.type = 128)

/-! ## One response -/

/-- Decoding undoes the encoding of a UUID of one of the two widths. -/
theorem uuidOfLe_le16 (v : UInt16) : uuidOfLe (le16 v) = some (.u16 v) := by
  simp [uuidOfLe, le16]

theorem uuidOfLe_bswap128 (v : U128) : uuidOfLe (bswap128 v) = some (.u128 v) := by
  have hv : (⟨v.toList.toArray, by simp⟩ : U128) = v := by
    apply Vector.toArray_inj.mp
    simp [Vector.toList]
  simp [uuidOfLe, bswap128, hv]

/-- The bytes of the union that holds a 32-bit UUID are not its wire form. -/
theorem bswap128_uuid32_ne (v : UInt32) :
    bswap128 (btUuid32ToUuid128 v) ≠ le32 v ++ List.replicate 12 0 := by
  intro h
  have := congrArg (fun bs => bs.getD 4 0) h
  simp [bswap128, btUuid32ToUuid128, bluetoothBaseUuid, le32] at this

/-- **A Read By Type response describes its characteristic exactly when that can be
described.** -/
theorem declarationEncodes_iff (s : GattService σ) (c : GattCharacter) :
    DeclarationEncodes c (readByTypeEntry s c) ↔ Describable s c := by
  rw [Describable]
  cases hu : c.uuid with
  | unspec r =>
      refine iff_of_false ?_ (fun h => h.1)
      intro h
      simpa [hu, btUuidToLe] using h.uuid
  | u16 v =>
      have hdec := uuidOfLe_le16 v
      rw [le16] at hdec
      refine iff_of_true ⟨?_, ?_, ?_⟩ ⟨trivial, by simp [BtUuid.type]⟩
      · simp [readByTypeEntry, hu, BtUuid.type, le16]
      · simp [readByTypeEntry, hu, btUuidToLe, le16]
      · simp [readByTypeEntry, hu, decodeDeclarationEntry, BtUuid.type, le16, hdec]
  | u32 v =>
      refine iff_of_false ?_ (fun h => h.1)
      intro h
      have hwire := Option.some.inj (hu ▸ h.uuid : btUuidToLe (.u32 v) = _)
      cases hs : s.uuid with
      | u128 w => exact bswap128_uuid32_ne v (by simpa [readByTypeEntry, hu, hs, le16] using hwire)
      | unspec w | u16 w | u32 w =>
          have := congrArg List.length hwire
          simp [readByTypeEntry, hu, hs, le16, bswap128] at this
  | u128 v =>
      cases hs : s.uuid with
      | u128 w =>
          simp only [BtUuid.OrderFree, BtUuid.type, implies_true, and_true]
          constructor
          · intro h
            simpa [hu, hs, btUuidToLe, readByTypeEntry, le16, bswap128] using h.uuid
          · intro h
            have hdec := uuidOfLe_bswap128 v
            rw [bswap128, h] at hdec
            refine ⟨?_, ?_, ?_⟩
            · simp [readByTypeEntry, hu, hs, BtUuid.type, le16]
            · simp [readByTypeEntry, hu, hs, btUuidToLe, le16, bswap128, h]
            · simp [readByTypeEntry, hu, hs, decodeDeclarationEntry, BtUuid.type, le16, hdec]
      | unspec w | u16 w | u32 w =>
          refine iff_of_false ?_ (fun h => by simpa [BtUuid.type] using h.2 rfl)
          intro h
          have hwire := Option.some.inj (hu ▸ h.uuid : btUuidToLe (.u128 v) = _)
          have := congrArg List.length hwire
          simp [readByTypeEntry, hu, hs, le16, bswap128] at this

/-- **A Read By Group Type response describes its service exactly when the byte order of
the UUID does not matter.** -/
theorem serviceEncodes_iff (s : GattService σ) :
    ServiceEncodes s (readByGrpTypeEntry s) ↔ s.uuid.OrderFree := by
  cases hu : s.uuid with
  | unspec r =>
      refine iff_of_false ?_ id
      intro h
      simpa [hu, btUuidToLe] using h.uuid
  | u16 v =>
      have hdec := uuidOfLe_le16 v
      rw [le16] at hdec
      refine iff_of_true ⟨?_, ?_, ?_⟩ trivial
      · simp [readByGrpTypeEntry, hu, BtUuid.type, le16]
      · simp [readByGrpTypeEntry, hu, btUuidToLe, le16]
      · simp [readByGrpTypeEntry, hu, decodeServiceEntry, BtUuid.type, le16, hdec]
  | u32 v =>
      refine iff_of_false ?_ id
      intro h
      have hwire := Option.some.inj (hu ▸ h.uuid : btUuidToLe (.u32 v) = _)
      have := congrArg List.length hwire
      simp [readByGrpTypeEntry, hu, le16, bswap128] at this
  | u128 v =>
      simp only [BtUuid.OrderFree]
      constructor
      · intro h
        simpa [hu, btUuidToLe, readByGrpTypeEntry, le16, bswap128] using h.uuid
      · intro h
        have hdec := uuidOfLe_bswap128 v
        rw [bswap128, h] at hdec
        refine ⟨?_, ?_, ?_⟩
        · simp [readByGrpTypeEntry, hu, BtUuid.type, le16]
        · simp [readByGrpTypeEntry, hu, btUuidToLe, le16, bswap128, h]
        · simp [readByGrpTypeEntry, hu, decodeServiceEntry, BtUuid.type, le16, hdec]

/-! ## Every request -/

/-- The reply to a request for declarations describes the characteristic that the request
selects. -/
def EncodesDeclarations (x : Session σ) (addr : BdAddr) (start last : UInt16) : Prop :=
  ∀ s c, findCharacteristic x.server.serviceList ⟨start, last⟩ = some (s, c) →
    ∃ params, (request x addr btAttOpReadByTypeReq (rangeParams start last 0x2803)).2 =
      [(addr, ⟨btAttOpReadByTypeRsp, params⟩)] ∧ DeclarationEncodes c params

/-- The reply to a request for services describes the service that the request selects. -/
def EncodesServices (x : Session σ) (addr : BdAddr) (start last : UInt16) : Prop :=
  ∀ s, x.server.serviceList.find? (findGattServiceByHandleRangeCb ⟨start, last⟩) = some s →
    ∃ params, (request x addr btAttOpReadByGrpTypeReq (rangeParams start last 0x2800)).2 =
      [(addr, ⟨btAttOpReadByGrpTypeRsp, params⟩)] ∧ ServiceEncodes s params

theorem encodesDeclarations_iff (x : Session σ) (addr : BdAddr) (start last : UInt16) :
    EncodesDeclarations x addr start last ↔
      ∀ s c, findCharacteristic x.server.serviceList ⟨start, last⟩ = some (s, c) →
        Describable s c := by
  refine forall₃_congr fun s c hfind => ?_
  rw [(request_readByType x addr start last).2, hfind]
  simp [declarationEncodes_iff]

theorem encodesServices_iff (x : Session σ) (addr : BdAddr) (start last : UInt16) :
    EncodesServices x addr start last ↔
      ∀ s, x.server.serviceList.find? (findGattServiceByHandleRangeCb ⟨start, last⟩) = some s →
        s.uuid.OrderFree := by
  refine forall₂_congr fun s hfind => ?_
  rw [(request_readByGrpType x addr start last).2, hfind]
  simp [serviceEncodes_iff]

/-! ## Every attribute of a database -/

/-- A service is selected by its own range. -/
theorem DbLaid.find?_self {last : ℕ} {ss : List (GattService σ)} (h : DbLaid 0 ss last)
    {s : GattService σ} (hs : s ∈ ss) :
    ss.find? (findGattServiceByHandleRangeCb ⟨s.handleStart, s.handleEnd⟩) = some s := by
  have hself : findGattServiceByHandleRangeCb ⟨s.handleStart, s.handleEnd⟩ s = true := by
    simp [findGattServiceByHandleRangeCb]
  obtain ⟨t, ht⟩ := Option.isSome_iff_exists.mp (List.find?_isSome.mpr ⟨s, hs, hself⟩)
  have hmem := List.mem_of_find?_eq_some ht
  have hp := List.find?_some ht
  simp only [findGattServiceByHandleRangeCb, ge_iff_le, decide_eq_true_eq] at hp
  have hle : t.handleStart ≤ t.handleEnd := UInt16.le_iff_toNat_le.mpr (h.range hmem).2.1
  obtain rfl := h.eq_of_meets hmem hs (UInt16.le_trans hle hp.2) (UInt16.le_trans hp.1 hle)
  exact ht

/-- A part of a layout behind `pre` is a layout, and the declarations in `pre` come before
it. -/
theorem CharsLaid.split {e e' : ℕ} {pre cs : List GattCharacter}
    (h : CharsLaid e (pre ++ cs) e') :
    ∃ m, e ≤ m ∧ CharsLaid m cs e' ∧ ∀ c ∈ pre, c.typeHandle.toNat ≤ m := by
  induction pre generalizing e with
  | nil => exact ⟨e, le_rfl, h, by simp⟩
  | cons c pre ih =>
      cases h with
      | cons hc hcs =>
          obtain ⟨m, hle, hlaid, hpre⟩ := ih hcs
          have htype := hc.type
          have htwo := c.two_le_size
          refine ⟨m, by omega, hlaid, ?_⟩
          simp only [List.mem_cons, forall_eq_or_imp]
          exact ⟨by omega, hpre⟩

/-- A characteristic is selected by the range from its declaration to the end of its
service. -/
theorem DbLaid.findCharacteristic_self {last : ℕ} {ss : List (GattService σ)}
    (h : DbLaid 0 ss last) {s : GattService σ} (hs : s ∈ ss) {c : GattCharacter}
    (hc : c ∈ s.characterList) :
    findCharacteristic ss ⟨c.typeHandle, s.handleEnd⟩ = some (s, c) := by
  obtain ⟨l, hsl⟩ := h.serviceLaid hs
  obtain ⟨pre, cs, hsplit⟩ := List.append_of_mem hc
  obtain ⟨m, hle, hlaid, hpre⟩ := (hsplit ▸ hsl.chars).split
  have hstart := hsl.start
  have hend := hlaid.le
  obtain ⟨htype, hcs⟩ : c.typeHandle.toNat = m + 1 ∧ m + c.size ≤ s.handleEnd.toNat := by
    cases hlaid with
    | cons hc hcs => exact ⟨hc.type, hcs.le⟩
  have htwo := c.two_le_size
  rw [findCharacteristic_of_laid h hs (UInt16.le_iff_toNat_le.mpr (by omega))
    (UInt16.le_iff_toNat_le.mpr (by omega)), hsplit, find?_character_of_laid ?_ hlaid (by omega)]
  · rfl
  · intro d hd
    have := hpre d hd
    exact UInt16.lt_iff_toNat_lt.mpr (by omega)

/-- **The encoding of discovery responses.** A reply describes the attribute it is for
exactly when that attribute is a service whose UUID has no byte order, or a describable
characteristic. A database without a wrap of its handles has all its replies right exactly
when all its attributes are of that kind. -/
theorem discovery_encoding_iff (x : Session σ) (addr : BdAddr) :
    (∀ start last,
      (EncodesDeclarations x addr start last ↔
        ∀ s c, findCharacteristic x.server.serviceList ⟨start, last⟩ = some (s, c) →
          Describable s c) ∧
      (EncodesServices x addr start last ↔
        ∀ s, x.server.serviceList.find? (findGattServiceByHandleRangeCb ⟨start, last⟩) =
          some s → s.uuid.OrderFree)) ∧
    (Built x.server.serviceList → NoWrap x.server.serviceList →
      ((∀ start last, EncodesDeclarations x addr start last ∧
          EncodesServices x addr start last) ↔
        ∀ s ∈ x.server.serviceList, s.uuid.OrderFree ∧
          ∀ c ∈ s.characterList, Describable s c)) := by
  refine ⟨fun start last => ⟨encodesDeclarations_iff x addr start last,
    encodesServices_iff x addr start last⟩, ?_⟩
  intro hbuilt hno
  obtain ⟨l, hlaid, -⟩ := dbLaid_of_built hbuilt hno
  constructor
  · intro h s hs
    refine ⟨?_, ?_⟩
    · exact (encodesServices_iff x addr _ _).mp (h _ _).2 s (hlaid.find?_self hs)
    · intro c hc
      exact (encodesDeclarations_iff x addr _ _).mp (h _ _).1 s c
        (hlaid.findCharacteristic_self hs hc)
  · intro h start last
    refine ⟨(encodesDeclarations_iff x addr _ _).mpr ?_,
      (encodesServices_iff x addr _ _).mpr ?_⟩
    · intro s c hfind
      simp only [findCharacteristic, findInService, Option.bind_eq_bind,
        Option.bind_eq_some_iff, Option.some.injEq, Prod.mk.injEq] at hfind
      obtain ⟨s', hs', c', hc', rfl, rfl⟩ := hfind
      exact (h s' (List.mem_of_find?_eq_some hs')).2 c' (List.mem_of_find?_eq_some hc')
    · intro s hfind
      exact (h s (List.mem_of_find?_eq_some hfind)).1

theorem discovery_encoding_batterySession :
    ∀ start last, EncodesDeclarations batterySession ⟨#v[1, 2, 3, 4, 5, 6]⟩ start last ∧
      EncodesServices batterySession ⟨#v[1, 2, 3, 4, 5, 6]⟩ start last := by
  refine ((discovery_encoding_iff batterySession _).2 built_batteryServices
    noWrap_batteryServices).mpr ?_
  intro s hs
  have hmem : s ∈ [batteryServices[0], batteryServices[1]] := hs
  rcases List.mem_pair.mp hmem with rfl | rfl
  · refine ⟨trivial, ?_⟩
    intro c hc
    obtain rfl : c = batteryServices[0].characterList[0] := List.mem_singleton.mp hc
    exact ⟨trivial, fun h => absurd h (by decide)⟩
  · exact ⟨trivial, fun c hc => absurd hc List.not_mem_nil⟩

/-- A 16-bit service with a characteristic that has a 128-bit UUID. -/
def mixedSession : Session Unit :=
  { batterySession with
      server := { batterySession.server with
        serviceList := registerGattService []
          { (createService (.u16 0x180F) 0 0) with
              characterList := [createCharacter (.u128 (Vector.replicate 16 0xAA)) 0x02] }
          .idle } }

/-- Its declaration is answered with a length byte of 21 and an entry of 5 bytes. -/
theorem mixedSession_not_encodes :
    ¬ EncodesDeclarations mixedSession ⟨#v[1, 2, 3, 4, 5, 6]⟩ 1 0xFFFF := by
  rw [encodesDeclarations_iff]
  intro h
  have hdesc := h _ _ (show findCharacteristic mixedSession.server.serviceList ⟨1, 0xFFFF⟩ =
    some (mixedSession.server.serviceList[0],
      mixedSession.server.serviceList[0].characterList[0]) from rfl)
  exact absurd (hdesc.2 rfl) (by decide)

end CCode.Gatt
