import CCode.Gatt.Routing

/-!
# Descriptor discovery

A client asks for the descriptors in a range of handles with Find Information and asks
again behind the last handle it got. The server looks for a characteristic whose client
configuration descriptor is in the range and reports that one together with its report
reference; a report reference on its own it never looks for. So a range that begins
between the two descriptors of a characteristic misses its first one.

`descriptor_discovery_iff` says that this is all: from every other start the reply and the
whole loop are right, on every database that was built without a wrap.

## Main definitions

* `askDescriptors`, `discoverDescriptors` — the loop over Find Information.
* `GattCharacter.descriptors` — what there is to find.
* `DescriptorDiscovery` — the reply and the loop are right.
* `Ascending` — the characteristics of a database in one row.
-/

namespace CCode.Gatt

open CCode.Lib

variable {σ : Type}

/-! ## The client's side -/

/-- The pairs of a handle and a 16-bit type. -/
def decodePairs : List UInt8 → Option (List (UInt16 × UInt16))
  | [] => some []
  | h₀ :: h₁ :: u₀ :: u₁ :: rest =>
      (decodePairs rest).map ((ofLe16 h₀ h₁, ofLe16 u₀ u₁) :: ·)
  | _ => none

/-- The descriptors in a Find Information response: at least one, with 16-bit types. -/
def decodeInformation : List UInt8 → Option (List (UInt16 × UInt16))
  | format :: rest =>
      if format = findInfoUuidType16Bit ∧ rest ≠ [] then decodePairs rest else none
  | [] => none

/-- Find Information from a handle to `last`. -/
def askDescriptors (addr : BdAddr) (last : UInt16) (x : Session σ) (start : UInt16) :
    Session σ × (List (UInt16 × UInt16) ⊕ Stop) :=
  let (x', sent) := request x addr btAttOpFindInfoReq (le16 start ++ le16 last)
  (x', decodeReply addr btAttOpFindInfoRsp decodeInformation sent)

/-- Where the client goes on: behind the last handle that was returned. -/
def behindLast (found : List (UInt16 × UInt16)) : UInt16 :=
  (found.getLast?.map Prod.fst).getD 0 + 1

/-- Descriptor discovery in a range. -/
def discoverDescriptors (addr : BdAddr) (start last : UInt16) (fuel : ℕ) (x : Session σ) :
    List (List (UInt16 × UInt16)) × Option Stop :=
  enumerate (askDescriptors addr last) behindLast fuel x start

/-! ## What there is to find -/

/-- The descriptors of a characteristic with their types. -/
def GattCharacter.descriptors (c : GattCharacter) : List (UInt16 × UInt16) :=
  [(c.descHandle, gattClientCharacCfgUuid), (c.rptRefHandle, gattReportReference)].filter
    fun d => d.1 ≠ 0

/-- The descriptor is one of the database and lies in the range. -/
def DescriptorIn (ss : List (GattService σ)) (r : HandleRange) (d : UInt16 × UInt16) : Prop :=
  r.covers d.1 = true ∧ ∃ c ∈ characters ss, d ∈ c.descriptors

/-- The reply of Attribute Not Found. -/
def infoNotFound (addr : BdAddr) (start : UInt16) : List (BdAddr × Pdu) :=
  [(addr, ⟨btAttOpErrorRsp, [btAttOpFindInfoReq] ++ le16 start ++ [btAttErrorAttributeNotFound]⟩)]

/-- The reply is Attribute Not Found exactly if there is no descriptor in the range, and
the loop returns each descriptor in the range once and in ascending order, and ends. -/
structure DescriptorDiscovery (addr : BdAddr) (x : Session σ) (start last : UInt16) : Prop where
  notFound : (request x addr btAttOpFindInfoReq (le16 start ++ le16 last)).2 =
      infoNotFound addr start ↔ ∀ d, ¬ DescriptorIn x.server.serviceList ⟨start, last⟩ d
  loop : ∀ fuel, (characters x.server.serviceList).length < fuel →
    ∃ found, discoverDescriptors addr start last fuel x =
        (found, some (.error btAttErrorAttributeNotFound)) ∧
      found.flatten.Pairwise (fun d e => d.1 < e.1) ∧
      ∀ d, d ∈ found.flatten ↔ DescriptorIn x.server.serviceList ⟨start, last⟩ d

/-! ## One question -/

/-- The reply to Find Information: what the first characteristic with a client configuration
descriptor in the range has there, or Attribute Not Found. -/
theorem request_findInfo (x : Session σ) (addr : BdAddr) (start last : UInt16) :
    (request x addr btAttOpFindInfoReq (le16 start ++ le16 last)).1.server = x.server ∧
      (request x addr btAttOpFindInfoReq (le16 start ++ le16 last)).2 =
        sentPdus (findInfoRsp x.server.serviceList addr ⟨start, last⟩) := by
  obtain ⟨hstart, hlast⟩ := Mem.u16_write_pair (x.buffer 0) start last
  have hrsp : ∀ g l pdu len, receive (σ := σ) g l addr btAttOpFindInfoReq pdu len =
      (g, findInfoRsp g.serviceList addr ⟨pdu.u16 0, pdu.u16 2⟩) := fun _ _ _ _ => rfl
  simp only [request, hrsp, hstart, hlast, and_self]

/-- The descriptors of a characteristic that lie in a range. -/
def GattCharacter.descriptorsIn (c : GattCharacter) (r : HandleRange) : List (UInt16 × UInt16) :=
  c.descriptors.filter fun d => r.covers d.1

/-- A search through the services for a characteristic is one through all of them, where a
service with a match is not passed over. -/
theorem findInService_eq_find? {p : GattService σ → Bool} {q : GattCharacter → Bool}
    {ss : List (GattService σ)}
    (h : ∀ s ∈ ss, p s = (s.characterList.find? q).isSome) :
    (findInService p q ss).map Prod.snd = (characters ss).find? q := by
  induction ss with
  | nil => rfl
  | cons s ss ih =>
      have ih := ih fun t ht => h t (List.mem_cons_of_mem _ ht)
      rw [characters] at ih
      rw [characters, List.flatMap_cons, List.find?_append, ← ih, findInService, findInService,
        List.find?_cons, h s List.mem_cons_self]
      cases hfind : s.characterList.find? q with
      | some c => simp [hfind]
      | none => simp

/-- Zero is in no range that a client asks for. -/
theorem ne_zero_of_covers {start last handle : UInt16} (hstart : 1 ≤ start)
    (h : (⟨start, last⟩ : HandleRange).covers handle = true) : handle ≠ 0 := by
  intro hzero
  simp only [HandleRange.covers, decide_eq_true_eq, ge_iff_le, hzero] at h
  exact absurd (UInt16.le_trans hstart h.1) (by decide)

/-- A service with a client configuration descriptor in the range meets the range. -/
theorem DbLaid.findDesc_eq {ss : List (GattService σ)} {n : ℕ} (h : DbLaid 0 ss n)
    {start : UInt16} (hstart : 1 ≤ start) (last : UInt16) :
    ∀ s ∈ ss, findDescInServiceByHandleRangeCb ⟨start, last⟩ s =
      (s.characterList.find? (findGattDescreptorByHandleRangeCb ⟨start, last⟩)).isSome := by
  intro s hs
  rw [findDescInServiceByHandleRangeCb]
  cases hfind : s.characterList.find? (findGattDescreptorByHandleRangeCb ⟨start, last⟩) with
  | none => simp
  | some c =>
      have hcovers := List.find?_some hfind
      rw [findGattDescreptorByHandleRangeCb] at hcovers
      have hmem : c.descHandle ∈ c.handles := by
        simp [GattCharacter.handles, ne_zero_of_covers hstart hcovers]
      obtain ⟨hlow, hhigh⟩ :=
        h.handlesOk.inside s hs c (List.mem_of_find?_eq_some hfind) _ hmem
      simp only [HandleRange.covers, decide_eq_true_eq, ge_iff_le] at hcovers
      simp only [HandleRange.meets, ge_iff_le, Option.isSome_some, and_true, decide_eq_true_eq]
      exact ⟨UInt16.le_trans hlow hcovers.2, UInt16.le_trans hcovers.1 hhigh⟩

/-- The reply in terms of all characteristics in a row. -/
theorem sentPdus_findInfoRsp {ss : List (GattService σ)} {n : ℕ} (h : DbLaid 0 ss n)
    (addr : BdAddr) {start : UInt16} (hstart : 1 ≤ start) (last : UInt16) :
    sentPdus (findInfoRsp ss addr ⟨start, last⟩) =
      match (characters ss).find? (findGattDescreptorByHandleRangeCb ⟨start, last⟩) with
      | some c => [(addr, ⟨btAttOpFindInfoRsp, [findInfoUuidType16Bit] ++
          (c.descriptorsIn ⟨start, last⟩).flatMap fun d => le16 d.1 ++ le16 d.2⟩)]
      | none => infoNotFound addr start := by
  have hflat := findInService_eq_find? (h.findDesc_eq hstart last)
  rw [findInfoRsp]
  rcases hfind : findInService (findDescInServiceByHandleRangeCb ⟨start, last⟩)
      (findGattDescreptorByHandleRangeCb ⟨start, last⟩) ss with _ | ⟨s, c⟩
  · rw [hfind] at hflat
    rw [← hflat]
    exact sentPdus_sendAttError addr _ _ _
  · rw [hfind] at hflat
    have hcovers := List.find?_some hflat.symm
    rw [findGattDescreptorByHandleRangeCb] at hcovers
    have hne := ne_zero_of_covers hstart hcovers
    rw [← hflat]
    simp only [Option.map_some]
    rw [sentPdus_gattSend addr _ (by decide)]
    simp only [hcovers, if_true, GattCharacter.descriptorsIn, GattCharacter.descriptors]
    by_cases hrpt : (⟨start, last⟩ : HandleRange).covers c.rptRefHandle = true
    · simp [hcovers, hrpt, hne, ne_zero_of_covers hstart hrpt]
    · by_cases hzero : c.rptRefHandle = 0
      · have hrpt' : (⟨start, last⟩ : HandleRange).covers 0 ≠ true := hzero ▸ hrpt
        simp [hcovers, hne, hzero, hrpt']
      · simp [hcovers, hne, hzero, hrpt]

/-- Decoding what was encoded. -/
theorem decodePairs_flatMap (ds : List (UInt16 × UInt16)) :
    decodePairs (ds.flatMap fun d => le16 d.1 ++ le16 d.2) = some ds := by
  induction ds with
  | nil => rfl
  | cons d ds ih => simp [le16] at ih; simp [decodePairs, le16, ih]

/-- **The answer to a question**: the descriptors in the range of the first characteristic
with a client configuration descriptor there. -/
theorem askDescriptors_eq {ss : List (GattService σ)} {n : ℕ} (h : DbLaid 0 ss n)
    (addr : BdAddr) {start : UInt16} (hstart : 1 ≤ start) (last : UInt16) {x : Session σ}
    (hx : x.server.serviceList = ss) :
    (askDescriptors addr last x start).1.server = x.server ∧
      (askDescriptors addr last x start).2 =
        (match (characters ss).find? (findGattDescreptorByHandleRangeCb ⟨start, last⟩) with
        | some c => .inl (c.descriptorsIn ⟨start, last⟩)
        | none => .inr (.error btAttErrorAttributeNotFound)) := by
  obtain ⟨hserver, hsent⟩ := request_findInfo x addr start last
  refine ⟨hserver, ?_⟩
  simp only [askDescriptors, hsent, hx, sentPdus_findInfoRsp h addr hstart last]
  cases hfind : (characters ss).find? (findGattDescreptorByHandleRangeCb ⟨start, last⟩) with
  | none =>
      have hne : ¬ btAttOpErrorRsp = btAttOpFindInfoRsp := by decide
      simp [decodeReply, infoNotFound, hne, le16]
  | some c =>
      have hcovers := List.find?_some hfind
      rw [findGattDescreptorByHandleRangeCb] at hcovers
      have hmem : (c.descHandle, gattClientCharacCfgUuid) ∈ c.descriptorsIn ⟨start, last⟩ := by
        simp [GattCharacter.descriptorsIn, GattCharacter.descriptors, hcovers,
          ne_zero_of_covers hstart hcovers]
      have hne : (c.descriptorsIn ⟨start, last⟩).flatMap (fun d => le16 d.1 ++ le16 d.2) ≠ [] := by
        intro hnil
        have := List.flatMap_eq_nil_iff.mp hnil _ hmem
        simp [le16] at this
      have hdecode : decodeInformation ([findInfoUuidType16Bit] ++
          (c.descriptorsIn ⟨start, last⟩).flatMap fun d => le16 d.1 ++ le16 d.2) =
            some (c.descriptorsIn ⟨start, last⟩) := by
        rw [List.singleton_append, decodeInformation, if_pos ⟨rfl, hne⟩, decodePairs_flatMap]
      simp only [decodeReply, ne_eq, not_true_eq_false, if_false, if_true, hdecode]

/-! ## The characteristics in one row -/

/-- The characteristics follow one another with gaps, the first behind `e`, the last up to
`e'`. -/
inductive Ascending : ℕ → List GattCharacter → ℕ → Prop
  | nil {e e' : ℕ} : e ≤ e' → Ascending e [] e'
  | cons {e k e' : ℕ} {c : GattCharacter} {cs : List GattCharacter} :
      e ≤ k → CharLaid k c → Ascending (k + c.size) cs e' → Ascending e (c :: cs) e'

theorem Ascending.le {e e' : ℕ} {cs : List GattCharacter} (h : Ascending e cs e') : e ≤ e' := by
  induction h with
  | nil h => exact h
  | cons => omega

theorem Ascending.mono {d e e' : ℕ} {cs : List GattCharacter} (h : Ascending e cs e')
    (hd : d ≤ e) : Ascending d cs e' := by
  cases h with
  | nil h => exact .nil (by omega)
  | cons hle hc hcs => exact .cons (by omega) hc hcs

theorem CharsLaid.ascending_append {e e' n : ℕ} {cs ds : List GattCharacter}
    (h : CharsLaid e cs e') (hds : Ascending e' ds n) : Ascending e (cs ++ ds) n := by
  induction h with
  | nil => exact hds
  | cons hc _ ih => exact .cons le_rfl hc (ih hds)

/-- The characteristics of a database that is laid out. -/
theorem DbLaid.ascending {last last' : ℕ} {ss : List (GattService σ)} (h : DbLaid last ss last') :
    Ascending last (characters ss) last' := by
  induction h with
  | nil => exact .nil le_rfl
  | cons hs _ ih => exact (hs.chars.ascending_append ih).mono (by omega)

section Row

variable {e k n : ℕ} {c : GattCharacter} {cs : List GattCharacter}

theorem Ascending.charLaid (h : Ascending e cs n) (hc : c ∈ cs) :
    ∃ k, CharLaid k c ∧ k + c.size ≤ n := by
  induction h with
  | nil => simp at hc
  | cons _ hd hcs ih =>
      rcases List.mem_cons.mp hc with rfl | hc
      · exact ⟨_, hd, hcs.le⟩
      · exact ih hc

/-- The descriptors of a characteristic are those of its handles behind the value. -/
theorem CharLaid.descriptors_eq (h : CharLaid k c) :
    c.descriptors = (if 3 ≤ c.size then [(c.descHandle, gattClientCharacCfgUuid)] else []) ++
      (if 4 ≤ c.size then [(c.rptRefHandle, gattReportReference)] else []) := by
  have hzero : ∀ {x : UInt16}, x = 0 ↔ x.toNat = 0 := fun {x} => UInt16.toNat_inj.symm
  have hd := h.desc
  have hr := h.rptRef
  simp only [GattCharacter.descriptors, ne_eq]
  by_cases h3 : 3 ≤ c.size
  · by_cases h4 : 4 ≤ c.size
    · simp [h3, h4] at hd hr
      simp [h3, h4, hzero, hd, hr]
    · simp [h3, h4] at hd hr
      simp [h3, h4, hzero, hd, hr]
  · have h4 : ¬ 4 ≤ c.size := by omega
    simp [h3, h4] at hd hr
    simp [h3, h4, hzero, hd, hr]

/-- The descriptors of a characteristic ascend, behind its value. -/
theorem CharLaid.descriptors_ascend (h : CharLaid k c) :
    c.descriptors.Pairwise (fun d e => d.1 < e.1) ∧
      ∀ d ∈ c.descriptors, k + 3 ≤ d.1.toNat ∧ d.1.toNat ≤ k + c.size := by
  have hd := h.desc
  have hr := h.rptRef
  rw [h.descriptors_eq]
  by_cases h4 : 4 ≤ c.size
  · have h3 : 3 ≤ c.size := by omega
    simp only [h3, h4, if_true] at hd hr ⊢
    simp [UInt16.lt_iff_toNat_lt, hd, hr]
    omega
  · by_cases h3 : 3 ≤ c.size
    · simp only [h3, h4, if_true, if_false] at hd hr ⊢
      simp [hd]
      omega
    · simp [h3, h4]

/-- So do the descriptors of characteristics in a row. -/
theorem Ascending.descriptors_ascend (h : Ascending e cs n) :
    (cs.flatMap GattCharacter.descriptors).Pairwise (fun d e => d.1 < e.1) ∧
      ∀ d ∈ cs.flatMap GattCharacter.descriptors, e + 3 ≤ d.1.toNat ∧ d.1.toNat ≤ n := by
  induction h with
  | nil => simp
  | @cons e k n c cs hle hc hcs ih =>
      obtain ⟨hpair, hrange⟩ := hc.descriptors_ascend
      obtain ⟨ihpair, ihrange⟩ := ih
      have hend := hcs.le
      rw [List.flatMap_cons]
      refine ⟨List.pairwise_append.mpr ⟨hpair, ihpair, ?_⟩, ?_⟩
      · intro d hd d' hd'
        have := hrange d hd
        have := ihrange d' hd'
        exact UInt16.lt_iff_toNat_lt.mpr (by omega)
      · intro d hd
        rcases List.mem_append.mp hd with hd | hd
        · have := hrange d hd
          omega
        · have := ihrange d hd
          omega

theorem covers_iff {start last handle : UInt16} :
    (⟨start, last⟩ : HandleRange).covers handle = true ↔
      start.toNat ≤ handle.toNat ∧ handle.toNat ≤ last.toNat := by
  simp [HandleRange.covers, UInt16.le_iff_toNat_le]

/-- Where the client configuration descriptor is not in the range, nothing of the
characteristic is, unless the range starts at the report reference. -/
theorem CharLaid.descriptorsIn_eq_nil (h : CharLaid k c) {start last : UInt16}
    (hcov : ¬ (⟨start, last⟩ : HandleRange).covers c.descHandle = true)
    (hrpt : c.rptRefHandle ≠ start) : c.descriptorsIn ⟨start, last⟩ = [] := by
  have hd := h.desc
  have hr := h.rptRef
  have hne : c.rptRefHandle.toNat ≠ start.toNat := fun heq => hrpt (UInt16.toNat_inj.mp heq)
  rw [covers_iff] at hcov
  rw [GattCharacter.descriptorsIn, List.filter_eq_nil_iff, h.descriptors_eq]
  intro d hmem
  rw [covers_iff]
  by_cases h4 : 4 ≤ c.size
  · have h3 : 3 ≤ c.size := by omega
    simp only [h3, h4, if_true, List.singleton_append, List.mem_cons, List.not_mem_nil,
      or_false] at hd hr hmem
    rcases hmem with rfl | rfl
    · exact hcov
    · simp only
      omega
  · simp only [h4, if_false, List.append_nil] at hmem
    split_ifs at hmem
    · rw [List.mem_singleton] at hmem
      rw [hmem]
      exact hcov
    · simp at hmem

/-- The client goes on behind the characteristic it got, at most one handle before its
end. -/
theorem CharLaid.behindLast_bounds (h : CharLaid k c) (hend : k + c.size ≤ 0xFFFE)
    {start last : UInt16} (hstart : 1 ≤ start)
    (hcov : (⟨start, last⟩ : HandleRange).covers c.descHandle = true) :
    3 ≤ c.size ∧ start.toNat ≤ k + 3 ∧
      k + 4 ≤ (behindLast (c.descriptorsIn ⟨start, last⟩)).toNat ∧
      (behindLast (c.descriptorsIn ⟨start, last⟩)).toNat ≤ k + c.size + 1 := by
  have hd := h.desc
  have hr := h.rptRef
  have hne := ne_zero_of_covers hstart hcov
  have h3 : 3 ≤ c.size := by
    by_contra h3
    rw [if_neg h3] at hd
    exact hne (UInt16.toNat_inj.mp hd)
  have hstart' := (covers_iff.mp hcov).1
  rw [if_pos h3] at hd
  have hadd : ∀ x : UInt16, x.toNat ≤ 0xFFFE → (x + 1).toNat = x.toNat + 1 := by
    intro x hx
    rw [UInt16.toNat_add]
    simp
    omega
  refine ⟨h3, by omega, ?_⟩
  rw [GattCharacter.descriptorsIn, h.descriptors_eq, if_pos h3]
  by_cases h4 : 4 ≤ c.size
  · rw [if_pos h4] at hr ⊢
    by_cases hcov' : (⟨start, last⟩ : HandleRange).covers c.rptRefHandle = true
    · simp [behindLast, hcov, hcov', hadd _ (by omega : c.rptRefHandle.toNat ≤ 0xFFFE)]
      omega
    · simp [behindLast, hcov, hcov', hadd _ (by omega : c.descHandle.toNat ≤ 0xFFFE)]
      omega
  · rw [if_neg h4]
    simp [behindLast, hcov, hadd _ (by omega : c.descHandle.toNat ≤ 0xFFFE)]
    omega

end Row

/-- Behind the characteristics `pre` the loop finds the descriptors of the others, unless it
stands at a report reference. -/
theorem yields_descriptors (addr : BdAddr) {ss : List (GattService σ)} {n : ℕ}
    (hlaid : DbLaid 0 ss n) (hn : n ≤ 0xFFFE) (last : UInt16) (pre : List GattCharacter)
    {cs : List GattCharacter} (hsplit : characters ss = pre ++ cs) {e : ℕ}
    (hcs : Ascending e cs n) {start : UInt16} (hstart : 1 ≤ start)
    (hpre : ∀ c ∈ pre, ¬ (⟨start, last⟩ : HandleRange).covers c.descHandle = true)
    (hrpt : ∀ c ∈ cs, c.rptRefHandle ≠ start) :
    ∃ found, Yields (askDescriptors addr last) behindLast
        (fun x : Session σ => x.server.serviceList = ss)
        (.error btAttErrorAttributeNotFound) start found ∧
      found.length ≤ cs.length ∧
      found.flatten = (cs.flatMap GattCharacter.descriptors).filter
        fun d => (⟨start, last⟩ : HandleRange).covers d.1 := by
  induction cs generalizing pre e start with
  | nil =>
      have hnone : pre.find? (findGattDescreptorByHandleRangeCb ⟨start, last⟩) = none :=
        List.find?_eq_none.mpr hpre
      refine ⟨[], .done ?_, le_rfl, rfl⟩
      intro x hx
      rw [(askDescriptors_eq hlaid addr hstart last hx).2, hsplit, List.append_nil, hnone]
  | cons c cs ih =>
      obtain ⟨k, hle, hc, hcs⟩ : ∃ k, e ≤ k ∧ CharLaid k c ∧ Ascending (k + c.size) cs n := by
        cases hcs with
        | cons hle hc hcs => exact ⟨_, hle, hc, hcs⟩
      have hsplit' : characters ss = (pre ++ [c]) ++ cs := by simpa using hsplit
      rw [List.flatMap_cons, List.filter_append]
      by_cases hcov : (⟨start, last⟩ : HandleRange).covers c.descHandle = true
      · -- the characteristic answers, and the loop goes on behind it
        have hend := hcs.le
        obtain ⟨h3, hlow, hnext, hnext'⟩ := hc.behindLast_bounds (by omega) hstart hcov
        have hlater := hcs.descriptors_ascend.2
        have hone : 1 ≤ behindLast (c.descriptorsIn ⟨start, last⟩) :=
          UInt16.le_iff_toNat_le.mpr (by simp; omega)
        have hpre' : ∀ d ∈ pre ++ [c],
            ¬ (⟨behindLast (c.descriptorsIn ⟨start, last⟩), last⟩ : HandleRange).covers
              d.descHandle = true := by
          intro d hd
          rw [covers_iff]
          rcases List.mem_append.mp hd with hd | hd
          · have hbefore := hpre d hd
            rw [covers_iff] at hbefore
            omega
          · obtain rfl := List.mem_singleton.mp hd
            have := hc.desc
            rw [if_pos h3] at this
            omega
        have hrpt' : ∀ d ∈ cs,
            d.rptRefHandle ≠ behindLast (c.descriptorsIn ⟨start, last⟩) := by
          intro d hd heq
          have hne : d.rptRefHandle ≠ 0 := by
            intro hzero
            rw [← heq, hzero] at hnext
            simp at hnext
          have hmem : (d.rptRefHandle, gattReportReference) ∈ d.descriptors := by
            simp [GattCharacter.descriptors, hne]
          have := hlater _ (List.mem_flatMap.mpr ⟨d, hd, hmem⟩)
          simp only [heq] at this
          omega
        obtain ⟨more, hmore, hlen, hflat⟩ := ih (pre ++ [c]) hsplit' hcs hone hpre' hrpt'
        refine ⟨c.descriptorsIn ⟨start, last⟩ :: more, .item ?_ hmore, by simpa using hlen, ?_⟩
        · intro x hx
          obtain ⟨hserver, hans⟩ := askDescriptors_eq hlaid addr hstart last hx
          have hnone : pre.find? (findGattDescreptorByHandleRangeCb ⟨start, last⟩) = none :=
            List.find?_eq_none.mpr hpre
          have hhead : (c :: cs).find? (findGattDescreptorByHandleRangeCb ⟨start, last⟩) =
              some c := List.find?_cons_of_pos hcov
          rw [hans, hserver, hsplit, List.find?_append, hnone, Option.none_or, hhead]
          exact ⟨rfl, hx⟩
        · rw [List.flatten_cons, hflat]
          refine congrArg₂ (· ++ ·) rfl (List.filter_congr ?_)
          intro d hd
          have := hlater d hd
          rw [Bool.eq_iff_iff, covers_iff, covers_iff]
          omega
      · -- nothing of the characteristic is in the range
        have hnil := hc.descriptorsIn_eq_nil hcov (hrpt c List.mem_cons_self)
        rw [GattCharacter.descriptorsIn] at hnil
        have hpre' : ∀ d ∈ pre ++ [c],
            ¬ (⟨start, last⟩ : HandleRange).covers d.descHandle = true := by
          intro d hd
          rcases List.mem_append.mp hd with hd | hd
          · exact hpre d hd
          · rw [List.mem_singleton.mp hd]
            exact hcov
        obtain ⟨found, hfound, hlen, hflat⟩ := ih (pre ++ [c]) hsplit' hcs hstart hpre'
          fun d hd => hrpt d (List.mem_cons_of_mem _ hd)
        refine ⟨found, hfound, hlen.trans (Nat.le_succ _), ?_⟩
        rw [hflat, hnil, List.nil_append]

/-! ## The whole discovery -/

section Discovery

variable {ss : List (GattService σ)} {n : ℕ} {start last : UInt16}

/-- Who is found in a range by the filter. -/
theorem mem_filter_descriptors {d : UInt16 × UInt16} :
    d ∈ ((characters ss).flatMap GattCharacter.descriptors).filter
        (fun d => (⟨start, last⟩ : HandleRange).covers d.1) ↔ DescriptorIn ss ⟨start, last⟩ d := by
  rw [List.mem_filter, List.mem_flatMap, DescriptorIn, and_comm]

/-- **Enough**: the range does not start at a report reference. -/
theorem DbLaid.descriptorDiscovery (hlaid : DbLaid 0 ss n) (hn : n ≤ 0xFFFE) (addr : BdAddr)
    {x : Session σ} (hx : x.server.serviceList = ss) (hstart : 1 ≤ start)
    (hrpt : ∀ c ∈ characters ss, c.rptRefHandle ≠ start) :
    DescriptorDiscovery addr x start last := by
  have hasc := hlaid.ascending
  constructor
  · rw [(request_findInfo x addr start last).2, hx, sentPdus_findInfoRsp hlaid addr hstart last]
    cases hfind : (characters ss).find? (findGattDescreptorByHandleRangeCb ⟨start, last⟩) with
    | none =>
        refine iff_of_true rfl ?_
        rintro d ⟨hcov, c, hc, hd⟩
        obtain ⟨k, hk⟩ := hlaid.charLaid hc
        have hnil := hk.descriptorsIn_eq_nil (List.find?_eq_none.mp hfind c hc) (hrpt c hc)
        have hmem : d ∈ c.descriptorsIn ⟨start, last⟩ := List.mem_filter.mpr ⟨hd, hcov⟩
        rw [hnil] at hmem
        simp at hmem
    | some c =>
        have hcov := List.find?_some hfind
        rw [findGattDescreptorByHandleRangeCb] at hcov
        refine iff_of_false ?_ ?_
        · intro heq
          have hop := congrArg (fun sent => sent.map fun p => p.2.opcode) heq
          simp only [infoNotFound, List.map_cons, List.map_nil, List.cons.injEq, and_true] at hop
          exact absurd hop (by decide)
        · intro hall
          refine hall (c.descHandle, gattClientCharacCfgUuid) ⟨hcov, c,
            List.mem_of_find?_eq_some hfind, ?_⟩
          simp [GattCharacter.descriptors, ne_zero_of_covers hstart hcov]
  · intro fuel hfuel
    rw [hx] at hfuel ⊢
    have hsplit : characters ss = [] ++ characters ss := rfl
    obtain ⟨found, hyields, hlen, hflat⟩ := yields_descriptors addr hlaid hn last [] hsplit hasc
      hstart (by simp) hrpt
    refine ⟨found, enumerate_eq hyields hx (by omega), ?_, ?_⟩
    · rw [hflat]
      exact hasc.descriptors_ascend.1.filter _
    · intro d
      rw [hflat]
      exact mem_filter_descriptors

/-- What the loop returns comes with a client configuration descriptor at or behind the
position it is asked from. -/
theorem DbLaid.of_mem_enumerate (hlaid : DbLaid 0 ss n) (hn : n ≤ 0xFFFE) (addr : BdAddr)
    (fuel : ℕ) {x : Session σ} (hx : x.server.serviceList = ss) (hstart : 1 ≤ start)
    {d : UInt16 × UInt16}
    (hd : d ∈ (enumerate (askDescriptors addr last) behindLast fuel x start).1.flatten) :
    ∃ c ∈ characters ss, d ∈ c.descriptors ∧ start ≤ c.descHandle := by
  induction fuel generalizing x start with
  | zero => simp [enumerate] at hd
  | succ fuel ih =>
      obtain ⟨hserver, hans⟩ := askDescriptors_eq hlaid addr hstart last hx
      rcases hask : askDescriptors addr last x start with ⟨x', found | stop⟩
      · rw [hask] at hserver hans
        cases hfind : (characters ss).find? (findGattDescreptorByHandleRangeCb ⟨start, last⟩) with
        | none =>
            rw [hfind] at hans
            cases hans
        | some c =>
            rw [hfind] at hans
            obtain rfl : found = c.descriptorsIn ⟨start, last⟩ := Sum.inl.inj hans
            have hc := List.mem_of_find?_eq_some hfind
            have hcov := List.find?_some hfind
            rw [findGattDescreptorByHandleRangeCb] at hcov
            have hlow := (covers_iff.mp hcov).1
            obtain ⟨k, hk, hend⟩ := hlaid.ascending.charLaid hc
            simp only [enumerate, hask, List.flatten_cons, List.mem_append] at hd
            rcases hd with hd | hd
            · exact ⟨c, hc, (List.mem_filter.mp hd).1, UInt16.le_iff_toNat_le.mpr hlow⟩
            · obtain ⟨-, hle, hnext, -⟩ := hk.behindLast_bounds (by omega) hstart hcov
              have hone : 1 ≤ behindLast (c.descriptorsIn ⟨start, last⟩) :=
                UInt16.le_iff_toNat_le.mpr (by simp; omega)
              obtain ⟨c', hc', hd', hbehind⟩ := ih (hserver ▸ hx) hone hd
              rw [UInt16.le_iff_toNat_le] at hbehind
              exact ⟨c', hc', hd', UInt16.le_iff_toNat_le.mpr (by omega)⟩
      · simp [enumerate, hask] at hd

/-- **Needed**: the report reference at the start of the range is not returned. -/
theorem DescriptorDiscovery.rptRefHandle_ne (hlaid : DbLaid 0 ss n) (hn : n ≤ 0xFFFE)
    {addr : BdAddr} {x : Session σ} (hx : x.server.serviceList = ss) (hstart : 1 ≤ start)
    (hle : start ≤ last) (h : DescriptorDiscovery addr x start last) {c : GattCharacter}
    (hc : c ∈ characters ss) : c.rptRefHandle ≠ start := by
  intro heq
  have hne : start ≠ 0 := by
    intro hzero
    exact absurd (hzero ▸ hstart) (by decide)
  have hmem : (start, gattReportReference) ∈ c.descriptors := by
    simp [GattCharacter.descriptors, heq, hne]
  obtain ⟨found, hfound, -, hall⟩ := h.loop _ (Nat.lt_succ_self _)
  rw [hx] at hall
  have hin : (start, gattReportReference) ∈ found.flatten := by
    refine (hall _).mpr ⟨?_, c, hc, hmem⟩
    simp [HandleRange.covers, hle]
  have hloop : (enumerate (askDescriptors addr last) behindLast _ x start).1 = found :=
    congrArg Prod.fst hfound
  rw [← hloop] at hin
  obtain ⟨c', hc', hd', hbehind⟩ := hlaid.of_mem_enumerate hn addr _ hx hstart hin
  -- the handle belongs to one characteristic only
  have hown : ∀ c : GattCharacter, (start, gattReportReference) ∈ c.descriptors →
      start ∈ c.handles ∧ (start = c.descHandle ∨ start = c.rptRefHandle) := by
    intro c hd
    simp only [GattCharacter.descriptors, List.mem_filter, List.mem_cons, Prod.mk.injEq,
      List.not_mem_nil, or_false] at hd
    have hor : start = c.descHandle ∨ start = c.rptRefHandle :=
      hd.1.imp (fun h => h.1) fun h => h.1
    refine ⟨?_, hor⟩
    simp only [GattCharacter.handles, List.mem_filter, List.mem_cons, List.not_mem_nil, or_false,
      decide_eq_true_eq]
    exact ⟨.inr (.inr hor), hne⟩
  obtain rfl := hlaid.eq_of_mem_handles hc hc' (hown c hmem).1 (hown c' hd').1
  obtain ⟨k, hk⟩ := hlaid.charLaid hc
  have hd := hk.desc
  have hr := hk.rptRef
  rw [UInt16.le_iff_toNat_le] at hbehind
  rw [heq] at hr
  have hpos : start.toNat ≠ 0 := fun h0 => hne (UInt16.toNat_inj.mp h0)
  split_ifs at hd hr <;> omega

end Discovery

/-- **Descriptor discovery.** On a database that was built without a wrap, the reply to a
request for descriptors and the whole loop are right exactly if the range does not start at
a report reference. -/
theorem descriptor_discovery_iff (addr : BdAddr) {x : Session σ}
    (hbuilt : Built x.server.serviceList) (hno : NoWrap x.server.serviceList)
    {start last : UInt16} (hstart : 1 ≤ start) (hle : start ≤ last) :
    DescriptorDiscovery addr x start last ↔
      ∀ c ∈ characters x.server.serviceList, c.rptRefHandle ≠ start := by
  obtain ⟨n, hlaid, hn⟩ := dbLaid_of_built hbuilt hno
  constructor
  · intro h c hc
    exact h.rptRefHandle_ne hlaid hn rfl hstart hle hc
  · intro h
    exact hlaid.descriptorDiscovery hn addr rfl hstart h

theorem descriptor_discovery_battery :
    DescriptorDiscovery ⟨#v[1, 2, 3, 4, 5, 6]⟩ batterySession 1 0xFFFF := by
  refine (descriptor_discovery_iff _ built_batteryServices noWrap_batteryServices
    (by decide) (by decide)).mpr ?_
  have hall : ((characters batterySession.server.serviceList).all fun c =>
      c.rptRefHandle ≠ 1) = true := by decide
  simpa using hall

/-- A client in front of the services of the program. -/
def hidSession : Session (Hid × Unit) where
  server := secureServer initGattServices
  locals := fun _ => ⟨.u16 0, Vector.replicate 16 0, 0⟩
  buffer := fun _ _ => 0

/-- The first report has its descriptors at 10 and 11; a range from 11 misses the one
there. -/
theorem descriptor_discovery_misses :
    ¬ DescriptorDiscovery ⟨#v[1, 2, 3, 4, 5, 6]⟩ hidSession 11 0xFFFF := by
  intro h
  obtain ⟨n, hlaid, hn⟩ := dbLaid_of_built (built_initGattServices (τ := Unit))
    noWrap_initGattServices
  have hmem : hidCharacters[2] ∈ characters (initGattServices (τ := Unit)) :=
    List.mem_flatMap.mpr ⟨_, List.mem_cons_self, List.getElem_mem _⟩
  exact h.rptRefHandle_ne hlaid hn rfl (by decide) (by decide) hmem rfl

end CCode.Gatt
