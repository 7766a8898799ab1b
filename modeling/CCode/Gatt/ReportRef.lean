import CCode.Gatt.ReportMap
import CCode.Gatt.Routing

/-!
# Reading the report references

A HID host reads the report reference of every report to learn which of the ids in the report
map it stands for. `hid_map` declares the ids 1 and 2, and the service has two reports. The
callback is told the UUID of the characteristic only, which both reports share, so it counts:
every descriptor read of a report, a client configuration included, increments `report[0]`
and returns it. A host that reads each reference once sees two ids. What it sees otherwise
depends on the whole order of its reads.

`reportRefs_stable_iff` says which sequences of reads get along with that.

## Main definitions

* `reads` — the session after a sequence of reads.
* `reportId` — the id that a read of a handle returns next.
* `StableRefs` — what a host relies on.
-/

namespace CCode.Gatt

open CCode.Lib

variable {τ : Type}

/-! ## The host's side -/

/-- The report references of a database. -/
def refHandles {σ : Type} (ss : List (GattService σ)) : List UInt16 :=
  ((characters ss).map (·.rptRefHandle)).filter (· ≠ 0)

/-- The client configurations of a database. -/
def confHandles {σ : Type} (ss : List (GattService σ)) : List UInt16 :=
  ((characters ss).map (·.descHandle)).filter (· ≠ 0)

/-- The session after reads of the handles. -/
def reads (x : Session (Hid × τ)) (addr : BdAddr) : List UInt16 → Session (Hid × τ)
  | [] => x
  | handle :: hs => reads (request x addr btAttOpReadReq (le16 handle)).1 addr hs

/-- The report id in the reply to a read of the handle. -/
def reportId (x : Session (Hid × τ)) (addr : BdAddr) (handle : UInt16) : Option UInt8 :=
  (replyBytes addr btAttOpReadRsp (request x addr btAttOpReadReq (le16 handle)).2).bind
    List.head?

/-- The report references keep their meaning over a sequence of reads: each read of one
returns an id, it is the same at every read, two references have different ids, and no read
of a client configuration changes what a reference returns. -/
structure StableRefs (x : Session (Hid × τ)) (addr : BdAddr) (hs : List UInt16) : Prop where
  answered : ∀ pre h post, hs = pre ++ h :: post → h ∈ refHandles x.server.serviceList →
    (reportId (reads x addr pre) addr h).isSome
  same : ∀ pre h mid post, hs = pre ++ h :: (mid ++ h :: post) →
    h ∈ refHandles x.server.serviceList →
    reportId (reads x addr pre) addr h = reportId (reads x addr (pre ++ h :: mid)) addr h
  distinct : ∀ pre h mid h' post, hs = pre ++ h :: (mid ++ h' :: post) →
    h ∈ refHandles x.server.serviceList → h' ∈ refHandles x.server.serviceList → h ≠ h' →
    reportId (reads x addr pre) addr h ≠ reportId (reads x addr (pre ++ h :: mid)) addr h'
  conf : ∀ pre h post, hs = pre ++ h :: post → h ∈ confHandles x.server.serviceList →
    ∀ r ∈ refHandles x.server.serviceList,
      reportId (reads x addr (pre ++ [h])) addr r = reportId (reads x addr pre) addr r

/-! ## The database -/

/-- A descriptor is found under one of its two handles. -/
theorem desc_of_getHandleInfo {σ : Type} {ss : List (GattService σ)} {handle : UInt16}
    {s : GattService σ} {c : GattCharacter}
    (h : getHandleInfo ss handle = some (s, c, .descConf)) :
    handle = c.descHandle ∨ handle = c.rptRefHandle := by
  rw [getHandleInfo] at h
  split_ifs at h
  split at h
  · simp at h
  · split at h
    · simp at h
    · split_ifs at h with hvalue hdesc hrpt
      · simp at h
      · simp only [Option.some.injEq, Prod.mk.injEq] at h
        exact .inl (h.2.1 ▸ hdesc)
      · simp only [Option.some.injEq, Prod.mk.injEq] at h
        exact .inr (h.2.1 ▸ hrpt)

/-- The database of `init_gatt_services`, with any MTUs. -/
def IsHidDb (ss : List (GattService (Hid × τ))) : Prop :=
  ∃ m n : Int, ss =
    [⟨1, 15, .u16 0x1812, hidCharacters, hidCb, m⟩,
     ⟨16, 24, .u16 0x1800, accessCharacters, genericAccessCb, n⟩]

theorem isHidDb_initGattServices : IsHidDb (initGattServices (τ := τ)) :=
  ⟨_, _, initGattServices_eq⟩

theorem IsHidDb.serve {g : GattServices (Hid × τ)} (h : IsHidDb g.serviceList) (i : Input) :
    IsHidDb (serve g i).1.serviceList := by
  obtain ⟨m, n, hss⟩ := h
  rcases serve_serviceList g i with heq | ⟨mtu, heq⟩
  · rw [heq]
    exact ⟨m, n, hss⟩
  · rw [heq, hss]
    exact ⟨mtu, mtu, rfl⟩

theorem IsHidDb.of_runs {g g' : GattServices (Hid × τ)} {inputs : List Input}
    (h : g.serviceList = initGattServices)
    (hrun : Runs serveStep (fun _ _ => True) g inputs g') : IsHidDb g'.serviceList := by
  refine hrun.invariant (P := fun g => IsHidDb g.serviceList) (h ▸ isHidDb_initGattServices) ?_
  intro u i u' hu _ hstep
  obtain rfl := Option.some.inj hstep
  exact hu.serve i

/-- The descriptors of the two reports: a client configuration and a report reference each. -/
def reportDescs : List UInt16 := [10, 11, 14, 15]

section Database

variable {ss : List (GattService (Hid × τ))} (h : IsHidDb ss)
include h

theorem IsHidDb.refHandles_eq : refHandles ss = [11, 15] := by
  obtain ⟨m, n, rfl⟩ := h
  rfl

theorem IsHidDb.confHandles_eq : confHandles ss = [4, 7, 10, 14] := by
  obtain ⟨m, n, rfl⟩ := h
  rfl

/-- The descriptors of the reports. -/
theorem IsHidDb.getHandleInfo_report {handle : UInt16} (hmem : handle ∈ reportDescs) :
    ∃ s c, getHandleInfo ss handle = some (s, c, .descConf) ∧ s.ioCb = hidCb ∧
      c.uuid = uHidReport := by
  obtain ⟨m, n, rfl⟩ := h
  simp only [reportDescs, List.mem_cons, List.not_mem_nil, or_false] at hmem
  rcases hmem with rfl | rfl | rfl | rfl
  · exact ⟨_, hidCharacters[2], rfl, rfl, rfl⟩
  · exact ⟨_, hidCharacters[2], rfl, rfl, rfl⟩
  · exact ⟨_, hidCharacters[3], rfl, rfl, rfl⟩
  · exact ⟨_, hidCharacters[3], rfl, rfl, rfl⟩

/-- The read of any other descriptor does not count. -/
theorem IsHidDb.descRead_other {handle : UInt16} (hmem : handle ∉ reportDescs)
    {s : GattService (Hid × τ)} {c : GattCharacter}
    (hinfo : getHandleInfo ss handle = some (s, c, .descConf)) (addr : BdAddr) (w : Hid × τ)
    (desc : UInt16) : (s.ioCb.onDescriptorRead addr c.uuid w desc).1 = w := by
  have hdesc := desc_of_getHandleInfo hinfo
  obtain ⟨hs, hc⟩ := mem_of_getHandleInfo hinfo
  obtain ⟨m, n, rfl⟩ := h
  rcases List.mem_pair.mp hs with rfl | rfl
  · simp only [hidCharacters, List.mem_cons, List.not_mem_nil, or_false] at hc
    rcases hc with rfl | rfl | rfl | rfl
    · rfl
    · rfl
    all_goals
      rcases hdesc with rfl | rfl
      · exact absurd hmem (by decide)
      · exact absurd hmem (by decide)
  · rfl

/-- The read of a value does not count either. -/
theorem IsHidDb.read_value {handle : UInt16} {s : GattService (Hid × τ)} {c : GattCharacter}
    {t : HandleType} (hinfo : getHandleInfo ss handle = some (s, c, t)) (addr : BdAddr)
    (w : Hid × τ) (buf : Mem) (len : UInt16) :
    (s.ioCb.onCharacterRead addr c.uuid w buf len).1 = w := by
  obtain ⟨hs, -⟩ := mem_of_getHandleInfo hinfo
  obtain ⟨m, n, rfl⟩ := h
  rcases List.mem_pair.mp hs with rfl | rfl
  · rfl
  · rfl

end Database

/-! ## One read -/

section Request

variable {σ : Type} (x : Session σ) (addr : BdAddr) (handle : UInt16)

theorem request_read_state : (request x addr btAttOpReadReq (le16 handle)).1.server =
    (accessHandle x.server addr btAttOpReadReq ((x.buffer 0).write 0 (le16 handle))
      (UInt32.ofNat (le16 handle).length).toUInt16 (x.locals 0)).1 := by
  rw [request, receive_handle _ _ _ _ _ (by decide)]

theorem request_read_sent : (request x addr btAttOpReadReq (le16 handle)).2 =
    sentPdus (accessHandle x.server addr btAttOpReadReq ((x.buffer 0).write 0 (le16 handle))
      (UInt32.ofNat (le16 handle).length).toUInt16 (x.locals 0)).2 := by
  rw [request, receive_handle _ _ _ _ _ (by decide)]

end Request

section Read

variable {x : Session (Hid × τ)} (h : IsHidDb x.server.serviceList) (addr : BdAddr)
  {handle : UInt16}
include h

theorem IsHidDb.read (handle : UInt16) :
    IsHidDb (request x addr btAttOpReadReq (le16 handle)).1.server.serviceList := by
  rw [request_read_state, accessHandle_serviceList]
  exact h

/-- **A read of a descriptor of a report counts**, and it returns the count. -/
theorem IsHidDb.read_report (hmem : handle ∈ reportDescs) :
    (request x addr btAttOpReadReq (le16 handle)).1.server.world.1.report =
        x.server.world.1.report + 1 ∧
      reportId x addr handle = some (x.server.world.1.report + 1) := by
  obtain ⟨s, c, hinfo, hcb, huuid⟩ := h.getHandleInfo_report hmem
  rw [← u16_write_le16 (x.buffer 0) handle] at hinfo
  rw [reportId, request_read_sent, request_read_state]
  simp only [accessHandle, hinfo, accessDescConf, show ¬ btAttOpReadReq = btAttOpWriteReq by decide,
    if_false, if_true, hcb, hidCb, HidDevice.onDescriptorRead, huuid,
    show btUuidCmp uHidReport uHidReport = 0 by decide, sentPdus_call]
  rw [sentPdus_gattSend addr _ (by decide)]
  refine ⟨trivial, ?_⟩
  rw [replyBytes, if_pos ⟨rfl, rfl⟩]
  exact congrArg some (bytes_ofLe16 _ _).1

/-- No other read counts. -/
theorem IsHidDb.read_other (hmem : handle ∉ reportDescs) :
    (request x addr btAttOpReadReq (le16 handle)).1.server.world.1.report =
      x.server.world.1.report := by
  rw [request_read_state, accessHandle, u16_write_le16]
  split
  case h_1 s c hinfo =>
    have hread := h.read_value hinfo addr x.server.world x.server.rspPdu 0
    rw [accessCharacter, if_neg (by decide), if_pos rfl]
    exact congrArg (·.1.report) hread
  case h_2 s c hinfo =>
    have hread := h.descRead_other hmem hinfo addr x.server.world (x.locals 0).descValue
    rw [accessDescConf, if_neg (by decide), if_pos rfl]
    exact congrArg (·.1.report) hread
  case h_3 => rfl

end Read

/-! ## Sequences of reads -/

/-- The number of reads that count. -/
def counted (hs : List UInt16) : ℕ := hs.countP (· ∈ reportDescs)

@[simp] theorem counted_nil : counted [] = 0 := rfl

@[simp] theorem counted_append (hs hs' : List UInt16) :
    counted (hs ++ hs') = counted hs + counted hs' :=
  List.countP_append

theorem counted_cons_of_mem {handle : UInt16} (hmem : handle ∈ reportDescs) (hs : List UInt16) :
    counted (handle :: hs) = counted hs + 1 :=
  List.countP_cons_of_pos (by simpa using hmem)

theorem counted_cons_of_not_mem {handle : UInt16} (hmem : handle ∉ reportDescs)
    (hs : List UInt16) : counted (handle :: hs) = counted hs :=
  List.countP_cons_of_neg (by simpa using hmem)

theorem counted_eq_zero {hs : List UInt16} : counted hs = 0 ↔ ∀ h ∈ hs, h ∉ reportDescs := by
  simp [counted, List.countP_eq_zero]

section Reads

variable {x : Session (Hid × τ)} (h : IsHidDb x.server.serviceList) (addr : BdAddr)
include h

/-- **What a sequence of reads leaves behind is how many of them count.** -/
theorem IsHidDb.reads_report (hs : List UInt16) : IsHidDb (reads x addr hs).server.serviceList ∧
    (reads x addr hs).server.world.1.report =
      x.server.world.1.report + UInt8.ofNat (counted hs) := by
  induction hs generalizing x with
  | nil => exact ⟨h, (UInt8.add_zero _).symm⟩
  | cons handle hs ih =>
      obtain ⟨hdb, hreport⟩ := ih (h.read addr handle)
      refine ⟨hdb, hreport.trans ?_⟩
      by_cases hmem : handle ∈ reportDescs
      · rw [(h.read_report addr hmem).1, counted_cons_of_mem hmem, UInt8.ofNat_add,
          UInt8.add_assoc, UInt8.add_comm 1]
        rfl
      · rw [h.read_other addr hmem, counted_cons_of_not_mem hmem]

/-- A report reference returns the number of the read, whichever it is. -/
theorem IsHidDb.reportId_reads {ref : UInt16} (href : ref ∈ refHandles x.server.serviceList)
    (hs : List UInt16) : reportId (reads x addr hs) addr ref =
      some (x.server.world.1.report + UInt8.ofNat (counted hs) + 1) := by
  obtain ⟨hdb, hreport⟩ := h.reads_report addr hs
  rw [h.refHandles_eq] at href
  have hmem : ref ∈ reportDescs := by
    rcases List.mem_pair.mp href with rfl | rfl
    · decide
    · decide
  rw [(hdb.read_report addr hmem).2, hreport]

/-- So two reads of references return the same id if the reads between them, the first one
included, count to a multiple of 256. -/
theorem IsHidDb.reportId_eq_iff {ref ref' : UInt16}
    (href : ref ∈ refHandles x.server.serviceList) (href' : ref' ∈ refHandles x.server.serviceList)
    (pre mid : List UInt16) :
    reportId (reads x addr pre) addr ref =
        reportId (reads x addr (pre ++ mid)) addr ref' ↔
      counted mid % 256 = 0 := by
  rw [h.reportId_reads addr href, h.reportId_reads addr href', counted_append, UInt8.ofNat_add]
  have hadd : ∀ a b c : UInt8, a + b + 1 = a + (b + c) + 1 ↔ c = 0 := by
    intro a b c
    simp [← UInt8.add_assoc]
  rw [Option.some.injEq, hadd, ← UInt8.toNat_inj, UInt8.toNat_ofNat']
  rfl

end Reads

/-! ## The whole exchange -/

/-- The reads that the counter gets along with: no client configuration of a report, and
each report reference once. -/
def ReadsOnce (hs : List UInt16) : Prop :=
  10 ∉ hs ∧ 14 ∉ hs ∧ hs.count 11 ≤ 1 ∧ hs.count 15 ≤ 1

/-- Between the only reads of the two references nothing counts. -/
theorem ReadsOnce.counted_between {pre mid post : List UInt16} {ref ref' : UInt16}
    (honce : ReadsOnce (pre ++ ref :: (mid ++ ref' :: post)))
    (href : ref ∈ [11, 15]) (href' : ref' ∈ [11, 15]) (hne : ref ≠ ref') : counted mid = 0 := by
  obtain ⟨h10, h14, h11, h15⟩ := honce
  simp only [List.mem_append, List.mem_cons, not_or, List.count_append, List.count_cons]
    at h10 h14 h11 h15
  have hmid : mid.count 11 = 0 ∧ mid.count 15 = 0 := by
    rcases List.mem_pair.mp href with rfl | rfl <;> rcases List.mem_pair.mp href' with rfl | rfl
    · exact absurd rfl hne
    · simp at h11 h15
      omega
    · simp at h11 h15
      omega
    · exact absurd rfl hne
  rw [List.count_eq_zero, List.count_eq_zero] at hmid
  rw [counted_eq_zero]
  intro handle hmem hdesc
  simp only [reportDescs, List.mem_cons, List.not_mem_nil, or_false] at hdesc
  rcases hdesc with rfl | rfl | rfl | rfl
  · exact h10.2.2.1 hmem
  · exact hmid.1 hmem
  · exact h14.2.2.1 hmem
  · exact hmid.2 hmem

section Exchange

variable {x : Session (Hid × τ)} (h : IsHidDb x.server.serviceList) {addr : BdAddr}
  {hs : List UInt16}
include h

theorem ReadsOnce.stableRefs (honce : ReadsOnce hs) : StableRefs x addr hs where
  answered pre ref post _ href := by
    rw [h.reportId_reads addr href]
    rfl
  same pre ref mid post heq href := by
    obtain ⟨-, -, h11, h15⟩ := honce
    rw [h.refHandles_eq] at href
    rw [heq] at h11 h15
    simp only [List.count_append, List.count_cons] at h11 h15
    rcases List.mem_pair.mp href with rfl | rfl
    · simp at h11
      omega
    · simp at h15
      omega
  distinct pre ref mid ref' post heq href href' hne := by
    rw [Ne, h.reportId_eq_iff addr href href']
    rw [h.refHandles_eq] at href href'
    have hmid := ReadsOnce.counted_between (heq ▸ honce) href href' hne
    have hmem : ref ∈ reportDescs := by
      rcases List.mem_pair.mp href with rfl | rfl
      · decide
      · decide
    rw [counted_cons_of_mem hmem, hmid]
    decide
  conf pre conf post heq hconf ref href := by
    refine Eq.symm ((h.reportId_eq_iff addr href href pre [conf]).mpr ?_)
    obtain ⟨h10, h14, -, -⟩ := honce
    have hmem : conf ∈ hs := heq ▸ List.mem_append_right pre List.mem_cons_self
    rw [h.confHandles_eq] at hconf
    simp only [List.mem_cons, List.not_mem_nil, or_false] at hconf
    rcases hconf with rfl | rfl | rfl | rfl
    · rfl
    · rfl
    · exact absurd hmem h10
    · exact absurd hmem h14

/-- A client configuration of a report must not be read. -/
theorem StableRefs.not_mem_conf (hst : StableRefs x addr hs) {conf : UInt16}
    (hconf : conf ∈ confHandles x.server.serviceList) (hdesc : conf ∈ reportDescs) :
    conf ∉ hs := by
  intro hmem
  obtain ⟨pre, post, heq⟩ := List.append_of_mem hmem
  have href : (11 : UInt16) ∈ refHandles x.server.serviceList := by
    rw [h.refHandles_eq]
    decide
  have hsame := hst.conf pre conf post heq hconf 11 href
  have hcount := (h.reportId_eq_iff addr href href pre [conf]).mp hsame.symm
  rw [counted_cons_of_mem hdesc] at hcount
  exact absurd hcount (by decide)

/-- Between two reads of a reference the counter must come round. -/
theorem StableRefs.counted_between (hst : StableRefs x addr hs) {pre mid post : List UInt16}
    {ref : UInt16} (heq : hs = pre ++ ref :: (mid ++ ref :: post)) (href : ref ∈ [11, 15]) :
    counted (ref :: mid) % 256 = 0 := by
  rw [← h.refHandles_eq] at href
  exact (h.reportId_eq_iff addr href href pre (ref :: mid)).mp (hst.same pre ref mid post heq href)

/-- Of the reads that count there are at most two, and of different references: among any
three there are two of one reference, and the counter has not come round between them. -/
theorem StableRefs.counted_nodup (hst : StableRefs x addr hs) :
    (hs.filter (· ∈ reportDescs)).Nodup := by
  have hrefs : ∀ ref ∈ hs, ref ∈ reportDescs → ref ∈ ([11, 15] : List UInt16) := by
    intro ref hmem hdesc
    simp only [reportDescs, List.mem_cons, List.not_mem_nil, or_false] at hdesc
    rcases hdesc with rfl | rfl | rfl | rfl
    · exact absurd hmem (hst.not_mem_conf h (by rw [h.confHandles_eq]; decide) (by decide))
    · decide
    · exact absurd hmem (hst.not_mem_conf h (by rw [h.confHandles_eq]; decide) (by decide))
    · decide
  rcases hfirst : hs.filter (· ∈ reportDescs) with _ | ⟨a, _ | ⟨b, rest⟩⟩
  · exact List.nodup_nil
  · exact List.nodup_singleton a
  obtain ⟨pre, q, rfl, -, ha, hsecond⟩ := List.filter_eq_cons_iff.mp hfirst
  obtain ⟨mid, q', rfl, hmid, hb, hthird⟩ := List.filter_eq_cons_iff.mp hsecond
  simp only [decide_eq_true_eq] at ha hb hmid
  have hmid0 : counted mid = 0 := counted_eq_zero.mpr hmid
  have haref := hrefs a (by simp) ha
  have hbref := hrefs b (by simp) hb
  have hab : a ≠ b := by
    rintro rfl
    have hround := hst.counted_between h rfl haref
    rw [counted_cons_of_mem ha, hmid0] at hround
    exact absurd hround (by decide)
  rcases rest with _ | ⟨c, rest⟩
  · simp [hab]
  obtain ⟨mid', q'', rfl, hmid', hc, -⟩ := List.filter_eq_cons_iff.mp hthird
  simp only [decide_eq_true_eq] at hc hmid'
  have hmid0' : counted mid' = 0 := counted_eq_zero.mpr hmid'
  have hcref := hrefs c (by simp) hc
  have hca : c ≠ a := by
    rintro rfl
    have hsplit : pre ++ c :: (mid ++ b :: (mid' ++ c :: q'')) =
        pre ++ c :: ((mid ++ b :: mid') ++ c :: q'') := by simp
    have hround := hst.counted_between h hsplit haref
    rw [counted_cons_of_mem ha, counted_append, counted_cons_of_mem hb, hmid0, hmid0'] at hround
    exact absurd hround (by decide)
  have hcb : c ≠ b := by
    rintro rfl
    have hsplit : pre ++ a :: (mid ++ c :: (mid' ++ c :: q'')) =
        (pre ++ a :: mid) ++ c :: (mid' ++ c :: q'') := by simp
    have hround := hst.counted_between h hsplit hbref
    rw [counted_cons_of_mem hb, hmid0'] at hround
    exact absurd hround (by decide)
  simp only [List.mem_cons, List.not_mem_nil, or_false] at haref hbref hcref
  grind

theorem StableRefs.readsOnce (hst : StableRefs x addr hs) : ReadsOnce hs := by
  have hcount := List.nodup_iff_count_le_one.mp (hst.counted_nodup h)
  refine ⟨hst.not_mem_conf h ?_ (by decide), hst.not_mem_conf h ?_ (by decide), ?_, ?_⟩
  · rw [h.confHandles_eq]
    decide
  · rw [h.confHandles_eq]
    decide
  · have h11 := hcount 11
    rwa [List.count_filter (by decide)] at h11
  · have h15 := hcount 15
    rwa [List.count_filter (by decide)] at h15

end Exchange

/-- **The report references are stable exactly under reads that touch each of them at most
once and no client configuration of a report**, in every state of the server and whatever
else is read. -/
theorem reportRefs_stable_iff {g : GattServices (Hid × τ)} {inputs : List Input}
    {x : Session (Hid × τ)} (hinit : g.serviceList = initGattServices)
    (hrun : Runs serveStep (fun _ _ => True) g inputs x.server) (addr : BdAddr)
    (hs : List UInt16) : StableRefs x addr hs ↔ ReadsOnce hs := by
  have hdb := IsHidDb.of_runs hinit hrun
  constructor
  · intro hst
    exact hst.readsOnce hdb
  · intro honce
    exact honce.stableRefs hdb

/-- A peer that has connected, with all variables zero. -/
def reportHost : Session (Hid × Unit) where
  server := (serve (secureServer initGattServices) (.connected peerA)).1
  locals _ := ⟨.u16 0, Vector.replicate 16 0, 0⟩
  buffer _ _ := 0

theorem reportHost_runs : Runs serveStep (fun _ _ => True) (secureServer initGattServices)
    [.connected peerA] reportHost.server :=
  .snoc .refl trivial rfl

/-- A host that reads both references once, in either order, is served well. -/
theorem reportRefs_stable_once :
    StableRefs reportHost peerA [11, 15] ∧ StableRefs reportHost peerA [15, 4, 11] := by
  constructor
  · exact (reportRefs_stable_iff rfl reportHost_runs peerA _).mpr (by unfold ReadsOnce; decide)
  · exact (reportRefs_stable_iff rfl reportHost_runs peerA _).mpr (by unfold ReadsOnce; decide)

/-- A host that reads one reference twice gets the ids of both reports. -/
theorem reportRefs_change : ¬ StableRefs reportHost peerA [11, 11] ∧
    reportId reportHost peerA 11 = some 1 ∧
    reportId (reads reportHost peerA [11]) peerA 11 = some 2 := by
  have hdb := IsHidDb.of_runs rfl reportHost_runs
  have href : (11 : UInt16) ∈ refHandles reportHost.server.serviceList := by
    rw [hdb.refHandles_eq]
    decide
  have hfirst : reportId reportHost peerA 11 = some 1 := hdb.reportId_reads peerA href []
  have hsecond : reportId (reads reportHost peerA [11]) peerA 11 = some 2 :=
    hdb.reportId_reads peerA href [11]
  refine ⟨?_, hfirst, hsecond⟩
  intro hst
  have hsame := hst.same [] 11 [] [] rfl href
  rw [List.nil_append, hsecond, reads, hfirst] at hsame
  exact absurd hsame (by decide)

end CCode.Gatt
