import CCode.Ancs.Attributes

/-!
# Reassembly

A well-formed response has any number of text attributes and the message as its last
attribute. `checkIntegral` is asked after every fragment, and what it says of the bytes so
far depends on where they are cut: `checkFrom_part` says that every proper prefix of a
response is to be continued, wherever the cut is, and `checkFrom_whole` that the whole is
complete. So the callback is called once, and as the record was cleared when the first
fragment came, it is made of this response alone. That is `reassembly`.

## Main definitions

* `TextAttr`, `Response` — responses that respect the capacities.
* `Response.record`, `Shows` — the record, and what is to be read in it.
* `Delivers` — a response arrives in fragments.
-/

namespace CCode.Ancs

open CCode.Lib

/-! ## Responses -/

/-- A text attribute within its capacity. -/
structure TextAttr where
  field : TextField
  value : List UInt8
  le : value.length ≤ textCap

/-- The attribute in the response. -/
def TextAttr.attr (t : TextAttr) : Attr :=
  ⟨t.field.attrId, t.value, Nat.lt_of_le_of_lt t.le (by decide)⟩

/-- The value of the last attribute of a field, empty if there is none. -/
def lastText (texts : List TextAttr) (f : TextField) : List UInt8 :=
  ((texts.filter fun t => t.field = f).getLast?.map TextAttr.value).getD []

/-- A well-formed response: text attributes in any order, then the message, in a buffer's
worth of bytes. -/
structure Response where
  uid : UInt32
  texts : List TextAttr
  message : List UInt8
  message_le : message.length ≤ msgCap
  total_le : 5 + (texts.map fun t => 3 + t.value.length).sum + (3 + message.length) ≤
    dataBufBufSize

namespace Response

variable (r : Response)

/-- The message attribute. -/
def messageAttr : Attr := ⟨attrIdMessage, r.message, Nat.lt_of_le_of_lt r.message_le (by decide)⟩

/-- The command and the identifier of the notification. -/
def header : List UInt8 := commandIdGetNotificationAttributes :: le32 r.uid

/-- The attributes in the response. -/
def attrBytes : List UInt8 := r.texts.flatMap (fun t => t.attr.bytes) ++ r.messageAttr.bytes

/-- The bytes of the response. -/
def bytes : List UInt8 := r.header ++ r.attrBytes

/-- The text that a field is to show. -/
def last (f : TextField) : List UInt8 := lastText r.texts f

/-- The record that the response makes of a cleared one. -/
def record : RespData :=
  ((r.texts.map TextAttr.attr).foldl RespData.store { RespData.zero with notifUid := r.uid }).store
    r.messageAttr

end Response

/-- A field holds a text and the zero behind it. -/
def HoldsText {n : ℕ} (field : Vector UInt8 n) (value : List UInt8) : Prop :=
  field.toList.take (value.length + 1) = value ++ [0]

/-- The record shows the response. -/
structure Shows (d : RespData) (r : Response) : Prop where
  notifUid : d.notifUid = r.uid
  text : ∀ f, HoldsText (d.text f) (r.last f)
  message : HoldsText d.message r.message
  msgLen : d.msgLen = r.message.length

/-- The response arrives in fragments: none is empty, the first has the header, and comes
when the parser awaits no more of an earlier response or after a pause, and there is no
pause between the others. -/
structure Delivers (r : Response) (s : Parser) (frags : List (Timeval × List UInt8)) : Prop where
  flatten : (frags.map Prod.snd).flatten = r.bytes
  nonempty : ∀ f ∈ frags, f.2 ≠ []
  first : ∀ f ∈ frags.head?, 5 ≤ f.2.length ∧
    (s.state ≠ .cont ∨ timeDiffMs f.1 s.lastTv > maxPartsToutMs)
  gaps : frags.IsChain fun f g => timeDiffMs g.1 f.1 ≤ maxPartsToutMs

/-! ## The record -/

theorem holdsText_stored {n : ℕ} (field : Vector UInt8 n) {value : List UInt8}
    (h : value.length < n) : HoldsText (stored field value) value := by
  apply List.ext_getElem
  · simp
    omega
  · intro i h₁ h₂
    have hi : i < value.length + 1 := by simpa using h₂
    by_cases hlt : i < value.length
    · simp [stored, hlt]
    · have heq : i = value.length := by omega
      simp [stored, heq]

theorem textField_attrId (f : TextField) : textField f.attrId = some f := by
  cases f <;> decide

/-- Storing a text changes its field only. -/
theorem store_text (cmd : RespData) (t : TextAttr) :
    (cmd.store t.attr).notifUid = cmd.notifUid ∧
      ∀ f, (cmd.store t.attr).text f =
        if f = t.field then stored (cmd.text f) t.value else cmd.text f := by
  simp only [RespData.store, TextAttr.attr, textField_attrId, true_and]
  intro f
  by_cases hf : f = t.field
  · rw [if_pos hf, if_pos hf, hf]
  · rw [if_neg hf, if_neg hf]

/-- After the texts, each field holds its last value. -/
theorem foldl_store (texts : List TextAttr) (cmd : RespData)
    (hempty : ∀ f, HoldsText (cmd.text f) []) :
    let d := (texts.map TextAttr.attr).foldl RespData.store cmd
    d.notifUid = cmd.notifUid ∧ ∀ f, HoldsText (d.text f) (lastText texts f) := by
  induction texts using List.reverseRecOn with
  | nil => exact ⟨rfl, hempty⟩
  | append_singleton texts t ih =>
      obtain ⟨huid, htext⟩ := ih
      simp only [List.map_append, List.foldl_append, List.map_cons, List.map_nil,
        List.foldl_cons, List.foldl_nil]
      generalize (texts.map TextAttr.attr).foldl RespData.store cmd = d at huid htext
      obtain ⟨hsame, hstore⟩ := store_text d t
      refine ⟨hsame.trans huid, fun f => ?_⟩
      rw [hstore]
      by_cases hf : f = t.field
      · have hlast : lastText (texts ++ [t]) f = t.value := by
          simp [lastText, hf]
        rw [if_pos hf, hlast]
        exact holdsText_stored _ (Nat.lt_succ_of_le t.le)
      · have hlast : lastText (texts ++ [t]) f = lastText texts f := by
          have hne : ¬ t.field = f := fun h => hf h.symm
          simp [lastText, hne]
        rw [if_neg hf, hlast]
        exact htext f

/-- **The record shows the response.** -/
theorem shows_record (r : Response) : Shows r.record r := by
  have hzero : HoldsText (Vector.replicate (textCap + 1) 0) [] := by simp [HoldsText]
  have hmsg : textField attrIdMessage = none := by decide
  have hfold := foldl_store r.texts { RespData.zero with notifUid := r.uid } fun _ => hzero
  simp only [Response.record]
  generalize (r.texts.map TextAttr.attr).foldl RespData.store { RespData.zero with
    notifUid := r.uid } = d at hfold
  obtain ⟨huid, htext⟩ := hfold
  simp only [RespData.store, Response.messageAttr, hmsg, if_true]
  exact ⟨huid, htext, holdsText_stored _ (Nat.lt_succ_of_le r.message_le), rfl⟩

/-! ## Where a response is cut -/

/-- A known attribute within its capacity. -/
def Attr.Regular (a : Attr) : Prop := ∃ cap, attrCap a.id = some cap ∧ a.value.length ≤ cap

theorem TextAttr.regular (t : TextAttr) : t.attr.Regular :=
  ⟨textCap, (attrCap_of_textField (textField_attrId t.field)).1, t.le⟩

theorem TextAttr.attr_ne_message (t : TextAttr) : t.attr.id ≠ attrIdMessage :=
  (attrCap_of_textField (textField_attrId t.field)).2

theorem Response.regular_messageAttr (r : Response) : r.messageAttr.Regular :=
  ⟨msgCap, attrCap_message, r.message_le⟩

theorem Attr.Regular.fits {a : Attr} (h : a.Regular) : a.Fits := by
  obtain ⟨cap, hcap, hle⟩ := h
  intro c hc
  obtain rfl : cap = c := by simpa [hcap] using hc
  exact hle

/-- A cut inside a regular attribute: more is awaited. -/
theorem checkFrom_take {a : Attr} (ha : a.Regular) (fuel : ℕ) (pre : List UInt8) {k : ℕ}
    (hk : k < a.bytes.length) : checkFrom (fuel + 1) pre (a.bytes.take k) = some .cont := by
  by_cases hshort : k < 3
  · exact checkFrom_short fuel pre (by rw [List.length_take]; omega)
  · -- the header is there, the value is not
    obtain ⟨cap, hcap, hle⟩ := ha
    obtain ⟨n, rfl⟩ : ∃ n, k = n + 3 := ⟨k - 3, by omega⟩
    rw [Attr.length_bytes] at hk
    have htake : a.bytes.take (n + 3) = a.id :: (UInt16.ofNat a.value.length).toUInt8 ::
        (UInt16.ofNat a.value.length >>> 8).toUInt8 :: a.value.take n := by
      simp [Attr.bytes, le16]
    have hcut : (a.value.take n).length < (ofLe16 (UInt16.ofNat a.value.length).toUInt8
        (UInt16.ofNat a.value.length >>> 8).toUInt8).toNat := by
      rw [ofLe16_bytes, a.toNat_len, List.length_take]
      omega
    have hfit : ¬ a.value.length > cap := by omega
    rw [htake, checkFrom_cut fuel pre hcut, hcap]
    simp only [ofLe16_bytes, a.toNat_len, hfit, if_false]

/-- A regular attribute that is not the message is passed over. -/
theorem checkFrom_skip {a : Attr} (ha : a.Regular) (hmsg : a.id ≠ attrIdMessage) (fuel : ℕ)
    (pre post : List UInt8) :
    checkFrom (fuel + 1) pre (a.bytes ++ post) = checkFrom fuel (pre ++ a.bytes) post := by
  obtain ⟨cap, hcap, hle⟩ := ha
  have hfit : ¬ a.value.length > cap := by omega
  rw [checkFrom_attr, hcap]
  simp only [hfit, hmsg, if_false]

/-- A prefix of an attribute and more is cut inside the attribute or behind it. -/
theorem prefix_append_cases {q bs ws : List UInt8} (h : q <+: bs ++ ws) :
    (∃ k, k < bs.length ∧ q = bs.take k) ∨ ∃ q', q = bs ++ q' ∧ q' <+: ws := by
  obtain ⟨t, ht⟩ := h
  rcases List.append_eq_append_iff.mp ht with ⟨a, rfl, -⟩ | ⟨q', rfl, hws⟩
  · by_cases ha : a = []
    · exact .inr ⟨[], by simp [ha], List.nil_prefix⟩
    · refine .inl ⟨q.length, ?_, by simp⟩
      have hpos := List.length_pos_iff.mpr ha
      simp only [List.length_append]
      omega
  · exact .inr ⟨q', rfl, t, hws.symm⟩

/-- **Every proper prefix of the attributes is to be continued.** -/
theorem checkFrom_part {texts : List TextAttr} {m : Attr} (hm : m.Regular) {fuel : ℕ}
    {pre q : List UInt8} (hq : q <+: texts.flatMap (fun t => t.attr.bytes) ++ m.bytes)
    (hne : q ≠ texts.flatMap (fun t => t.attr.bytes) ++ m.bytes) (hfuel : q.length < fuel) :
    checkFrom fuel pre q = some .cont := by
  obtain ⟨fuel, rfl⟩ : ∃ n, fuel = n + 1 := ⟨fuel - 1, by omega⟩
  induction texts generalizing fuel pre q with
  | nil =>
      rw [List.flatMap_nil, List.nil_append] at hq hne
      have hlt : q.length < m.bytes.length :=
        Nat.lt_of_le_of_ne hq.length_le fun heq => hne (hq.eq_of_length heq)
      rw [List.prefix_iff_eq_take.mp hq]
      exact checkFrom_take hm fuel pre hlt
  | cons t texts ih =>
      rw [List.flatMap_cons, List.append_assoc] at hq hne
      rcases prefix_append_cases hq with ⟨k, hk, rfl⟩ | ⟨q', rfl, hq'⟩
      · exact checkFrom_take t.regular fuel pre hk
      · -- the loop goes on behind the attribute, with less to do
        rw [List.length_append, Attr.length_bytes] at hfuel
        obtain ⟨fuel, rfl⟩ : ∃ n, fuel = n + 1 := ⟨fuel - 1, by omega⟩
        rw [checkFrom_skip t.regular t.attr_ne_message]
        refine ih hq' ?_ fuel (by omega)
        rintro rfl
        exact hne rfl

/-- **The attributes as a whole are complete.** -/
theorem checkFrom_whole {texts : List TextAttr} {m : Attr} (hm : m.Regular)
    (hid : m.id = attrIdMessage) {fuel : ℕ} {pre : List UInt8}
    (hfuel : (texts.flatMap (fun t => t.attr.bytes) ++ m.bytes).length < fuel) :
    checkFrom fuel pre (texts.flatMap (fun t => t.attr.bytes) ++ m.bytes) = some .done := by
  obtain ⟨fuel, rfl⟩ : ∃ n, fuel = n + 1 := ⟨fuel - 1, by omega⟩
  induction texts generalizing fuel pre with
  | nil =>
      obtain ⟨cap, hcap, hle⟩ := hm
      have hfit : ¬ m.value.length > cap := by omega
      have hwhole := checkFrom_attr fuel pre m []
      rw [List.append_nil] at hwhole
      rw [List.flatMap_nil, List.nil_append, hwhole, hcap]
      simp only [hfit, hid, if_true, if_false]
  | cons t texts ih =>
      rw [List.flatMap_cons, List.append_assoc, List.length_append, Attr.length_bytes] at hfuel
      obtain ⟨fuel, rfl⟩ : ∃ n, fuel = n + 1 := ⟨fuel - 1, by omega⟩
      rw [List.flatMap_cons, List.append_assoc, checkFrom_skip t.regular t.attr_ne_message]
      exact ih fuel (by omega)

/-- **Decoding them stores them one after the other.** -/
theorem decodeFrom_whole (texts : List TextAttr) {m : Attr} (hm : m.Regular) {fuel : ℕ}
    (pre : List UInt8) (cmd : RespData)
    (hfuel : (texts.flatMap (fun t => t.attr.bytes) ++ m.bytes).length < fuel) :
    decodeFrom fuel pre (texts.flatMap (fun t => t.attr.bytes) ++ m.bytes) cmd =
      some (.addedNew, ((texts.map TextAttr.attr).foldl RespData.store cmd).store m) := by
  obtain ⟨fuel, rfl⟩ : ∃ n, fuel = n + 1 := ⟨fuel - 1, by omega⟩
  induction texts generalizing fuel pre cmd with
  | nil =>
      rw [List.flatMap_nil, List.nil_append, Attr.length_bytes] at hfuel
      obtain ⟨fuel, rfl⟩ : ∃ n, fuel = n + 1 := ⟨fuel - 1, by omega⟩
      have hstore := decodeFrom_attr (fuel + 1) pre hm.fits [] cmd
      rw [List.append_nil] at hstore
      rw [List.flatMap_nil, List.nil_append, hstore, decodeFrom_nil]
      rfl
  | cons t texts ih =>
      rw [List.flatMap_cons, List.append_assoc, List.length_append, Attr.length_bytes] at hfuel
      obtain ⟨fuel, rfl⟩ : ∃ n, fuel = n + 1 := ⟨fuel - 1, by omega⟩
      rw [List.flatMap_cons, List.append_assoc, decodeFrom_attr _ _ t.regular.fits]
      exact ih _ _ fuel (by omega)

/-! ## The fragments -/

section Fragments

variable {r : Response}

theorem Response.length_bytes (r : Response) : r.bytes.length ≤ dataBufBufSize := by
  have hsum : ∀ texts : List TextAttr, (texts.flatMap fun t => t.attr.bytes).length =
      (texts.map fun t => 3 + t.value.length).sum := by
    intro texts
    simp [List.length_flatMap, TextAttr.attr]
  have htotal := r.total_le
  have hmsg : r.messageAttr.bytes.length = 3 + r.message.length := r.messageAttr.length_bytes
  simp only [bytes, header, attrBytes, List.length_append, List.length_cons, length_le32, hsum,
    hmsg]
  omega

/-- The check of a prefix of the response that has the header. -/
theorem checkIntegral_part {q : List UInt8} (hq : r.header ++ q <+: r.bytes) :
    checkIntegral (r.header ++ q) = if r.header ++ q = r.bytes then some .done else some .cont := by
  have hq' : q <+: r.attrBytes := (List.prefix_append_right_inj r.header).mp hq
  have hcheck : checkIntegral (r.header ++ q) = checkFrom (q.length + 5) r.header q := by
    refine (checkIntegral_header (hq.length_le.trans r.length_bytes)).trans ?_
    exact if_neg (not_not_intro rfl)
  have hfuel : q.length < q.length + 5 := by omega
  rw [hcheck]
  have hiff : r.header ++ q = r.bytes ↔ q = r.attrBytes := List.append_right_inj r.header
  simp only [hiff]
  by_cases hwhole : q = r.attrBytes
  · rw [if_pos hwhole]
    subst hwhole
    exact checkFrom_whole r.regular_messageAttr rfl hfuel
  · rw [if_neg hwhole]
    exact checkFrom_part r.regular_messageAttr hq' hwhole hfuel

/-- Decoding the response makes its record. -/
theorem decode_whole (state : MsgState) (tv : Timeval) :
    decode ⟨state, r.bytes, tv, .zero⟩ =
      some (⟨.addedNew, r.bytes, tv, r.record⟩, some r.record) := by
  have hlen : r.header.length = 5 := rfl
  have hcomm : u8At r.bytes 0 = some commandIdGetNotificationAttributes := rfl
  have huid : u32At r.bytes 1 = some r.uid :=
    u32At_append [commandIdGetNotificationAttributes] r.uid r.attrBytes
  have hfuel : r.attrBytes.length < r.bytes.length := by
    rw [Response.bytes, List.length_append]
    omega
  have hloop : ∀ cmd, decodeLoop r.bytes r.bytes.length 5 (r.bytes.length - 5) cmd =
      decodeFrom r.bytes.length r.header r.attrBytes cmd := by
    intro cmd
    have hremain : (r.bytes.length : Int) - 5 = r.attrBytes.length := by
      rw [Response.bytes, List.length_append, hlen]
      omega
    rw [hremain]
    rfl
  have hwhole := decodeFrom_whole r.texts r.regular_messageAttr r.header
    { RespData.zero with notifUid := r.uid } hfuel
  simp only [decode, hcomm, huid, hloop, Option.bind_eq_bind, Option.bind_some, ne_eq, not_true,
    if_false]
  rw [show decodeFrom r.bytes.length r.header r.attrBytes { RespData.zero with
    notifUid := r.uid } = some (.addedNew, r.record) from hwhole]
  rfl

/-- A prefix with the header in it is the header and more. -/
theorem Response.exists_header_append {q : List UInt8} (hq : q <+: r.bytes) (hlen : 5 ≤ q.length) :
    ∃ q', q = r.header ++ q' := by
  rcases prefix_append_cases hq with ⟨k, hk, rfl⟩ | ⟨q', rfl, -⟩
  · have hheader : r.header.length = 5 := rfl
    rw [List.length_take] at hlen
    omega
  · exact ⟨q', rfl⟩

/-- A call that leaves the response incomplete. -/
theorem respDataAssembling_part {s : Parser} {tv : Timeval} {state : MsgState}
    {q f : List UInt8} (harrive : s.arrive tv = ⟨state, q, tv, .zero⟩)
    (hq : q ++ f <+: r.bytes) (hne : q ++ f ≠ r.bytes) (hlen : 5 ≤ (q ++ f).length) :
    respDataAssembling s tv f = some (⟨.cont, q ++ f, tv, .zero⟩, none) := by
  have hcheck : checkIntegral (q ++ f) = some .cont := by
    obtain ⟨q', hq'⟩ := r.exists_header_append hq hlen
    rw [hq'] at hq hne ⊢
    rw [checkIntegral_part hq, if_neg hne]
  rw [respDataAssembling_fit harrive (hq.length_le.trans r.length_bytes)]
  simp only [hcheck]

/-- The call that completes it. -/
theorem respDataAssembling_last {s : Parser} {tv : Timeval} {state : MsgState}
    {q f : List UInt8} (harrive : s.arrive tv = ⟨state, q, tv, .zero⟩) (hq : q ++ f = r.bytes) :
    respDataAssembling s tv f =
      some (⟨.addedNew, r.bytes, tv, r.record⟩, some r.record) := by
  have hcheck : checkIntegral r.bytes = some .done := by
    have h := checkIntegral_part (r := r) (q := r.attrBytes) (List.prefix_refl _)
    exact h.trans (if_pos rfl)
  rw [respDataAssembling_fit harrive (by rw [hq]; exact r.length_bytes)]
  simp only [hq, hcheck]
  exact decode_whole state tv

/-- The fragments from some point on, with the bytes before them in the buffer. -/
theorem feed_fragments {frags : List (Timeval × List UInt8)} {s : Parser} (state : MsgState)
    {q : List UInt8} (hfrags : frags ≠ [])
    (harrive : ∀ f ∈ frags.head?, s.arrive f.1 = ⟨state, q, f.1, .zero⟩)
    (hlen : ∀ f ∈ frags.head?, 5 ≤ (q ++ f.2).length)
    (hflatten : q ++ (frags.map Prod.snd).flatten = r.bytes)
    (hnonempty : ∀ f ∈ frags, f.2 ≠ [])
    (hgaps : frags.IsChain fun f g => timeDiffMs g.1 f.1 ≤ maxPartsToutMs) :
    ∃ s', feed s frags =
      some (s', List.replicate (frags.length - 1) none ++ [some r.record]) := by
  induction frags generalizing s state q with
  | nil => exact absurd rfl hfrags
  | cons f frags ih =>
      have hf := harrive f rfl
      cases frags with
      | nil =>
          have hlast := respDataAssembling_last hf (by simpa using hflatten)
          exact ⟨⟨.addedNew, r.bytes, f.1, r.record⟩, by simp [feed, hlast]⟩
      | cons g frags =>
          -- the buffer has this fragment now, and there are more
          have hsplit : (q ++ f.2) ++ ((g :: frags).map Prod.snd).flatten = r.bytes := by
            simpa using hflatten
          have hne : q ++ f.2 ≠ r.bytes := by
            intro heq
            have hnil := List.append_cancel_left
              (hsplit.trans (heq.symm.trans (List.append_nil _).symm))
            have hg := hnonempty g (by simp)
            simp [hg] at hnil
          have hpart := respDataAssembling_part hf ⟨_, hsplit⟩ hne (hlen f rfl)
          rw [List.isChain_cons_cons] at hgaps
          have hnext : ∀ h ∈ (g :: frags).head?, Parser.arrive ⟨.cont, q ++ f.2, f.1, .zero⟩ h.1 =
              ⟨.cont, q ++ f.2, h.1, .zero⟩ := by
            intro h hh
            obtain rfl : g = h := by simpa using hh
            have hnew : ¬ (MsgState.cont ≠ .cont ∨ timeDiffMs g.1 f.1 > maxPartsToutMs) := by
              simp only [ne_eq, not_true, false_or]
              omega
            rw [Parser.arrive, if_neg hnew]
          obtain ⟨s', hs'⟩ := ih .cont (by simp) hnext (fun h _ => by
              have h5 := hlen f rfl
              rw [List.length_append]
              omega) hsplit (fun h hh => hnonempty h (List.mem_cons_of_mem _ hh)) hgaps.2
          refine ⟨s', ?_⟩
          rw [feed_cons hpart, hs']
          simp [List.replicate_succ]

/-- **Reassembly.** The record of a response shows it. And whatever the parser has done
before, if the response arrives in fragments, the callback is called once, at the last of
them, and with that record. -/
theorem reassembly (r : Response) :
    Shows r.record r ∧ ∀ (s : Parser) (frags : List (Timeval × List UInt8)), Delivers r s frags →
      ∃ s', feed s frags =
        some (s', List.replicate (frags.length - 1) none ++ [some r.record]) := by
  refine ⟨shows_record r, fun s frags h => ?_⟩
  have hne : frags ≠ [] := by
    rintro rfl
    exact absurd h.flatten (by simp [Response.bytes, Response.header])
  refine feed_fragments .addedNew (q := []) hne ?_ ?_ h.flatten h.nonempty h.gaps
  · intro f hf
    rw [Parser.arrive, if_pos (h.first f hf).2]
  · intro f hf
    exact (h.first f hf).1

end Fragments

/-- A notification with a title and a message, in two fragments that are cut inside the
header of the title. -/
def hello : Response := ⟨7, [⟨.title, [72, 105], by decide⟩], [33], by decide, by decide⟩

def helloFrags : List (Timeval × List UInt8) :=
  [(⟨10, 0⟩, hello.bytes.take 6), (⟨11, 500000⟩, hello.bytes.drop 6)]

theorem reassembly_hello :
    Delivers hello Parser.init helloFrags ∧
      ∃ s', feed Parser.init helloFrags = some (s', [none, some hello.record]) := by
  have hdelivers : Delivers hello Parser.init helloFrags := by
    refine ⟨by decide, by decide, ?_, ?_⟩
    · intro f hf
      obtain rfl : helloFrags.head (by decide) = f := by simpa [helloFrags] using hf
      exact ⟨by decide, .inl (by decide)⟩
    · simp only [helloFrags, List.isChain_cons_cons, List.isChain_singleton, and_true]
      decide
  exact ⟨hdelivers, (reassembly hello).2 Parser.init helloFrags hdelivers⟩

end CCode.Ancs
