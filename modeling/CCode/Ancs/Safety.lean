import CCode.Ancs.Attributes

/-!
# Memory safety of the parser

`checkIntegral` checks the length of every attribute it knows against what is left, but
passes over the others unchecked. An attribute with another identifier and a length beyond
the end leaves a negative `remain_len`, which the comparison of unsigned numbers at the head
of the loop lets through, and the loop goes on with whatever lies behind the received bytes.

`feed_isSome_iff` says that this, and a fragment whose length makes an `int` overflow, is
all that can go wrong: every other sequence of fragments is handled in finitely many steps
that read received bytes only and write into the fields of the record only.

## Main definitions

* `Overruns` — an unknown attribute runs over the end.
* `SafeCall`, `SafeCalls` — the calls that stay in bounds.
-/

namespace CCode.Ancs

open CCode.Lib

/-- Behind attributes that the check passes over there is one it does not know, with a
length beyond the end. -/
inductive Overruns : List UInt8 → Prop
  | here {id b₀ b₁ : UInt8} {tail : List UInt8} :
      attrCap id = none → tail.length < (ofLe16 b₀ b₁).toNat →
      Overruns (id :: b₀ :: b₁ :: tail)
  | skip {a : Attr} {post : List UInt8} :
      a.Fits → a.id ≠ attrIdMessage → Overruns post → Overruns (a.bytes ++ post)

/-- What the buffer is when the fragment has arrived. -/
def Parser.received (s : Parser) (tv : Timeval) (srcData : List UInt8) : List UInt8 :=
  (s.arrive tv).buf ++ srcData

/-- The call stays in bounds: the length does not overflow, and if the bytes fit the buffer
and are checked, no unknown attribute among them runs over their end. -/
def SafeCall (s : Parser) (tv : Timeval) (srcData : List UInt8) : Prop :=
  (s.received tv srcData).length < 2 ^ 31 ∧
    ¬ (5 ≤ (s.received tv srcData).length ∧ (s.received tv srcData).length ≤ dataBufBufSize ∧
      (s.received tv srcData).head? = some commandIdGetNotificationAttributes ∧
      Overruns ((s.received tv srcData).drop 5))

/-- Every call of a sequence does, in the state that the calls before it have left. -/
def SafeCalls (s : Parser) : List (Timeval × List UInt8) → Prop
  | [] => True
  | (tv, srcData) :: rest =>
      SafeCall s tv srcData ∧
        ∀ s' out, respDataAssembling s tv srcData = some (s', out) → SafeCalls s' rest

/-! ## The loops -/

/-- **What an iteration of the loop of `checkIntegral` does**: it returns, it sees an unknown
attribute that runs over the end, it has reached the end with the message, or it goes on
behind an attribute. -/
theorem checkFrom_step (fuel : ℕ) (pre rest : List UInt8) :
    (checkFrom (fuel + 1) pre rest = some .cont ∨ checkFrom (fuel + 1) pre rest = some .error) ∨
    (∃ id b₀ b₁ tail, rest = id :: b₀ :: b₁ :: tail ∧ attrCap id = none ∧
      tail.length < (ofLe16 b₀ b₁).toNat ∧ checkFrom (fuel + 1) pre rest = none) ∨
    (∃ a : Attr, rest = a.bytes ++ [] ∧ a.Fits ∧ checkFrom (fuel + 1) pre rest = some .done) ∨
    ∃ (a : Attr) (post : List UInt8), rest = a.bytes ++ post ∧ a.Fits ∧ a.id ≠ attrIdMessage ∧
      checkFrom (fuel + 1) pre rest = checkFrom fuel (pre ++ a.bytes) post := by
  rcases rest_cases rest with hshort | ⟨id, b₀, b₁, tail, rfl, hcut⟩ | ⟨a, post, rfl⟩
  · exact .inl (.inl (checkFrom_short fuel pre hshort))
  · rw [checkFrom_cut fuel pre hcut]
    cases hcap : attrCap id with
    | none => exact .inr (.inl ⟨id, b₀, b₁, tail, rfl, hcap, hcut, rfl⟩)
    | some cap =>
        by_cases hbig : (ofLe16 b₀ b₁).toNat > cap
        · exact .inl (.inr (if_pos hbig))
        · exact .inl (.inl (if_neg hbig))
  · rw [checkFrom_attr]
    cases hcap : attrCap a.id with
    | none =>
        refine .inr (.inr (.inr ⟨a, post, rfl, ?_, ?_, rfl⟩))
        · intro cap hc
          simp [hcap] at hc
        · intro hmsg
          rw [hmsg, attrCap_message] at hcap
          cases hcap
    | some cap =>
        by_cases hbig : a.value.length > cap
        · exact .inl (.inr (if_pos hbig))
        · have hfits : a.Fits := by
            intro c hc
            obtain rfl : cap = c := by simpa [hcap] using hc
            omega
          simp only [hbig, if_false]
          by_cases hmsg : a.id = attrIdMessage
          · by_cases hpost : post = []
            · exact .inr (.inr (.inl ⟨a, by rw [hpost], hfits, by rw [if_pos hmsg, if_pos hpost]⟩))
            · exact .inl (.inl (by rw [if_pos hmsg, if_neg hpost]))
          · exact .inr (.inr (.inr ⟨a, post, rfl, hfits, hmsg, if_neg hmsg⟩))

/-- **The loop of `checkIntegral` leaves the received bytes exactly if an unknown attribute
runs over their end.** -/
theorem checkFrom_eq_none_iff {fuel : ℕ} {pre rest : List UInt8} (hfuel : rest.length < fuel) :
    checkFrom fuel pre rest = none ↔ Overruns rest := by
  constructor
  · intro h
    induction fuel generalizing pre rest with
    | zero => omega
    | succ fuel ih =>
        rcases checkFrom_step fuel pre rest with (hret | hret) |
          ⟨id, b₀, b₁, tail, rfl, hcap, hcut, -⟩ | ⟨a, -, -, hdone⟩ |
          ⟨a, post, rfl, hfits, hmsg, hnext⟩
        · simp [hret] at h
        · simp [hret] at h
        · exact .here hcap hcut
        · simp [hdone] at h
        · rw [List.length_append, Attr.length_bytes] at hfuel
          exact .skip hfits hmsg (ih (by omega) (hnext.symm.trans h))
  · intro h
    induction h generalizing fuel pre with
    | here hcap hcut =>
        obtain ⟨fuel, rfl⟩ : ∃ n, fuel = n + 1 := ⟨fuel - 1, by omega⟩
        rw [checkFrom_cut fuel pre hcut, hcap]
    | @skip a post hfits hmsg _ ih =>
        rw [List.length_append, Attr.length_bytes] at hfuel
        obtain ⟨fuel, rfl⟩ : ∃ n, fuel = n + 1 := ⟨fuel - 1, by omega⟩
        have hnext := @ih fuel (pre ++ a.bytes) (by omega)
        rw [checkFrom_attr]
        cases hcap : attrCap a.id with
        | none => exact hnext
        | some cap =>
            have hfit : ¬ a.value.length > cap := Nat.not_lt.mpr (hfits cap hcap)
            simp only [hfit, hmsg, if_false]
            exact hnext

/-- What is complete is decoded without leaving the buffer or a field. -/
theorem decodeFrom_of_done {fuel : ℕ} {pre rest : List UInt8} (hfuel : rest.length < fuel)
    (h : checkFrom fuel pre rest = some .done) (cmd : RespData) :
    ∃ cmd', decodeFrom fuel pre rest cmd = some (.addedNew, cmd') := by
  induction fuel generalizing pre rest cmd with
  | zero => omega
  | succ fuel ih =>
      rcases checkFrom_step fuel pre rest with (hret | hret) |
        ⟨id, b₀, b₁, tail, rfl, -, -, hnone⟩ | ⟨a, rfl, hfits, -⟩ | ⟨a, post, rfl, hfits, -, hnext⟩
      · simp [hret] at h
      · simp [hret] at h
      · simp [hnone] at h
      · rw [List.append_nil, Attr.length_bytes] at hfuel
        obtain ⟨fuel, rfl⟩ : ∃ n, fuel = n + 1 := ⟨fuel - 1, by omega⟩
        rw [decodeFrom_attr (fuel + 1) pre hfits, decodeFrom_nil]
        exact ⟨_, rfl⟩
      · rw [List.length_append, Attr.length_bytes] at hfuel
        rw [decodeFrom_attr fuel pre hfits]
        exact ih (by omega) (hnext.symm.trans h) _

/-- The loop has no other results. -/
theorem checkFrom_ne_addedNew (fuel : ℕ) (pre rest : List UInt8) :
    checkFrom fuel pre rest ≠ some .addedNew := by
  induction fuel generalizing pre rest with
  | zero => simp [checkFrom, checkLoop]
  | succ fuel ih =>
      rcases checkFrom_step fuel pre rest with (hret | hret) |
        ⟨id, b₀, b₁, tail, -, -, -, hnone⟩ | ⟨a, -, -, hdone⟩ | ⟨a, post, -, -, -, hnext⟩
      · simp [hret]
      · simp [hret]
      · simp [hnone]
      · simp [hdone]
      · rw [hnext]
        exact ih _ _

/-! ## A call -/

/-- A response that is long enough is a header and attributes. -/
theorem exists_header {data : List UInt8} (h : 5 ≤ data.length) :
    ∃ b₀ b₁ b₂ b₃ b₄ rest, data = [b₀, b₁, b₂, b₃, b₄] ++ rest ∧ data.drop 5 = rest := by
  rcases data with _ | ⟨b₀, _ | ⟨b₁, _ | ⟨b₂, _ | ⟨b₃, _ | ⟨b₄, rest⟩⟩⟩⟩⟩
  case cons.cons.cons.cons.cons => exact ⟨b₀, b₁, b₂, b₃, b₄, rest, rfl, rfl⟩
  all_goals exact absurd h (by simp)

/-- The check of what fits the buffer leaves it exactly if an unknown attribute does. -/
theorem checkIntegral_eq_none_iff {data : List UInt8} (hlen : data.length ≤ dataBufBufSize) :
    checkIntegral data = none ↔
      5 ≤ data.length ∧ data.head? = some commandIdGetNotificationAttributes ∧
        Overruns (data.drop 5) := by
  by_cases hshort : 5 ≤ data.length
  · obtain ⟨c, b₁, b₂, b₃, b₄, rest, rfl, hdrop⟩ := exists_header hshort
    rw [hdrop, checkIntegral_header hlen]
    by_cases hc : c = commandIdGetNotificationAttributes
    · have hloop := @checkFrom_eq_none_iff (rest.length + 5) [c, b₁, b₂, b₃, b₄] rest (by omega)
      rw [if_neg (not_not_intro hc), hloop]
      simp [hc]
    · rw [if_pos hc]
      simp [hc]
  · have hcheck : checkIntegral data = some .error := by
      rw [checkIntegral, if_pos (.inl (Nat.lt_of_not_le hshort))]
    simp [hcheck, hshort]

/-- What the check says is complete has a header and attributes that the loop decodes. -/
theorem decodeLoop_of_done {data : List UInt8} (h : checkIntegral data = some .done) :
    u8At data 0 = some commandIdGetNotificationAttributes ∧ ∃ uid, u32At data 1 = some uid ∧
      ∀ cmd, ∃ cmd', decodeLoop data data.length 5 (data.length - 5) cmd =
        some (.addedNew, cmd') := by
  have hlen : ¬ (data.length < 5 ∨ data.length > dataBufBufSize) := by
    intro hcond
    rw [checkIntegral, if_pos hcond] at h
    cases h
  have hlong : 5 ≤ data.length := by omega
  obtain ⟨c, b₁, b₂, b₃, b₄, rest, rfl, -⟩ := exists_header hlong
  rw [checkIntegral_header (by omega)] at h
  by_cases hc : c = commandIdGetNotificationAttributes
  · rw [if_neg (not_not_intro hc)] at h
    refine ⟨congrArg some hc, ofLe32 b₁ b₂ b₃ b₄, rfl, ?_⟩
    intro cmd
    have hremain : (([c, b₁, b₂, b₃, b₄] ++ rest).length : Int) - 5 = rest.length := by
      simp only [List.length_append, List.length_cons, List.length_nil]
      omega
    have hfuel : ([c, b₁, b₂, b₃, b₄] ++ rest).length = rest.length + 5 := by
      simp only [List.length_append, List.length_cons, List.length_nil]
      omega
    rw [hremain, hfuel]
    exact decodeFrom_of_done (by omega) h cmd
  · rw [if_pos hc] at h
    cases h

/-- What the check says is complete is decoded. -/
theorem decode_of_done {s : Parser} (h : checkIntegral s.buf = some .done) : (decode s).isSome := by
  obtain ⟨hcomm, uid, huid, hloop⟩ := decodeLoop_of_done h
  obtain ⟨cmd, hcmd⟩ := hloop { s.getNotifCmd with notifUid := uid }
  simp [decode, hcomm, huid, hcmd]

/-- The check never says that a notification is new. -/
theorem checkIntegral_ne_addedNew (data : List UInt8) : checkIntegral data ≠ some .addedNew := by
  by_cases hshort : data.length < 5 ∨ data.length > dataBufBufSize
  · rw [checkIntegral, if_pos hshort]
    simp
  · have hlong : 5 ≤ data.length := by omega
    obtain ⟨c, b₁, b₂, b₃, b₄, rest, rfl, -⟩ := exists_header hlong
    rw [checkIntegral_header (by omega)]
    split
    · simp
    · exact checkFrom_ne_addedNew _ _ _

/-- With bytes that fit the buffer, a call stays in bounds exactly if the check does. -/
theorem respDataAssembling_isSome_of_fit {s : Parser} {tv : Timeval} {srcData : List UInt8}
    (hfit : (s.received tv srcData).length ≤ dataBufBufSize) :
    (respDataAssembling s tv srcData).isSome ↔ checkIntegral (s.received tv srcData) ≠ none := by
  rw [Parser.received] at hfit ⊢
  rw [respDataAssembling_fit rfl hfit]
  cases hcheck : checkIntegral ((s.arrive tv).buf ++ srcData) with
  | none => simp
  | some res =>
      cases res with
      | cont => simp
      | error => simp
      | addedNew => exact absurd hcheck (checkIntegral_ne_addedNew _)
      | done =>
          have hdecode := decode_of_done
            (s := { s.arrive tv with buf := (s.arrive tv).buf ++ srcData }) hcheck
          simpa using hdecode

/-- **A call stays in bounds exactly if it is safe.** -/
theorem respDataAssembling_isSome_iff (s : Parser) (tv : Timeval) (srcData : List UInt8) :
    (respDataAssembling s tv srcData).isSome ↔ SafeCall s tv srcData := by
  have hlen : (s.received tv srcData).length = (s.arrive tv).buf.length + srcData.length :=
    List.length_append
  by_cases hint : (s.received tv srcData).length < 2 ^ 31
  · by_cases hfit : (s.received tv srcData).length ≤ dataBufBufSize
    · rw [respDataAssembling_isSome_of_fit hfit, ne_eq, checkIntegral_eq_none_iff hfit, SafeCall]
      tauto
    · have hint' : ¬ 2 ^ 31 ≤ (s.arrive tv).buf.length + srcData.length := by omega
      have hover : (s.arrive tv).buf.length + srcData.length > dataBufBufSize := by omega
      have hsafe : SafeCall s tv srcData := ⟨hint, fun h => hfit h.2.1⟩
      simp only [respDataAssembling, hint', hover, hsafe, if_true, if_false, Option.isSome_some]
  · have hint' : 2 ^ 31 ≤ (s.arrive tv).buf.length + srcData.length := by omega
    have hunsafe : ¬ SafeCall s tv srcData := fun h => hint h.1
    simp only [respDataAssembling, hint', hunsafe, if_true, Option.isSome_none, Bool.false_eq_true]

/-! ## The calls -/

/-- **Memory safety.** The parser handles a sequence of fragments, whatever they are and
whenever they arrive, in finitely many steps and without an access out of bounds exactly if
every call is safe in the state it meets. -/
theorem feed_isSome_iff (s : Parser) (frags : List (Timeval × List UInt8)) :
    (feed s frags).isSome ↔ SafeCalls s frags := by
  induction frags generalizing s with
  | nil => simp [feed, SafeCalls]
  | cons f frags ih =>
      obtain ⟨tv, srcData⟩ := f
      have hsafe := respDataAssembling_isSome_iff s tv srcData
      cases hcall : respDataAssembling s tv srcData with
      | none =>
          rw [hcall] at hsafe
          have hunsafe : ¬ SafeCall s tv srcData := fun h => by simpa using hsafe.mpr h
          simp [feed, hcall, SafeCalls, hunsafe]
      | some r =>
          obtain ⟨s', out⟩ := r
          rw [hcall] at hsafe
          have hsafe' : SafeCall s tv srcData := hsafe.mp rfl
          have hrest : (∀ s'' out', some (s', out) = some (s'', out') → SafeCalls s'' frags) ↔
              SafeCalls s' frags := by
            refine ⟨fun h => h s' out rfl, fun h s'' out' heq => ?_⟩
            cases heq
            exact h
          rw [feed_cons (f := (tv, srcData)) hcall, Option.isSome_map, ih, SafeCalls, hcall, hrest]
          exact (and_iff_right hsafe').symm

/-- A first fragment with a positive action label, which the check does not know, of 65535
bytes of which none has come. -/
theorem respDataAssembling_overrun :
    ¬ (feed Parser.init [(⟨10, 0⟩, [0, 1, 0, 0, 0, 6, 0xFF, 0xFF])]).isSome := by
  decide

end CCode.Ancs
