import CCode.Ancs.Parser

/-!
# Attribute by attribute

What the two loops of the parser do with the bytes from some offset on. These bytes are too
short for the header of an attribute, or an attribute that is cut off, or a whole attribute
and more bytes; `rest_cases` says that there is nothing else, and there is one equation for
each loop and each case.

## Main definitions

* `Attr`, `Attr.bytes` — an attribute.
* `checkFrom`, `decodeFrom` — the loops, where so many bytes are behind them.
* `RespData.store` — what an attribute does to the record.
-/

namespace CCode.Ancs

open CCode.Lib

/-- An attribute of a response. Its length has sixteen bits. -/
structure Attr where
  id : UInt8
  value : List UInt8
  length_lt : value.length < 2 ^ 16

/-- An attribute in a response: `| id | len | value |`. -/
def Attr.bytes (a : Attr) : List UInt8 :=
  a.id :: (le16 (UInt16.ofNat a.value.length) ++ a.value)

@[simp] theorem Attr.length_bytes (a : Attr) : a.bytes.length = 3 + a.value.length := by
  simp [bytes]
  omega

theorem Attr.toNat_len (a : Attr) : (UInt16.ofNat a.value.length).toNat = a.value.length :=
  UInt16.toNat_ofNat_of_lt' a.length_lt

/-- The loop of `checkIntegral`, after `pre` and before `rest`. -/
def checkFrom (fuel : ℕ) (pre rest : List UInt8) : Option MsgState :=
  checkLoop (pre ++ rest) fuel pre.length rest.length

/-- The loop that decodes, after `pre` and before `rest`. -/
def decodeFrom (fuel : ℕ) (pre rest : List UInt8) (cmd : RespData) : Option (MsgState × RespData) :=
  decodeLoop (pre ++ rest) fuel pre.length rest.length cmd

/-- The record after an attribute. -/
def RespData.store (cmd : RespData) (a : Attr) : RespData :=
  match textField a.id with
  | some field =>
      { cmd with text := fun f => if f = field then stored (cmd.text field) a.value
                                  else cmd.text f }
  | none =>
      if a.id = attrIdMessage then
        { cmd with msgLen := a.value.length, message := stored cmd.message a.value }
      else cmd

/-- The attribute fits its field, if it has one. -/
def Attr.Fits (a : Attr) : Prop := ∀ cap ∈ attrCap a.id, a.value.length ≤ cap

/-! ## The cases -/

/-- The bytes of an attribute are its identifier, the two of its length, and its value. -/
theorem Attr.bytes_append (a : Attr) (post : List UInt8) :
    a.bytes ++ post = a.id :: (UInt16.ofNat a.value.length).toUInt8 ::
      (UInt16.ofNat a.value.length >>> 8).toUInt8 :: (a.value ++ post) := by
  simp [bytes, le16]

/-- **What can be behind an offset**: too little for a header, an attribute that is cut off,
or a whole attribute. -/
theorem rest_cases (rest : List UInt8) :
    rest.length < 3 ∨
      (∃ id b₀ b₁ tail, rest = id :: b₀ :: b₁ :: tail ∧ tail.length < (ofLe16 b₀ b₁).toNat) ∨
      ∃ (a : Attr) (post : List UInt8), rest = a.bytes ++ post := by
  rcases rest with _ | ⟨id, _ | ⟨b₀, _ | ⟨b₁, tail⟩⟩⟩
  · exact .inl (by simp)
  · exact .inl (by simp)
  · exact .inl (by simp)
  · by_cases hlen : tail.length < (ofLe16 b₀ b₁).toNat
    · exact .inr (.inl ⟨id, b₀, b₁, tail, rfl, hlen⟩)
    · have htake : (tail.take (ofLe16 b₀ b₁).toNat).length = (ofLe16 b₀ b₁).toNat := by
        simp
        omega
      refine .inr (.inr ⟨⟨id, tail.take (ofLe16 b₀ b₁).toNat, ?_⟩,
        tail.drop (ofLe16 b₀ b₁).toNat, ?_⟩)
      · rw [htake]
        exact (ofLe16 b₀ b₁).toNat_lt
      · obtain ⟨h₀, h₁⟩ := bytes_ofLe16 b₀ b₁
        simp only [Attr.bytes_append, htake, UInt16.ofNat_toNat, h₀, h₁, List.take_append_drop]

/-! ## `checkIntegral` -/

/-- Too little for a header. -/
theorem checkFrom_short (fuel : ℕ) (pre : List UInt8) {rest : List UInt8}
    (h : rest.length < 3) : checkFrom (fuel + 1) pre rest = some .cont := by
  have hcond : 0 ≤ (rest.length : Int) ∧ (rest.length : Int) < 3 := by omega
  rw [checkFrom, checkLoop, if_pos hcond]

/-- The head of an attribute is read, and its length. -/
theorem checkFrom_head (fuel : ℕ) (pre : List UInt8) (id b₀ b₁ : UInt8) (tail : List UInt8) :
    checkFrom (fuel + 1) pre (id :: b₀ :: b₁ :: tail) =
      match attrCap id with
      | some cap =>
          if (ofLe16 b₀ b₁).toNat > cap then some .error
          else if (ofLe16 b₀ b₁).toNat > tail.length then some .cont
          else if id = attrIdMessage then
            if tail.length = (ofLe16 b₀ b₁).toNat then some .done else some .cont
          else checkLoop (pre ++ id :: b₀ :: b₁ :: tail) fuel
            (pre.length + 3 + (ofLe16 b₀ b₁).toNat) (tail.length - (ofLe16 b₀ b₁).toNat)
      | none => checkLoop (pre ++ id :: b₀ :: b₁ :: tail) fuel
          (pre.length + 3 + (ofLe16 b₀ b₁).toNat) (tail.length - (ofLe16 b₀ b₁).toNat) := by
  have hcond : ¬ (0 ≤ ((id :: b₀ :: b₁ :: tail).length : Int) ∧
      ((id :: b₀ :: b₁ :: tail).length : Int) < 3) := by
    simp only [List.length_cons]
    omega
  have hremain : ((id :: b₀ :: b₁ :: tail).length : Int) - 3 = tail.length := by
    simp only [List.length_cons]
    omega
  have hlen : u16At (pre ++ id :: b₀ :: b₁ :: tail) (pre.length + 1) = some (ofLe16 b₀ b₁) := by
    have h := u16At_append (pre ++ [id]) b₀ b₁ tail
    simpa using h
  rw [checkFrom, checkLoop, if_neg hcond]
  simp only [u8At_append, hlen, hremain, Option.bind_eq_bind, Option.bind_some]
  cases attrCap id with
  | none => rfl
  | some cap =>
      by_cases hcap : (ofLe16 b₀ b₁).toNat > cap
      · simp only [hcap, if_true]
      · by_cases hcut : (ofLe16 b₀ b₁).toNat > tail.length
        · have hcut' : ((ofLe16 b₀ b₁).toNat : Int) > tail.length := by omega
          simp only [hcap, hcut, hcut', if_true, if_false]
        · have hcut' : ¬ ((ofLe16 b₀ b₁).toNat : Int) > tail.length := by omega
          have hend : (tail.length : Int) - (ofLe16 b₀ b₁).toNat = 0 ↔
              tail.length = (ofLe16 b₀ b₁).toNat := by omega
          have hmore : (tail.length : Int) - (ofLe16 b₀ b₁).toNat > 0 ↔
              tail.length ≠ (ofLe16 b₀ b₁).toNat := by omega
          simp only [hcap, hcut, hcut', hend, hmore, if_false]
          by_cases htail : tail.length = (ofLe16 b₀ b₁).toNat
          · simp only [htail, if_true]
          · simp only [htail, ne_eq, not_false_eq_true, if_true, if_false]

/-- Behind the end the loop reads what was not received. -/
theorem checkLoop_behind {data : List UInt8} {p : ℕ} {remainLen : Int} (hp : data.length ≤ p)
    (hremain : remainLen < 0) (fuel : ℕ) : checkLoop data fuel p remainLen = none := by
  cases fuel with
  | zero => rfl
  | succ fuel =>
      have hcond : ¬ (0 ≤ remainLen ∧ remainLen < 3) := by omega
      rw [checkLoop, if_neg hcond, u8At_eq_none hp]
      rfl

/-- An attribute that is cut off: the rest of it is awaited, unless it does not fit or the
attribute is unknown. -/
theorem checkFrom_cut (fuel : ℕ) (pre : List UInt8) {id b₀ b₁ : UInt8} {tail : List UInt8}
    (h : tail.length < (ofLe16 b₀ b₁).toNat) :
    checkFrom (fuel + 1) pre (id :: b₀ :: b₁ :: tail) =
      match attrCap id with
      | some cap => if (ofLe16 b₀ b₁).toNat > cap then some .error else some .cont
      | none => none := by
  rw [checkFrom_head]
  cases attrCap id with
  | some cap => simp only [gt_iff_lt, h, if_true]
  | none =>
      refine checkLoop_behind ?_ (by omega) fuel
      simp only [List.length_append, List.length_cons]
      omega

/-- A whole attribute: it does not fit, it is the message and ends the response or not, or
the loop goes on behind it. -/
theorem checkFrom_attr (fuel : ℕ) (pre : List UInt8) (a : Attr) (post : List UInt8) :
    checkFrom (fuel + 1) pre (a.bytes ++ post) =
      match attrCap a.id with
      | some cap =>
          if a.value.length > cap then some .error
          else if a.id = attrIdMessage then if post = [] then some .done else some .cont
          else checkFrom fuel (pre ++ a.bytes) post
      | none => checkFrom fuel (pre ++ a.bytes) post := by
  have hnext : checkLoop (pre ++ (a.bytes ++ post)) fuel (pre.length + 3 + a.value.length)
      ((a.value ++ post).length - a.value.length) = checkFrom fuel (pre ++ a.bytes) post := by
    have hp : pre.length + 3 + a.value.length = (pre ++ a.bytes).length := by
      simp only [List.length_append, Attr.length_bytes]
      omega
    have hr : ((a.value ++ post).length : Int) - a.value.length = post.length := by
      simp only [List.length_append]
      omega
    rw [checkFrom, hp, hr, List.append_assoc]
  rw [Attr.bytes_append] at hnext ⊢
  rw [checkFrom_head, ofLe16_bytes, a.toNat_len, hnext]
  cases attrCap a.id with
  | none => rfl
  | some cap =>
      have hcut : ¬ a.value.length > (a.value ++ post).length := by simp
      have hend : (a.value ++ post).length = a.value.length ↔ post = [] := by simp
      simp only [hcut, if_false, hend]

/-- The check of what has a header is that of the attributes. -/
theorem checkIntegral_header {c b₁ b₂ b₃ b₄ : UInt8} {rest : List UInt8}
    (hlen : ([c, b₁, b₂, b₃, b₄] ++ rest).length ≤ dataBufBufSize) :
    checkIntegral ([c, b₁, b₂, b₃, b₄] ++ rest) =
      if c ≠ commandIdGetNotificationAttributes then some .error
      else checkFrom (rest.length + 5) [c, b₁, b₂, b₃, b₄] rest := by
  have hcond : ¬ (([c, b₁, b₂, b₃, b₄] ++ rest).length < 5 ∨
      ([c, b₁, b₂, b₃, b₄] ++ rest).length > dataBufBufSize) := by
    simp only [List.length_append, List.length_cons, List.length_nil] at hlen ⊢
    omega
  have hcomm : u8At ([c, b₁, b₂, b₃, b₄] ++ rest) 0 = some c := rfl
  have hremain : (([c, b₁, b₂, b₃, b₄] ++ rest).length : Int) - 5 = rest.length := by
    simp only [List.length_append, List.length_cons, List.length_nil]
    omega
  have hfuel : ([c, b₁, b₂, b₃, b₄] ++ rest).length = rest.length + 5 := by
    simp only [List.length_append, List.length_cons, List.length_nil]
    omega
  rw [checkIntegral, if_neg hcond, hcomm, hremain, hfuel]
  rfl

/-! ## Decoding -/

/-- At the end the record is complete. -/
theorem decodeFrom_nil (fuel : ℕ) (pre : List UInt8) (cmd : RespData) :
    decodeFrom (fuel + 1) pre [] cmd = some (.addedNew, cmd) := by
  simp [decodeFrom, decodeLoop]

/-- The text attributes are known. -/
theorem attrCap_of_textField {id : UInt8} {field : TextField} (h : textField id = some field) :
    attrCap id = some textCap ∧ id ≠ attrIdMessage := by
  have hid : field.attrId = id := by simpa using List.find?_some h
  subst hid
  cases field <;> decide

theorem attrCap_message : attrCap attrIdMessage = some msgCap := by decide

/-- An attribute that fits is stored, and the loop goes on behind it. -/
theorem decodeFrom_attr (fuel : ℕ) (pre : List UInt8) {a : Attr} (hfits : a.Fits)
    (post : List UInt8) (cmd : RespData) :
    decodeFrom (fuel + 1) pre (a.bytes ++ post) cmd =
      decodeFrom fuel (pre ++ a.bytes) post (cmd.store a) := by
  have hpos : ((a.bytes ++ post).length : Int) > 0 := by
    simp only [List.length_append, Attr.length_bytes]
    omega
  have hid : u8At (pre ++ (a.bytes ++ post)) pre.length = some a.id := by
    rw [Attr.bytes_append, u8At_append]
  have hlen : u16At (pre ++ (a.bytes ++ post)) (pre.length + 1) =
      some (UInt16.ofNat a.value.length) := by
    have h := u16At_append (pre ++ [a.id]) (UInt16.ofNat a.value.length).toUInt8
      (UInt16.ofNat a.value.length >>> 8).toUInt8 (a.value ++ post)
    rw [ofLe16_bytes] at h
    rw [Attr.bytes_append]
    simpa using h
  have hvalue : bytesAt (pre ++ (a.bytes ++ post)) (pre.length + 3) a.value.length =
      some a.value := by
    have h := bytesAt_append (pre ++ a.bytes.take 3) a.value post
    simpa [Attr.bytes, le16] using h
  have hp : pre.length + 3 + a.value.length = (pre ++ a.bytes).length := by
    simp only [List.length_append, Attr.length_bytes]
    omega
  have hr : ((a.bytes ++ post).length : Int) - 3 - a.value.length = post.length := by
    simp only [List.length_append, Attr.length_bytes]
    omega
  have hnext : ∀ cmd, decodeLoop (pre ++ (a.bytes ++ post)) fuel (pre.length + 3 + a.value.length)
      ((a.bytes ++ post).length - 3 - a.value.length) cmd =
        decodeFrom fuel (pre ++ a.bytes) post cmd := by
    intro cmd
    rw [decodeFrom, hp, hr, List.append_assoc]
  rw [decodeFrom, decodeLoop, if_pos hpos]
  simp only [hid, hlen, Option.bind_eq_bind, Option.bind_some, a.toNat_len, hvalue, hnext]
  cases hfield : textField a.id with
  | some field =>
      have hle : a.value.length ≤ textCap := hfits _ (attrCap_of_textField hfield).1
      have hcap : ¬ a.value.length > textCap := by omega
      have hlt : a.value.length < textCap + 1 := by omega
      simp only [hcap, if_false, storeText, hlt, if_true, Option.bind_some, RespData.store, hfield]
  | none =>
      by_cases hmsg : a.id = attrIdMessage
      · have hle : a.value.length ≤ msgCap := hfits _ (by rw [hmsg]; exact attrCap_message)
        have hcap : ¬ a.value.length > msgCap := by omega
        have hlt : a.value.length < msgCap + 1 := by omega
        rw [hmsg] at hfield
        simp only [hmsg, hcap, if_true, if_false, storeText, hlt, Option.bind_some,
          RespData.store, hfield]
      · simp only [hmsg, if_false, RespData.store, hfield]

end CCode.Ancs
