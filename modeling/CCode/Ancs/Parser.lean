import CCode.Lib.Checked

/-!
# The parser of attribute responses

`AncsParser.c`: a response of the notification center arrives in fragments.
`resp_data_assembling` appends each fragment to a static buffer, asks `checkIntegral`
whether the bytes so far are a whole response, and if so decodes them into a static record
for its callback. A message starts anew after a complete one, after an error, and after a
pause.

The buffer is the list of the bytes received so far. Every read of it and every write into
a field of the record is checked, and a call is `none` where one of them is out of bounds,
or where the length of the fragment makes an `int` overflow. What such a call does is for
the machine to say and not for the source.

## Main definitions

* `checkIntegral`, `timeDiffMs`, `decode` — the parts.
* `respDataAssembling` — a call, with what it hands to its callback.
* `feed` — one call after the other.
-/

namespace CCode.Ancs

open CCode.Lib

/-! ## Constants -/

/-- `DATA_BUF_BUF_SIZE`. -/
abbrev dataBufBufSize : ℕ := 1024
/-- `MSG_CAP`. -/
abbrev msgCap : ℕ := 511
/-- `MSG_SIZE_CAP`. -/
abbrev msgSizeCap : ℕ := 7
/-- `APPID_CAP`, `TITLE_CAP`, `SUBTITLE_CAP` and `DATE_CAP`, which are all the same. -/
abbrev textCap : ℕ := 31
/-- `MAX_PARTS_TOUT_MS`. -/
abbrev maxPartsToutMs : Int := 2000

/-- `COMMANDID_GETNOTIFICATION_ATTRIBUITES`. -/
abbrev commandIdGetNotificationAttributes : UInt8 := 0

/-- `NOTIFICATION_ATTRIBUITE_ID_MESSAGE`. -/
abbrev attrIdMessage : UInt8 := 3
/-- `NOTIFICATION_ATTRIBUITE_ID_MESSAGESIZE`. -/
abbrev attrIdMessageSize : UInt8 := 4

/-- The fields of the record that are short texts. -/
inductive TextField
  | appId | title | subtitle | date
  deriving DecidableEq, Repr

/-- `NOTIFICATION_ATTRIBUITE_ID_APPIDENTIFIER` and so on. -/
def TextField.attrId : TextField → UInt8
  | .appId => 0
  | .title => 1
  | .subtitle => 2
  | .date => 5

/-- The field of an attribute. -/
def textField (attrId : UInt8) : Option TextField :=
  [TextField.appId, .title, .subtitle, .date].find? fun f => f.attrId = attrId

/-- The capacity that `checkIntegral` has for an attribute, `none` for the attributes it
does not know. -/
def attrCap (attrId : UInt8) : Option ℕ :=
  if attrId = attrIdMessage then some msgCap
  else if attrId = attrIdMessageSize then some msgSizeCap
  else (textField attrId).map fun _ => textCap

/-! ## Records -/

/-- `STATE_DATA_ADDED_NEW`, `STATE_DATA_CONTINUE`, `STATE_DATA_DONE`,
`STATE_DATA_ERROR`. -/
inductive MsgState
  | addedNew | cont | done | error
  deriving DecidableEq, Repr

/-- `struct timeval`. -/
structure Timeval where
  tvSec : Int
  tvUsec : Int

/-- `resp_data_t`. -/
structure RespData where
  notifUid : UInt32
  text : TextField → Vector UInt8 (textCap + 1)
  message : Vector UInt8 (msgCap + 1)
  msgLen : ℕ

/-- The record after `memset`. -/
def RespData.zero : RespData where
  notifUid := 0
  text := fun _ => Vector.replicate _ 0
  message := Vector.replicate _ 0
  msgLen := 0

/-- The static data of the parser: `notifMsg`, `last_tv` and `getNotifCmd`. -/
structure Parser where
  state : MsgState
  buf : List UInt8
  lastTv : Timeval
  getNotifCmd : RespData

/-- The static data when the program starts. -/
def Parser.init : Parser := ⟨.addedNew, [], ⟨0, 0⟩, .zero⟩

/-! ## The functions -/

/-- A `long` converted to an `int`. -/
def toInt32 (x : Int) : Int := x.bmod (2 ^ 32)

/-- `timeDiffMs`. -/
def timeDiffMs (new old : Timeval) : Int :=
  if new.tvSec - old.tvSec > 0xFFFF then 0xFFFF
  else
    let res := toInt32 ((new.tvSec - old.tvSec) * 1000)
    toInt32 (res + (new.tvUsec - old.tvUsec).tdiv 1000)

/-- The loop of `checkIntegral` from the offset `p`. The comparison at its head is one of
unsigned numbers, so a negative `remain_len` passes it. -/
def checkLoop (data : List UInt8) : ℕ → ℕ → Int → Option MsgState
  | 0, _, _ => none
  | fuel + 1, p, remainLen =>
      if 0 ≤ remainLen ∧ remainLen < 3 then some .cont
      else do
        let attrId ← u8At data p
        let attrLen := (← u16At data (p + 1)).toNat
        let p := p + 3
        let remainLen := remainLen - 3
        match attrCap attrId with
        | some cap =>
            if attrLen > cap then some .error
            else if (attrLen : Int) > remainLen then some .cont
            else if attrId = attrIdMessage then
              if remainLen - attrLen = 0 then some .done
              else if remainLen - attrLen > 0 then some .cont
              else some .error
            else checkLoop data fuel (p + attrLen) (remainLen - attrLen)
        | none => checkLoop data fuel (p + attrLen) (remainLen - attrLen)

/-- `checkIntegral`. An iteration takes three bytes or more, so their number bounds that of
the iterations. -/
def checkIntegral (data : List UInt8) : Option MsgState :=
  if data.length < 5 ∨ data.length > dataBufBufSize then some .error
  else do
    let commId ← u8At data 0
    if commId ≠ commandIdGetNotificationAttributes then some .error
    else checkLoop data data.length 5 (data.length - 5)

/-- A field with a value and the zero behind it over what it held. -/
def stored {n : ℕ} (field : Vector UInt8 n) (value : List UInt8) : Vector UInt8 n :=
  Vector.ofFn fun i =>
    if i.val < value.length then value.getD i 0
    else if i.val = value.length then 0
    else field[i]

/-- `STREAM_TO_ARRAY` into a field and the assignment of the zero. -/
def storeText {n : ℕ} (field : Vector UInt8 n) (value : List UInt8) : Option (Vector UInt8 n) :=
  if value.length < n then some (stored field value) else none

/-- The loop of `resp_data_assembling` that decodes the attributes. -/
def decodeLoop (data : List UInt8) : ℕ → ℕ → Int → RespData → Option (MsgState × RespData)
  | 0, _, _, _ => none
  | fuel + 1, p, remainLen, cmd =>
      if remainLen > 0 then do
        let attrId ← u8At data p
        let attrLen := (← u16At data (p + 1)).toNat
        let p := p + 3
        let remainLen := remainLen - 3
        match textField attrId with
        | some field =>
            if attrLen > textCap then some (.error, cmd)
            else do
              let value ← bytesAt data p attrLen
              let text ← storeText (cmd.text field) value
              decodeLoop data fuel (p + attrLen) (remainLen - attrLen)
                { cmd with text := fun f => if f = field then text else cmd.text f }
        | none =>
            if attrId = attrIdMessage then
              if attrLen > msgCap then some (.error, cmd)
              else do
                let value ← bytesAt data p attrLen
                let message ← storeText cmd.message value
                decodeLoop data fuel (p + attrLen) (remainLen - attrLen)
                  { cmd with msgLen := attrLen, message }
            else decodeLoop data fuel (p + attrLen) (remainLen - attrLen) cmd
      else if remainLen = 0 then some (.addedNew, cmd)
      else some (.error, cmd)

/-- The second half of `resp_data_assembling`, on a whole response: the state, the record,
and what the callback gets. -/
def decode (s : Parser) : Option (Parser × Option RespData) := do
  let commId ← u8At s.buf 0
  if commId ≠ commandIdGetNotificationAttributes then some ({ s with state := .error }, none)
  else
    let uid ← u32At s.buf 1
    let (state, cmd) ← decodeLoop s.buf s.buf.length 5 (s.buf.length - 5)
      { s.getNotifCmd with notifUid := uid }
    some ({ s with state, getNotifCmd := cmd }, if state = .addedNew then some cmd else none)

/-- The static data at the start of a call: a new notification starts anew. -/
def Parser.arrive (s : Parser) (newTv : Timeval) : Parser :=
  if s.state ≠ .cont ∨ timeDiffMs newTv s.lastTv > maxPartsToutMs then
    ⟨.addedNew, [], newTv, .zero⟩
  else { s with lastTv := newTv }

/-- `resp_data_assembling`, with what the callback gets if it is called. -/
def respDataAssembling (s : Parser) (newTv : Timeval) (srcData : List UInt8) :
    Option (Parser × Option RespData) :=
  let s := s.arrive newTv
  if 2 ^ 31 ≤ s.buf.length + srcData.length then none
  else if s.buf.length + srcData.length > dataBufBufSize then
    some ({ s with state := .error }, none)
  else
    let s := { s with buf := s.buf ++ srcData }
    match checkIntegral s.buf with
    | none => none
    | some .cont => some ({ s with state := .cont }, none)
    | some .error => some ({ s with state := .error }, none)
    | some .done | some .addedNew => decode s

/-- The fragments one after the other, with what the callback gets at each. -/
def feed (s : Parser) : List (Timeval × List UInt8) → Option (Parser × List (Option RespData))
  | [] => some (s, [])
  | (tv, srcData) :: rest => do
      let (s, out) ← respDataAssembling s tv srcData
      let (s, outs) ← feed s rest
      some (s, out :: outs)

/-- A call with bytes that fit the buffer. -/
theorem respDataAssembling_fit {s s₀ : Parser} {tv : Timeval} {f : List UInt8}
    (harrive : s.arrive tv = s₀) (hlen : (s₀.buf ++ f).length ≤ dataBufBufSize) :
    respDataAssembling s tv f =
      match checkIntegral (s₀.buf ++ f) with
      | none => none
      | some .cont => some ({ s₀ with buf := s₀.buf ++ f, state := .cont }, none)
      | some .error => some ({ s₀ with buf := s₀.buf ++ f, state := .error }, none)
      | some .done | some .addedNew => decode { s₀ with buf := s₀.buf ++ f } := by
  rw [List.length_append] at hlen
  have hle : ¬ s₀.buf.length + f.length > dataBufBufSize := by omega
  have hint : ¬ 2 ^ 31 ≤ s₀.buf.length + f.length := by
    simp only [dataBufBufSize] at hlen
    omega
  simp only [respDataAssembling, harrive, hint, hle, if_false]

/-- What comes of the fragments after one that is taken. -/
theorem feed_cons {s s' : Parser} {f : Timeval × List UInt8} {out : Option RespData}
    (h : respDataAssembling s f.1 f.2 = some (s', out)) (frags : List (Timeval × List UInt8)) :
    feed s (f :: frags) = (feed s' frags).map fun r => (r.1, out :: r.2) := by
  simp only [feed, h, Option.bind_eq_bind, Option.bind_some]
  cases feed s' frags <;> rfl

end CCode.Ancs
