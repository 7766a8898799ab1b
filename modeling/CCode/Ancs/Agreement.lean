import CCode.Ancs.Reassembly
import CCode.Ancs.Safety

/-!
# The check and the decoder

`checkIntegral` and the loop that decodes walk over the same bytes with separate code. What the
check calls complete, the loop decodes to the last byte.

Here memory does not end with the received bytes: the check is one that reads on behind them,
as it does behind an unknown attribute that runs over the end. From there on what is left is
negative, and it never says again that the response is complete.

## Main definitions

* `checkIntegralMem` — the check, on memory.
* `decodeStop` — the loop that decodes, with the place where it stops.
-/

namespace CCode.Ancs

open CCode.Lib

/-- The loop of `checkIntegral`, on memory. -/
def checkLoopMem (data : Mem) : ℕ → ℕ → Int → Option MsgState
  | 0, _, _ => none
  | fuel + 1, p, remainLen =>
      if 0 ≤ remainLen ∧ remainLen < 3 then some .cont
      else
        let attrId := data p
        let attrLen := (data.u16 (p + 1)).toNat
        let p := p + 3
        let remainLen := remainLen - 3
        match attrCap attrId with
        | some cap =>
            if attrLen > cap then some .error
            else if (attrLen : Int) > remainLen then some .cont
            else if attrId = attrIdMessage then
              if remainLen - attrLen = 0 then some .done
              else if remainLen - attrLen > 0 then some .cont
              else some .error
            else checkLoopMem data fuel (p + attrLen) (remainLen - attrLen)
        | none => checkLoopMem data fuel (p + attrLen) (remainLen - attrLen)

/-- `checkIntegral`, on memory. The first comparison is one of unsigned numbers. -/
def checkIntegralMem (fuel : ℕ) (data : Mem) (len : Int) : Option MsgState :=
  if 0 ≤ len ∧ len < 5 ∨ len > dataBufBufSize then some .error
  else if data 0 ≠ commandIdGetNotificationAttributes then some .error
  else checkLoopMem data fuel 5 (len - 5)

/-- The loop of `resp_data_assembling` that decodes the attributes, with the pointer at its
end. -/
def decodeStop (data : List UInt8) : ℕ → ℕ → Int → RespData → Option (ℕ × MsgState × RespData)
  | 0, _, _, _ => none
  | fuel + 1, p, remainLen, cmd =>
      if remainLen > 0 then do
        let attrId ← u8At data p
        let attrLen := (← u16At data (p + 1)).toNat
        let p := p + 3
        let remainLen := remainLen - 3
        match textField attrId with
        | some field =>
            if attrLen > textCap then some (p, .error, cmd)
            else do
              let value ← bytesAt data p attrLen
              let text ← storeText (cmd.text field) value
              decodeStop data fuel (p + attrLen) (remainLen - attrLen)
                { cmd with text := fun f => if f = field then text else cmd.text f }
        | none =>
            if attrId = attrIdMessage then
              if attrLen > msgCap then some (p, .error, cmd)
              else do
                let value ← bytesAt data p attrLen
                let message ← storeText cmd.message value
                decodeStop data fuel (p + attrLen) (remainLen - attrLen)
                  { cmd with msgLen := attrLen, message }
            else decodeStop data fuel (p + attrLen) (remainLen - attrLen) cmd
      else if remainLen = 0 then some (p, .addedNew, cmd)
      else some (p, .error, cmd)

/-- It is the same loop. -/
theorem decodeLoop_eq_map (data : List UInt8) (fuel p : ℕ) (remainLen : Int) (cmd : RespData) :
    decodeLoop data fuel p remainLen cmd =
      (decodeStop data fuel p remainLen cmd).map Prod.snd := by
  induction fuel generalizing p remainLen cmd with
  | zero => rfl
  | succ fuel ih =>
      rw [decodeLoop, decodeStop]
      by_cases hpos : remainLen > 0
      · simp only [if_pos hpos, ih, Option.bind_eq_bind, Option.map_bind]
        refine Option.bind_congr fun attrId _ => ?_
        rw [Function.comp_apply, Option.map_bind]
        refine Option.bind_congr fun len _ => ?_
        rw [Function.comp_apply]
        cases textField attrId with
        | some field =>
            by_cases hcap : len.toNat > textCap
            · simp [hcap]
            · simp [hcap, Option.map_bind]
        | none =>
            by_cases hmsg : attrId = attrIdMessage
            · by_cases hcap : len.toNat > msgCap
              · simp [hmsg, hcap]
              · simp [hmsg, hcap, Option.map_bind]
            · simp [hmsg]
      · rw [if_neg hpos, if_neg hpos]
        by_cases hzero : remainLen = 0
        · rw [if_pos hzero, if_pos hzero]
          rfl
        · rw [if_neg hzero, if_neg hzero]
          rfl

/-- Where it ends without an error, all bytes have been consumed. -/
theorem decodeStop_consumed {data : List UInt8} {fuel p q : ℕ} {remainLen : Int}
    {cmd cmd' : RespData} (h : decodeStop data fuel p remainLen cmd = some (q, .addedNew, cmd')) :
    (q : Int) = p + remainLen := by
  induction fuel generalizing p remainLen cmd with
  | zero => cases h
  | succ fuel ih =>
      rw [decodeStop] at h
      by_cases hpos : remainLen > 0
      · rw [if_pos hpos] at h
        obtain ⟨attrId, -, h⟩ := Option.bind_eq_some_iff.mp h
        obtain ⟨len, -, h⟩ := Option.bind_eq_some_iff.mp h
        have hnext : ∀ cmd, decodeStop data fuel (p + 3 + len.toNat)
            (remainLen - 3 - len.toNat) cmd = some (q, .addedNew, cmd') →
            (q : Int) = p + remainLen := by
          intro cmd hcmd
          have := ih hcmd
          omega
        dsimp only at h
        cases hfield : textField attrId with
        | some field =>
            rw [hfield] at h
            dsimp only at h
            by_cases hcap : len.toNat > textCap
            · simp [hcap] at h
            · rw [if_neg hcap] at h
              obtain ⟨value, -, h⟩ := Option.bind_eq_some_iff.mp h
              obtain ⟨text, -, h⟩ := Option.bind_eq_some_iff.mp h
              exact hnext _ h
        | none =>
            rw [hfield] at h
            dsimp only at h
            by_cases hmsg : attrId = attrIdMessage
            · rw [if_pos hmsg] at h
              by_cases hcap : len.toNat > msgCap
              · simp [hcap] at h
              · rw [if_neg hcap] at h
                obtain ⟨value, -, h⟩ := Option.bind_eq_some_iff.mp h
                obtain ⟨message, -, h⟩ := Option.bind_eq_some_iff.mp h
                exact hnext _ h
            · rw [if_neg hmsg] at h
              exact hnext _ h
      · rw [if_neg hpos] at h
        by_cases hzero : remainLen = 0
        · rw [if_pos hzero, Option.some.injEq, Prod.mk.injEq] at h
          omega
        · simp [hzero] at h

/-! ## The check behind the received bytes -/

/-- **Behind the end the response is never complete.** -/
theorem checkLoopMem_behind (data : Mem) (fuel p : ℕ) {remainLen : Int} (h : remainLen < 0) :
    checkLoopMem data fuel p remainLen ≠ some .done := by
  induction fuel generalizing p remainLen with
  | zero => simp [checkLoopMem]
  | succ fuel ih =>
      have hcond : ¬ (0 ≤ remainLen ∧ remainLen < 3) := by omega
      rw [checkLoopMem, if_neg hcond]
      dsimp only
      cases attrCap (data p) with
      | none => exact ih _ (by omega)
      | some cap =>
          have hcut : ((data.u16 (p + 1)).toNat : Int) > remainLen - 3 := by omega
          dsimp only
          rw [if_pos hcut]
          split <;> simp

/-- Inside of the received bytes both checks see the same. -/
theorem checkLoop_of_mem {data : Mem} {len fuel p : ℕ} {remainLen : Int}
    (hlen : (p : Int) + remainLen = len)
    (h : checkLoopMem data fuel p remainLen = some .done) {fuel' : ℕ} (hfuel : remainLen < fuel') :
    checkLoop (data.read 0 len) fuel' p remainLen = some .done := by
  induction fuel generalizing p remainLen fuel' with
  | zero => cases h
  | succ fuel ih =>
      have hpos : 0 ≤ remainLen := by
        by_contra hneg
        exact checkLoopMem_behind data _ _ (by omega) h
      obtain ⟨fuel', rfl⟩ : ∃ n, fuel' = n + 1 := ⟨fuel' - 1, by omega⟩
      rw [checkLoopMem] at h
      rw [checkLoop]
      by_cases hcond : 0 ≤ remainLen ∧ remainLen < 3
      · simp [hcond] at h
      · rw [if_neg hcond] at h ⊢
        have hbyte : ∀ i, i < len → (data.read 0 len)[i]? = some (data i) := by
          intro i hi
          have hlt : i < (data.read 0 len).length := by simpa using hi
          rw [List.getElem?_eq_getElem hlt, Mem.getElem_read, Nat.zero_add]
        have hid : u8At (data.read 0 len) p = some (data p) := hbyte p (by omega)
        have hattr : u16At (data.read 0 len) (p + 1) = some (data.u16 (p + 1)) := by
          rw [u16At, hbyte _ (by omega), hbyte _ (by omega)]
          rfl
        simp only [hid, hattr, Option.bind_eq_bind, Option.bind_some]
        have hnext : checkLoopMem data fuel (p + 3 + (data.u16 (p + 1)).toNat)
            (remainLen - 3 - (data.u16 (p + 1)).toNat) = some .done →
            checkLoop (data.read 0 len) fuel' (p + 3 + (data.u16 (p + 1)).toNat)
              (remainLen - 3 - (data.u16 (p + 1)).toNat) = some .done := by
          intro hdone
          exact ih (by omega) hdone (by omega)
        dsimp only at h
        cases hcap : attrCap (data p) with
        | none =>
            rw [hcap] at h
            exact hnext h
        | some cap =>
            rw [hcap] at h
            dsimp only at h ⊢
            by_cases hbig : (data.u16 (p + 1)).toNat > cap
            · simp [hbig] at h
            · rw [if_neg hbig] at h ⊢
              by_cases hcut : ((data.u16 (p + 1)).toNat : Int) > remainLen - 3
              · simp [hcut] at h
              · rw [if_neg hcut] at h ⊢
                by_cases hmsg : data p = attrIdMessage
                · rw [if_pos hmsg] at h ⊢
                  exact h
                · rw [if_neg hmsg] at h ⊢
                  exact hnext h

/-- What the check calls complete is complete without what is behind. -/
theorem checkIntegral_of_mem {fuel : ℕ} {data : Mem} {len : Int}
    (h : checkIntegralMem fuel data len = some .done) :
    0 ≤ len ∧ checkIntegral (data.read 0 len.toNat) = some .done := by
  rw [checkIntegralMem] at h
  by_cases hcond : 0 ≤ len ∧ len < 5 ∨ len > dataBufBufSize
  · rw [if_pos hcond] at h
    cases h
  · rw [if_neg hcond] at h
    by_cases hcomm : data 0 ≠ commandIdGetNotificationAttributes
    · simp [hcomm] at h
    · rw [if_neg hcomm] at h
      have hpos : 5 ≤ len := by
        by_contra hneg
        exact checkLoopMem_behind data _ _ (by omega) h
      obtain ⟨n, rfl⟩ := Int.eq_ofNat_of_zero_le (by omega : 0 ≤ len)
      refine ⟨by omega, ?_⟩
      have hlen : ¬ ((data.read 0 n).length < 5 ∨ (data.read 0 n).length > dataBufBufSize) := by
        rw [Mem.length_read]
        omega
      have hhead : u8At (data.read 0 n) 0 = some (data 0) := by
        have hlt : 0 < (data.read 0 n).length := by
          rw [Mem.length_read]
          omega
        rw [u8At, List.getElem?_eq_getElem hlt, Mem.getElem_read]
      rw [Int.toNat_natCast, checkIntegral, if_neg hlen, hhead, Option.bind_eq_bind,
        Option.bind_some, if_neg hcomm, Mem.length_read]
      exact checkLoop_of_mem (by omega) h (by omega)

/-- **The check and the decoder agree.** Whatever is in memory and however many bytes of it
have been received: if the check calls them complete, decoding them consumes each of them, ends
without an error and calls back, once, with the record. -/
theorem decode_of_check {fuel : ℕ} {data : Mem} {len : Int}
    (h : checkIntegralMem fuel data len = some .done) (s : Parser) :
    ∃ uid cmd, u32At (data.read 0 len.toNat) 1 = some uid ∧
      decodeStop (data.read 0 len.toNat) len.toNat 5 (len - 5)
        { s.getNotifCmd with notifUid := uid } = some (len.toNat, .addedNew, cmd) ∧
      decode { s with buf := data.read 0 len.toNat } =
        some ({ s with state := .addedNew, buf := data.read 0 len.toNat, getNotifCmd := cmd },
          some cmd) := by
  obtain ⟨hpos, hdone⟩ := checkIntegral_of_mem h
  obtain ⟨n, rfl⟩ := Int.eq_ofNat_of_zero_le hpos
  rw [Int.toNat_natCast] at hdone ⊢
  obtain ⟨hcomm, uid, huid, hloop⟩ := decodeLoop_of_done hdone
  obtain ⟨cmd, hcmd⟩ := hloop { s.getNotifCmd with notifUid := uid }
  rw [Mem.length_read] at hcmd
  refine ⟨uid, cmd, huid, ?_, by simp [decode, hcomm, huid, hcmd]⟩
  rw [decodeLoop_eq_map] at hcmd
  obtain ⟨⟨q, r⟩, hstop, hr⟩ := Option.map_eq_some_iff.mp hcmd
  obtain rfl : r = (.addedNew, cmd) := hr
  have hq := decodeStop_consumed hstop
  rw [hstop]
  have hqn : q = n := by omega
  rw [hqn]

/-- A response in memory, with other bytes behind it. -/
def helloMem : Mem := Mem.write (fun _ => 6) 0 hello.bytes

theorem decode_of_check_hello :
    ∃ uid cmd, u32At (helloMem.read 0 14) 1 = some uid ∧
      decodeStop (helloMem.read 0 14) 14 5 9 { Parser.init.getNotifCmd with notifUid := uid } =
        some (14, .addedNew, cmd) ∧
      decode { Parser.init with buf := helloMem.read 0 14 } =
        some ({ Parser.init with
          state := .addedNew, buf := helloMem.read 0 14, getNotifCmd := cmd }, some cmd) :=
  @decode_of_check 3 helloMem 14 (by decide) Parser.init

end CCode.Ancs
