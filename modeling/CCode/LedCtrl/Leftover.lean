import CCode.LedCtrl.Protocol

/-!
# Bytes left over in the buffer

`check_buf` compares the length that a packet claims with the number of bytes that were
received, and nothing else with it: not the place of the device's name, nor that of the command
and its arguments. It also takes a length that puts the checksum in front of the buffer. What
the device does may then depend on an earlier packet, or on what is in memory.

`handle_eq_iff` says for which packets it does not.

## Main definitions

* `Agree` — the buffers hold the same received bytes.
* `Determined` — the packet is rejected by a byte of it, or brings all that is looked at.
-/

namespace CCode.LedCtrl

open CCode.Lib

/-- The first `n` bytes are the same. -/
def Agree (n : ℕ) (buf buf' : Buffer) : Prop := ∀ i : ℕ, i < n → buf' i = buf i

instance (n : ℕ) (buf buf' : Buffer) : Decidable (Agree n buf buf') :=
  inferInstanceAs (Decidable (∀ i : ℕ, i < n → buf' i = buf i))

/-- The packet is too short for its length, or claims a length of one byte or more and its
checksum is wrong, or a received byte of the device's name is, or it has all of the name and,
for `CMD_SET_STATUS`, the number of a LED and the state for it. -/
def Determined (buf : Buffer) (n : ℕ) : Prop :=
  n < versionPos ∨ n < dataLen buf ∨
    0 < dataLen buf ∧
      (¬ SumOk buf ∨
        (∃ i : Fin 16, dataPos + (i : ℕ) < n ∧ buf (dataPos + (i : ℕ)) ≠ devId.get i) ∨
        dataPos + 16 ≤ n ∧
          (buf (cmdPos + 1) ≠ cmdSetStatus ∨ dataPos + 18 ≤ n ∨
            dataPos + 17 ≤ n ∧ buf (dataPos + 16) ∉ ([1, 2, 3] : List UInt8)))

variable {n : ℕ} {buf buf' : Buffer}

namespace Agree

/-- A received byte. -/
theorem apply (h : Agree n buf buf') {p : ℤ} (h₀ : 0 ≤ p) (hp : p < n) : buf' p = buf p := by
  obtain ⟨i, rfl⟩ := Int.eq_ofNat_of_zero_le h₀
  exact h i (by omega)

/-- A byte that was not received may be any. -/
theorem update (buf : Buffer) {p : ℤ} (hp : p < 0 ∨ n ≤ p) (v : UInt8) :
    Agree n buf (Function.update buf p v) := by
  intro i hi
  have hne : (i : ℤ) ≠ p := by omega
  exact Function.update_of_ne hne v buf

theorem trans {buf'' : Buffer} (h : Agree n buf buf') (h' : Agree n buf' buf'') :
    Agree n buf buf'' := fun i hi => (h' i hi).trans (h i hi)

theorem dataLen (h : Agree n buf buf') (hn : versionPos ≤ n) : dataLen buf' = dataLen buf := by
  simp only [versionPos] at hn
  have h₂ : buf' lenPos = buf lenPos := h.apply (by decide) (by simp only [lenPos]; omega)
  have h₃ : buf' (lenPos + 1) = buf (lenPos + 1) :=
    h.apply (by decide) (by simp only [lenPos]; omega)
  rw [LedCtrl.dataLen, LedCtrl.dataLen, h₂, h₃]

/-- The checksum and what it is taken of are received. -/
theorem sumOk (h : Agree n buf buf') (hn : versionPos ≤ n) (hpos : 0 < LedCtrl.dataLen buf)
    (hle : LedCtrl.dataLen buf ≤ n) : SumOk buf' ↔ SumOk buf := by
  have hlast : buf' (LedCtrl.dataLen buf - 1) = buf (LedCtrl.dataLen buf - 1) :=
    h.apply (by omega) (by omega)
  have hsum : sumTo buf' (LedCtrl.dataLen buf) = sumTo buf (LedCtrl.dataLen buf) := by
    refine congrArg byteSum (List.map_congr_left fun i hi => ?_)
    rw [List.mem_range] at hi
    simp only [versionPos] at hi ⊢
    exact h.apply (by omega) (by omega)
  rw [SumOk, SumOk, h.dataLen hn, hlast, hsum]

/-- The device's name is received. -/
theorem idOk (h : Agree n buf buf') (hn : dataPos + 16 ≤ n) : IdOk buf' ↔ IdOk buf := by
  have hbyte : ∀ i : Fin 16, buf' (dataPos + (i : ℕ)) = buf (dataPos + (i : ℕ)) := by
    intro i
    have hi := i.isLt
    simp only [dataPos] at hn ⊢
    exact h.apply (by omega) (by omega)
  simp only [IdOk, hbyte]

end Agree

/-! ## The verdict -/

theorem handle_short (hn : n < versionPos) : handle buf n = (-1, none) := by
  have hcheck : checkBuf buf n = -1 := if_pos hn
  rw [handle, hcheck]
  rfl

theorem handle_long (hn : versionPos ≤ n) (hlen : n < dataLen buf) :
    handle buf n = (-1, none) := by
  have hcheck : checkBuf buf n = -1 := by
    rw [checkBuf, if_neg (by omega), if_pos hlen]
  rw [handle, hcheck]
  rfl

theorem handle_sum (hn : versionPos ≤ n) (hlen : dataLen buf ≤ n) (hsum : ¬ SumOk buf) :
    handle buf n = (-2, none) := by
  have hcheck : checkBuf buf n = -2 := by
    rw [checkBuf, if_neg (by omega), if_neg (by omega), if_pos hsum]
  rw [handle, hcheck]
  rfl

theorem handle_id (hn : versionPos ≤ n) (hlen : dataLen buf ≤ n) (hsum : SumOk buf)
    (hid : ¬ IdOk buf) : handle buf n = (-3, none) := by
  have hcheck : checkBuf buf n = -3 := by
    rw [checkBuf, if_neg (by omega), if_neg (by omega), if_neg (not_not_intro hsum), if_pos hid]
  rw [handle, hcheck]
  rfl

theorem handle_accept (hn : versionPos ≤ n) (hlen : dataLen buf ≤ n) (hsum : SumOk buf)
    (hid : IdOk buf) : handle buf n = (0, some (dispatch buf)) := by
  have hcheck : checkBuf buf n = 0 := by
    rw [checkBuf, if_neg (by omega), if_neg (by omega), if_neg (not_not_intro hsum),
      if_neg (not_not_intro hid)]
  rw [handle, hcheck]
  rfl

/-- A packet with the right checksum is accepted, or the name is wrong. -/
theorem handle_of_sumOk (hn : versionPos ≤ n) (hlen : dataLen buf ≤ n) (hsum : SumOk buf) :
    (handle buf n).1 ≠ -2 := by
  by_cases hid : IdOk buf
  · rw [handle_accept hn hlen hsum hid]
    simp
  · rw [handle_id hn hlen hsum hid]
    decide

/-! ## The command -/

theorem dispatch_setStatus (h : buf (cmdPos + 1) = cmdSetStatus) :
    dispatch buf = .setStatus (ledCalls buf) := by
  rw [dispatch, h]
  rfl

/-- Another number than those of the LEDs. -/
theorem ledCalls_of_notMem (h : buf (dataPos + 16) ∉ ([1, 2, 3] : List UInt8)) :
    ledCalls buf = [] := by
  simp only [List.mem_cons, List.not_mem_nil, or_false, not_or] at h
  rw [ledCalls, if_neg h.1, if_neg h.2.1, if_neg h.2.2]
  rfl

/-- The number of a LED. -/
theorem ledCalls_of_mem (h : buf (dataPos + 16) ∈ ([1, 2, 3] : List UInt8)) :
    ∃ led, ledCalls buf = [(led, 48 + buf (dataPos + 17))] := by
  simp only [List.mem_cons, List.not_mem_nil, or_false] at h
  rcases h with h | h | h
  · exact ⟨114, by simp [ledCalls, h]⟩
  · exact ⟨103, by simp [ledCalls, h]⟩
  · exact ⟨98, by simp [ledCalls, h]⟩

/-- A packet that brings all that the command looks at. -/
theorem Agree.dispatch (h : Agree n buf buf') (hn : dataPos + 16 ≤ n)
    (hargs : buf (cmdPos + 1) ≠ cmdSetStatus ∨ dataPos + 18 ≤ n ∨
      dataPos + 17 ≤ n ∧ buf (dataPos + 16) ∉ ([1, 2, 3] : List UInt8)) :
    dispatch buf' = dispatch buf := by
  simp only [dataPos] at hn hargs
  have hcmd : buf' (cmdPos + 1) = buf (cmdPos + 1) :=
    h.apply (by decide) (by simp only [cmdPos]; omega)
  by_cases hset : buf (cmdPos + 1) = cmdSetStatus
  · have hled : (10 : ℤ) + 17 ≤ n → buf' (dataPos + 16) = buf (dataPos + 16) := by
      intro h17
      exact h.apply (by decide) (by simp only [dataPos]; omega)
    rw [dispatch_setStatus (hcmd.trans hset), dispatch_setStatus hset]
    rcases hargs with hargs | hargs | ⟨h17, hargs⟩
    · exact absurd hset hargs
    · have hstate : buf' (dataPos + 17) = buf (dataPos + 17) :=
        h.apply (by decide) (by simp only [dataPos]; omega)
      rw [ledCalls, ledCalls, hled (by omega), hstate]
    · rw [ledCalls_of_notMem hargs, ledCalls_of_notMem (by rw [hled h17]; exact hargs)]
  · rw [LedCtrl.dispatch, LedCtrl.dispatch, hcmd, if_neg hset, if_neg hset]

/-! ## What may depend on other bytes -/

/-- A length of no byte: the checksum is looked up before the buffer. -/
theorem exists_ne_of_nonpos (hn : versionPos ≤ n) (hlen : dataLen buf ≤ 0) :
    ∃ buf', Agree n buf buf' ∧ handle buf' n ≠ handle buf n := by
  have hagree : ∀ v, Agree n buf (Function.update buf (dataLen buf - 1) v) :=
    fun v => .update buf (.inl (by omega)) v
  have hsum : ∀ v, SumOk (Function.update buf (dataLen buf - 1) v) ↔ v = 0 := by
    intro v
    have hempty : (dataLen buf - 1 - versionPos).toNat = 0 := by
      simp only [versionPos] at hlen ⊢
      omega
    rw [SumOk, (hagree v).dataLen hn, Function.update_self, sumTo, hempty]
    exact eq_comm
  have hle : ∀ v, dataLen (Function.update buf (dataLen buf - 1) v) ≤ n := by
    intro v
    rw [(hagree v).dataLen hn]
    omega
  have hright := handle_of_sumOk hn (hle 0) ((hsum 0).mpr rfl)
  have hwrong := handle_sum hn (hle 1) (mt (hsum 1).mp (by decide))
  by_cases h : handle (Function.update buf (dataLen buf - 1) 0) n = handle buf n
  · refine ⟨_, hagree 1, ?_⟩
    rw [hwrong, ← h]
    intro heq
    exact hright (congrArg Prod.fst heq).symm
  · exact ⟨_, hagree 0, h⟩

/-- A packet that ends before or in the device's name. -/
theorem exists_ne_of_short (hn : versionPos ≤ n) (hpos : 0 < dataLen buf) (hle : dataLen buf ≤ n)
    (hsum : SumOk buf)
    (hid : ∀ i : Fin 16, dataPos + (i : ℕ) < n → buf (dataPos + (i : ℕ)) = devId[i])
    (hshort : n < dataPos + 16) : ∃ buf', Agree n buf buf' ∧ handle buf' n ≠ handle buf n := by
  have hagree : Agree n buf (put buf dataPos devId.toList) := by
    intro i hi
    simp only [dataPos] at hid hshort ⊢
    by_cases hin : 10 ≤ i
    · obtain ⟨k, rfl⟩ := Nat.exists_eq_add_of_le hin
      have hk : k < devId.toList.length := by
        rw [Vector.length_toList]
        omega
      have hput := put_apply buf 10 hk
      have hbyte := hid ⟨k, by omega⟩ (by simp only; omega)
      push_cast
      rw [hput, Vector.getElem_toList]
      exact hbyte.symm
    · rw [put, if_neg (by omega)]
  have hok : IdOk (put buf dataPos devId.toList) := by
    intro i
    rw [put_apply buf dataPos (by simp), Vector.getElem_toList]
    rfl
  have hagree' : Agree n buf
      (Function.update (put buf dataPos devId.toList) (dataPos + ((15 : Fin 16) : ℕ)) 0) := by
    refine hagree.trans (.update _ (.inr ?_) 0)
    simp only [dataPos] at hshort ⊢
    norm_num
    omega
  have hnot : ¬ IdOk
      (Function.update (put buf dataPos devId.toList) (dataPos + ((15 : Fin 16) : ℕ)) 0) := by
    intro h
    have h₁₅ := h 15
    rw [Function.update_self] at h₁₅
    exact absurd h₁₅ (by decide)
  have hyes := handle_accept hn (by rwa [hagree.dataLen hn])
    ((hagree.sumOk hn hpos hle).mpr hsum) hok
  have hno := handle_id hn (by rwa [hagree'.dataLen hn])
    ((hagree'.sumOk hn hpos hle).mpr hsum) hnot
  by_cases h : handle (put buf dataPos devId.toList) n = handle buf n
  · refine ⟨_, hagree', ?_⟩
    rw [hno, ← h, hyes]
    simp
  · exact ⟨_, hagree, h⟩

/-- A command that sets a LED, without its arguments. -/
theorem exists_ne_of_args (hn : dataPos + 16 ≤ n) (hpos : 0 < dataLen buf)
    (hle : dataLen buf ≤ n) (hsum : SumOk buf) (hid : IdOk buf)
    (hcmd : buf (cmdPos + 1) = cmdSetStatus) (hshort : n < dataPos + 18)
    (hled : dataPos + 17 ≤ n → buf (dataPos + 16) ∈ ([1, 2, 3] : List UInt8)) :
    ∃ buf', Agree n buf buf' ∧ handle buf' n ≠ handle buf n := by
  have hn' : versionPos ≤ n := by
    simp only [dataPos, versionPos] at hn ⊢
    omega
  have hcmd9 : ∀ {buf'}, Agree n buf buf' → buf' (cmdPos + 1) = cmdSetStatus := by
    intro buf' h
    simp only [dataPos] at hn
    rw [h.apply (by decide) (by simp only [cmdPos]; omega), hcmd]
  have hset : ∀ {buf'}, Agree n buf buf' →
      handle buf' n = (0, some (.setStatus (ledCalls buf'))) := by
    intro buf' h
    rw [handle_accept hn' (by rwa [h.dataLen hn']) ((h.sumOk hn' hpos hle).mpr hsum)
      ((h.idOk hn).mpr hid), dispatch_setStatus (hcmd9 h)]
  have hself : Agree n buf buf := fun i _ => rfl
  -- two other buffers with different calls: one of them differs from this one
  have hpair : ∃ buf₁ buf₂, Agree n buf buf₁ ∧ Agree n buf buf₂ ∧
      ledCalls buf₁ ≠ ledCalls buf₂ := by
    by_cases h17 : dataPos + 17 ≤ n
    · have hne : dataPos + 16 ≠ dataPos + 17 := by decide
      have hagree : ∀ v, Agree n buf (Function.update buf (dataPos + 17) v) := by
        intro v
        simp only [dataPos] at hshort ⊢
        exact .update buf (.inr (by omega)) v
      have hmem : ∀ v, Function.update buf (dataPos + 17) v (dataPos + 16) ∈
          ([1, 2, 3] : List UInt8) := by
        intro v
        rw [Function.update_of_ne hne]
        exact hled h17
      refine ⟨_, _, hagree 0, hagree 1, ?_⟩
      obtain ⟨led, h₀⟩ := ledCalls_of_mem (hmem 0)
      obtain ⟨led', h₁⟩ := ledCalls_of_mem (hmem 1)
      rw [h₀, h₁, Function.update_self, Function.update_self]
      simp
    · have hagree : ∀ v, Agree n buf (Function.update buf (dataPos + 16) v) := by
        intro v
        simp only [dataPos] at h17 ⊢
        exact .update buf (.inr (by omega)) v
      refine ⟨_, _, hagree 0, hagree 1, ?_⟩
      have hmem : Function.update buf (dataPos + 16) 1 (dataPos + 16) ∈
          ([1, 2, 3] : List UInt8) := by simp
      obtain ⟨led, h₁⟩ := ledCalls_of_mem hmem
      rw [ledCalls_of_notMem (by simp), h₁]
      simp
  obtain ⟨buf₁, buf₂, h₁, h₂, hne⟩ := hpair
  by_cases h : handle buf₁ n = handle buf n
  · refine ⟨buf₂, h₂, ?_⟩
    rw [← h, hset h₁, hset h₂]
    intro heq
    simp only [Prod.mk.injEq, Option.some.injEq, Command.setStatus.injEq, true_and] at heq
    exact hne heq.symm
  · exact ⟨buf₁, h₁, h⟩

/-! ## Which packets are safe -/

/-- **A determined packet has one outcome.** -/
theorem Determined.handle_eq (hdet : Determined buf n) (h : Agree n buf buf') :
    handle buf' n = handle buf n := by
  by_cases hn : n < versionPos
  · rw [handle_short hn, handle_short hn]
  have hn' : versionPos ≤ n := by omega
  by_cases hlong : n < dataLen buf
  · rw [handle_long hn' hlong, handle_long hn' (by rwa [h.dataLen hn'])]
  have hle : dataLen buf ≤ n := by omega
  have hle' : dataLen buf' ≤ n := by rwa [h.dataLen hn']
  obtain ⟨hpos, hdet⟩ := (hdet.resolve_left hn).resolve_left hlong
  by_cases hsum : SumOk buf
  swap
  · rw [handle_sum hn' hle hsum, handle_sum hn' hle' (mt (h.sumOk hn' hpos hle).mp hsum)]
  have hsum' := (h.sumOk hn' hpos hle).mpr hsum
  rcases hdet.resolve_left (not_not_intro hsum) with ⟨i, hi, hdiff⟩ | ⟨hname, hargs⟩
  · have hdiff' : buf' (dataPos + (i : ℕ)) ≠ devId[i] := by
      rwa [h.apply (by simp only [dataPos]; omega) hi]
    rw [handle_id hn' hle hsum fun hid => hdiff (hid i),
      handle_id hn' hle' hsum' fun hid => hdiff' (hid i)]
  · by_cases hid : IdOk buf
    · rw [handle_accept hn' hle hsum hid, handle_accept hn' hle' hsum' ((h.idOk hname).mpr hid),
        h.dispatch hname hargs]
    · rw [handle_id hn' hle hsum hid, handle_id hn' hle' hsum' (mt (h.idOk hname).mp hid)]

/-- **Noninterference.** The verdict on the received bytes and the command with its arguments
are the same whatever else is in memory exactly if the packet is determined. -/
theorem handle_eq_iff (buf : Buffer) (n : ℕ) :
    (∀ buf', Agree n buf buf' → handle buf' n = handle buf n) ↔ Determined buf n := by
  constructor
  · intro hsame
    by_contra hdet
    have hex : ∃ buf', Agree n buf buf' ∧ handle buf' n ≠ handle buf n := by
      simp only [Determined, not_or, not_and, not_not, not_exists, not_lt] at hdet
      obtain ⟨hn, hle, hdet⟩ := hdet
      by_cases hpos : 0 < dataLen buf
      · obtain ⟨hsum, hid, hargs⟩ := hdet hpos
        by_cases hname : dataPos + 16 ≤ n
        · have hok : IdOk buf := by
            intro i
            have hi := i.isLt
            exact hid i (by simp only [dataPos] at hname ⊢; omega)
          obtain ⟨hcmd, h18, h17⟩ := hargs hname
          exact exists_ne_of_args hname hpos hle hsum hok hcmd (by omega) h17
        · exact exists_ne_of_short hn hpos hle hsum hid (by omega)
      · exact exists_ne_of_nonpos hn (by omega)
    obtain ⟨buf', hagree, hne⟩ := hex
    exact hne (hsame buf' hagree)
  · intro hdet buf' hagree
    exact hdet.handle_eq hagree

/-- Ten bytes that claim to be five: no checksum but a zero, no name, and `CMD_SET_STATUS`. -/
def shortPacket : List UInt8 := [0x4A, 0x5A, 0, 1, 0, 0, 0, 0, 0, 3]

/-- They are accepted behind a packet that was sent before, with the name from it. After a
login request they set nothing; after a report that the red LED is on they set a LED. -/
theorem handle_leftover :
    Agree 10 (put (strLogin fun _ => 0) 0 shortPacket)
        (put (strReport ![1, 0, 0] fun _ => 0) 0 shortPacket) ∧
      handle (put (strLogin fun _ => 0) 0 shortPacket) 10 = (0, some (.setStatus [])) ∧
      handle (put (strReport ![1, 0, 0] fun _ => 0) 0 shortPacket) 10 =
        (0, some (.setStatus [(114, 48)])) := by
  decide

/-! ## Several packets -/

/-- The packet is determined, in whatever buffer it arrives. -/
def Sound (data : List UInt8) : Prop := Determined (put (fun _ => 0) 0 data) data.length

/-- What is done with it is then a matter of its bytes. -/
theorem Sound.handle_put {data : List UInt8} (h : Sound data) (buf : Buffer) :
    handle (put buf 0 data) data.length = handle (put (fun _ => 0) 0 data) data.length :=
  Determined.handle_eq h fun _ hi => put_congr _ _ hi

/-- Carrying out a command sets the LEDs alike. -/
theorem Device.ledState_carryOut {d d' : Device} (h : d.ledState = d'.ledState) (cmd : Command) :
    (d.carryOut cmd).ledState = (d'.carryOut cmd).ledState := by
  cases cmd with
  | ackLogin => exact h
  | setStatus calls => simp only [carryOut, h]
  | getStatus => exact h
  | unknown => exact h

/-- One packet. -/
theorem Device.ledState_receive {d d' : Device} (h : d.ledState = d'.ledState)
    {data : List UInt8} (hdata : Sound data) :
    (d.receive data).ledState = (d'.receive data).ledState := by
  simp only [receive, hdata.handle_put d.buffer, hdata.handle_put d'.buffer]
  cases (handle (put (fun _ => 0) 0 data) data.length).2 with
  | none => exact h
  | some cmd =>
      exact @ledState_carryOut ⟨put d.buffer 0 data, d.ledState⟩
        ⟨put d'.buffer 0 data, d'.ledState⟩ h cmd

/-- **Where every packet is determined, the LEDs depend on the packets only**, and not on what
the two devices have in their buffers at the start. -/
theorem Device.ledState_run {d d' : Device} (h : d.ledState = d'.ledState) {events : List Event}
    (hsound : ∀ data, .packet data ∈ events → Sound data) :
    (events.foldl step d).ledState = (events.foldl step d').ledState := by
  induction events generalizing d d' with
  | nil => exact h
  | cons event events ih =>
      have hrest : ∀ data, .packet data ∈ events → Sound data :=
        fun data hdata => hsound data (List.mem_cons_of_mem event hdata)
      cases event with
      | login => exact @ih ⟨strLogin d.buffer, _⟩ ⟨strLogin d'.buffer, _⟩ h hrest
      | packet data => exact ih (ledState_receive h (hsound data List.mem_cons_self)) hrest

end CCode.LedCtrl
