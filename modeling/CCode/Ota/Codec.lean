import CCode.Ota.Protocol

/-!
# Packing and parsing

The two frames of a packet are one list of bytes for the functions that make it and a few
fields at fixed offsets for the one that reads it. `read_validData_iff` and
`read_commFrame_iff` say that these are the same, and the two directions of `codec` follow
from them: what was packed is parsed, and what is parsed without encryption was packed.

Every byte of a packet but the encryption type is in a field that is compared with
something, or is in the checksum. So two packets that are both accepted cannot differ in
one byte only, which is `corruption_rejected`.

## Main definitions

* `Carries` — a call has returned this command and these data.
* `EncIf.Undoes` — decrypting undoes encrypting.
* `ValidFrame` — the two checks of the valid data.
-/

namespace CCode.Ota

open CCode.Lib

/-! ## The frames -/

/-- The valid data is in memory exactly if its fields are at their offsets. -/
theorem read_validData_iff (p : Mem) (now : Int) (timeOffset cmd : UInt32) (data : List UInt8) :
    p.read 0 (11 + data.length) = packValidData now timeOffset cmd data ↔
      p 0 = validDataHeader₀ ∧ p 1 = validDataHeader₁ ∧
      ofBe16 (p 2) (p 3) = UInt16.ofNat (7 + data.length) ∧
      ofBe32 (p 4) (p 5) (p 6) (p 7) = timeOffset + UInt32.ofInt now ∧
      ofBe16 (p 8) (p 9) = cmd.toUInt16 ∧ p.read validDataDataPos data.length = data ∧
      byteSum (p.read 0 (10 + data.length)) = p (10 + data.length) := by
  have hlast : p.read 0 (11 + data.length) =
      p.read 0 (10 + data.length) ++ [p (10 + data.length)] := by
    rw [show 11 + data.length = (10 + data.length) + 1 by omega, Mem.read_add]
    simp [Mem.read]
  have hhead : p.read 0 10 = [p 0, p 1] ++ [p 2, p 3] ++ [p 4, p 5, p 6, p 7] ++ [p 8, p 9] := by
    simp [Mem.read, List.range, List.range.loop]
  have hlen : 4 + 2 + data.length + 1 = 7 + data.length := by omega
  rw [hlast, Mem.read_add, hhead, packValidData]
  simp only [hlen, ofBe16_eq_iff, ofBe32_eq_iff, Nat.zero_add]
  constructor
  · intro h
    obtain ⟨hbody, hsum⟩ := List.append_inj' h rfl
    obtain ⟨hfields, hdata⟩ := List.append_inj' hbody (by simp)
    obtain ⟨hfields, hcmd⟩ := List.append_inj' hfields rfl
    obtain ⟨hfields, hstamp⟩ := List.append_inj' hfields rfl
    obtain ⟨hheader, htotal⟩ := List.append_inj' hfields rfl
    simp only [List.cons.injEq, and_true] at hheader hsum
    rw [hbody]
    exact ⟨hheader.1, hheader.2, htotal, hstamp, hcmd, hdata, hsum.symm⟩
  · rintro ⟨h₀, h₁, htotal, hstamp, hcmd, hdata, hsum⟩
    rw [← hsum, h₀, h₁, htotal, hstamp, hcmd, hdata]

theorem length_packValidData (now : Int) (timeOffset cmd : UInt32) (data : List UInt8) :
    (packValidData now timeOffset cmd data).length = 11 + data.length := by
  simp [packValidData]
  omega

theorem length_commFrame (type : UInt8) (commData : List UInt8) :
    (commFrame type commData).length = 4 + commData.length := by
  simp [commFrame]
  omega

/-- The packet is in memory exactly if its fields are at their offsets. -/
theorem read_commFrame_iff (m : Mem) (type : UInt8) (commData : List UInt8) :
    m.read 0 (4 + commData.length) = commFrame type commData ↔
      m 0 = commDataHeader ∧ m 1 = type ∧
      ofBe16 (m 2) (m 3) = UInt16.ofNat commData.length ∧
      m.read commDataValidDataPos commData.length = commData := by
  have hhead : m.read 0 4 = [m 0, m 1] ++ [m 2, m 3] := by
    simp [Mem.read, List.range, List.range.loop]
  rw [Mem.read_add, hhead, ofBe16_eq_iff, Nat.zero_add, commFrame]
  constructor
  · intro h
    obtain ⟨hfields, hdata⟩ := List.append_inj' h (by simp)
    obtain ⟨hheader, hlen⟩ := List.append_inj' hfields rfl
    simp only [List.cons.injEq, and_true] at hheader
    exact ⟨hheader.1, hheader.2, hlen, hdata⟩
  · rintro ⟨h₀, h₁, hlen, hdata⟩
    rw [h₀, h₁, hlen, hdata]

/-- The fields of a packet in memory, where its length fits the length field. -/
theorem fields_of_read {m : Mem} {type : UInt8} {commData : List UInt8}
    (hlt : commData.length < 2 ^ 16)
    (hread : m.read 0 (commFrame type commData).length = commFrame type commData) :
    m 0 = commDataHeader ∧ m 1 = type ∧ (ofBe16 (m 2) (m 3)).toNat = commData.length ∧
      m.read commDataValidDataPos commData.length = commData := by
  rw [length_commFrame, read_commFrame_iff] at hread
  obtain ⟨h₀, h₁, hlen, hdata⟩ := hread
  refine ⟨h₀, h₁, ?_, hdata⟩
  rw [hlen, UInt16.toNat_ofNat']
  omega

/-! ## Acceptance -/

/-- The valid data passes both checks. -/
def ValidFrame (p : Mem) (validLen : ℕ) : Prop :=
  formatError p validLen = false ∧ checkValueData p validLen = true

/-- The first check, field by field. -/
theorem formatError_eq_false_iff (p : Mem) (validLen : ℕ) :
    formatError p validLen = false ↔
      validDataTimeStampPos ≤ validLen ∧ p 0 = validDataHeader₀ ∧ p 1 = validDataHeader₁ ∧
        (ofBe16 (p 2) (p 3)).toNat + validDataTimeStampPos = validLen := by
  simp [formatError, and_assoc]

section Parse

variable {enc : EncIf} {now : Int} {pro : Protocol} {reply : Reply}

variable (now pro reply) in
/-- What is valid is taken out of its frame. -/
theorem parseValidData_of_validFrame (place : Place) {p : Mem} {validLen : ℕ}
    (h : ValidFrame p validLen) (trace : List Access) :
    let o := parseValidData now pro reply place p validLen trace
    o.ret = .success ∧
      o.pro.timeStampOffset =
        (ofBe32 (p 4) (p 5) (p 6) (p 7) - UInt32.ofInt now).toInt32 ∧
      o.reply.cmd = (ofBe16 (p 8) (p 9)).toUInt32 ∧
      o.reply.dataLen = validLen - validDataDataPos - 1 ∧
      o.reply.data.read 0 (sizeT (validLen - validDataDataPos - 1)) =
        p.read validDataDataPos (sizeT (validLen - validDataDataPos - 1)) := by
  obtain ⟨hformat, hcheck⟩ := h
  simp only [parseValidData, hformat, hcheck, Bool.false_eq_true, if_false, not_true, true_and]
  apply List.map_congr_left
  intro i hi
  rw [Nat.zero_add]
  exact if_pos (List.mem_range.mp hi)

variable (now pro reply) in
/-- What is not leaves the caller's variables alone. -/
theorem parseValidData_of_not_validFrame (place : Place) {p : Mem} {validLen : ℕ}
    (h : ¬ ValidFrame p validLen) (trace : List Access) :
    let o := parseValidData now pro reply place p validLen trace
    o.ret ≠ .success ∧ o.pro = pro ∧ o.reply = reply := by
  by_cases hformat : formatError p validLen
  · simp [parseValidData, hformat]
  · have hcheck : checkValueData p validLen = false := by
      simpa [ValidFrame, hformat] using h
    simp [parseValidData, hformat, hcheck]

theorem parseEncrypted_unchanged {decrypt : List UInt8 → List UInt8} {heap buf : Mem}
    {validLen : ℕ} {trace : List Access}
    (h : (parseEncrypted decrypt now heap pro reply buf validLen trace).ret ≠ .success) :
    (parseEncrypted decrypt now heap pro reply buf validLen trace).pro = pro ∧
      (parseEncrypted decrypt now heap pro reply buf validLen trace).reply = reply := by
  rw [parseEncrypted] at h ⊢
  split at h
  · rename_i hempty
    simp only [hempty, if_true, and_self]
  · rename_i hplain
    simp only [hplain, if_false] at h ⊢
    by_cases hvalid : ValidFrame
        (heap.write 0 (decrypt (buf.read commDataValidDataPos validLen)))
        (decrypt (buf.read commDataValidDataPos validLen)).length
    · exact absurd (parseValidData_of_validFrame _ _ _ _ hvalid _).1 h
    · exact (parseValidData_of_not_validFrame _ _ _ _ hvalid _).2

/-- **A call that fails leaves the caller's variables alone.** -/
theorem parsePackage_unchanged {heap : Option Mem} {buf : Mem} {bufLen : ℕ}
    (h : (parsePackage enc now heap pro reply buf bufLen).ret ≠ .success) :
    (parsePackage enc now heap pro reply buf bufLen).pro = pro ∧
      (parsePackage enc now heap pro reply buf bufLen).reply = reply := by
  cases heap with
  | none => exact ⟨rfl, rfl⟩
  | some heap =>
      simp only [parsePackage] at h ⊢
      split_ifs at h ⊢
      · exact ⟨rfl, rfl⟩
      · exact ⟨rfl, rfl⟩
      · by_cases hvalid : ValidFrame (fun i => buf (commDataValidDataPos + i))
            (ofBe16 (buf 2) (buf 3)).toNat
        · exact absurd (parseValidData_of_validFrame _ _ _ _ hvalid _).1 h
        · exact (parseValidData_of_not_validFrame _ _ _ _ hvalid _).2
      · exact parseEncrypted_unchanged h
      · exact parseEncrypted_unchanged h
      · exact ⟨rfl, rfl⟩

/-- The frames of a packet without encryption are right. -/
structure Accepts (buf : Mem) (bufLen : ℕ) : Prop where
  header : buf 0 = commDataHeader
  length : (ofBe16 (buf 2) (buf 3)).toNat + commDataValidDataPos = bufLen
  valid : ValidFrame (fun i => buf (commDataValidDataPos + i)) (ofBe16 (buf 2) (buf 3)).toNat

/-- The valid data of such a packet is parsed where it is. -/
theorem parsePackage_of_accepts {buf : Mem} {bufLen : ℕ} (htype : buf 1 = Encrypt.null.byte)
    (h : Accepts buf bufLen) (heap : Mem) :
    parsePackage enc now (some heap) pro reply buf bufLen =
      parseValidData now pro reply .buf (fun i => buf (commDataValidDataPos + i))
        (ofBe16 (buf 2) (buf 3)).toNat [.readBuf 0 1, .readBuf 2 2, .readBuf 1 1] := by
  simp only [parsePackage, h.header, h.length, htype, ne_eq, not_true, if_true, if_false]

/-- **A packet without encryption is accepted exactly if its frames are right.** -/
theorem parsePackage_success_iff {heap : Option Mem} {buf : Mem} {bufLen : ℕ}
    (htype : buf 1 = Encrypt.null.byte) :
    (parsePackage enc now heap pro reply buf bufLen).ret = .success ↔
      heap.isSome ∧ Accepts buf bufLen := by
  cases heap with
  | none => simp [parsePackage]
  | some heap =>
      constructor
      · intro h
        by_cases hheader : buf 0 = commDataHeader
        · by_cases hlength : (ofBe16 (buf 2) (buf 3)).toNat + commDataValidDataPos = bufLen
          · simp only [parsePackage, hheader, hlength, htype, ne_eq, not_true, if_true,
              if_false] at h
            refine ⟨rfl, hheader, hlength, ?_⟩
            by_contra hvalid
            exact (parseValidData_of_not_validFrame _ _ _ _ hvalid _).1 h
          · simp [parsePackage, hheader, hlength] at h
        · simp [parsePackage, hheader] at h
      · rintro ⟨-, haccepts⟩
        rw [parsePackage_of_accepts htype haccepts]
        exact (parseValidData_of_validFrame _ _ _ _ haccepts.valid _).1

/-! ## Packed and parsed -/

/-- The call has succeeded with this time stamp, this command and these data. -/
structure Carries (o : Outcome) (now : Int) (timeStamp : UInt32) (cmd : UInt16)
    (data : List UInt8) : Prop where
  ret : o.ret = .success
  timeStampOffset : o.pro.timeStampOffset = (timeStamp - UInt32.ofInt now).toInt32
  cmd : o.reply.cmd = cmd.toUInt32
  dataLen : o.reply.dataLen = data.length
  data : o.reply.data.read 0 data.length = data

/-- Valid data that is in memory passes the checks. -/
theorem validFrame_of_packed {p : Mem} {t : Int} {timeOffset cmd : UInt32} {data : List UInt8}
    (hread : p.read 0 (11 + data.length) = packValidData t timeOffset cmd data)
    (hlen : data.length ≤ 501) : ValidFrame p (11 + data.length) := by
  obtain ⟨h₀, h₁, htotal, -, -, -, hsum⟩ := (read_validData_iff p t timeOffset cmd data).mp hread
  have htoNat : (UInt16.ofNat (7 + data.length)).toNat = 7 + data.length := by
    rw [UInt16.toNat_ofNat']
    omega
  refine ⟨?_, ?_⟩
  · rw [formatError_eq_false_iff, htotal, htoNat]
    simp only [validDataTimeStampPos]
    refine ⟨by omega, h₀, h₁, by omega⟩
  · have hpred : 11 + data.length - 1 = 10 + data.length := by omega
    simp only [checkValueData, hpred, hsum, decide_true]

/-- **Packed valid data is parsed.** -/
theorem parseValidData_packed {place : Place} {p : Mem} {t : Int} {timeOffset : UInt32}
    {cmd : UInt16} {data : List UInt8}
    (hread : p.read 0 (11 + data.length) = packValidData t timeOffset cmd.toUInt32 data)
    (hlen : data.length ≤ 501) (trace : List Access) :
    Carries (parseValidData now pro reply place p (11 + data.length) trace) now
      (timeOffset + UInt32.ofInt t) cmd data := by
  obtain ⟨-, -, -, hstamp, hcmd, hdata, -⟩ := (read_validData_iff p t timeOffset _ data).mp hread
  obtain ⟨hret, hoffset, hcmd', hlen', hdata'⟩ :=
    parseValidData_of_validFrame now pro reply place (validFrame_of_packed hread hlen) trace
  have hint : ((11 + data.length : ℕ) : Int) - validDataDataPos - 1 = data.length := by
    simp only [validDataDataPos]
    omega
  have hsize : sizeT data.length = data.length := by
    simp only [sizeT]
    omega
  rw [hint] at hlen' hdata'
  rw [hsize] at hdata'
  exact ⟨hret, by rw [hoffset, hstamp], by rw [hcmd', hcmd, UInt16.toUInt16_toUInt32], hlen',
    hdata'.trans hdata⟩

/-- Decrypting undoes encrypting, of as many bytes as there can be. -/
def Inverts (encrypt decrypt : List UInt8 → List UInt8) : Prop :=
  ∀ plain : List UInt8, 0 < plain.length → plain.length ≤ validDataMaxLen →
    0 < (encrypt plain).length ∧ (encrypt plain).length < 2 ^ 16 ∧
      decrypt (encrypt plain) = plain

/-- Decrypting undoes encrypting in a mode that packets can have. -/
def EncIf.Undoes (enc : EncIf) : Encrypt → Prop
  | .null => True
  | .rsa => Inverts enc.encryptRsa enc.decryptRsa
  | .aes => Inverts enc.encryptAes enc.decryptAes
  | .init => False

/-- The valid data is found again in what was made of it, in the packet or in `data_buf`. -/
def Recovers (enc : EncIf) (now : Int) (pro : Protocol) (reply : Reply) (mode : Encrypt)
    (plain : List UInt8) : Prop :=
  ∃ packet, packCommData enc mode plain = some packet ∧
    ∀ heap buf : Mem, buf.read 0 packet.length = packet →
      ∃ place p trace, p.read 0 plain.length = plain ∧
        parsePackage enc now (some heap) pro reply buf packet.length =
          parseValidData now pro reply place p plain.length trace

/-- Without encryption it is in the packet. -/
theorem recovers_null {plain : List UInt8} (hpos : 0 < plain.length)
    (hmax : plain.length ≤ validDataMaxLen) : Recovers enc now pro reply .null plain := by
  have hlt : plain.length < 2 ^ 16 := Nat.lt_of_le_of_lt hmax (by decide)
  have hne : ¬ plain.length = 0 := by omega
  refine ⟨commFrame Encrypt.null.byte plain, ?_, fun heap buf hread => ?_⟩
  · simp only [packCommData, Option.bind_eq_bind, Option.bind_some, hne, if_false]
  · obtain ⟨h₀, h₁, hlen, hdata⟩ := fields_of_read hlt hread
    refine ⟨.buf, fun i => buf (commDataValidDataPos + i),
      [.readBuf 0 1, .readBuf 2 2, .readBuf 1 1], ?_, ?_⟩
    · rw [Mem.read_offset, Nat.add_zero]
      exact hdata
    · simp only [parsePackage, h₀, h₁, hlen, length_commFrame, Nat.add_comm 4, ne_eq, not_true,
        if_true, if_false]

/-- In a mode that packs with `encrypt` and parses with `decrypt` it is in `data_buf`. -/
theorem recovers_of_inverts {mode : Encrypt} {encrypt decrypt : List UInt8 → List UInt8}
    (hinverts : Inverts encrypt decrypt) {plain : List UInt8} (hpos : 0 < plain.length)
    (hmax : plain.length ≤ validDataMaxLen)
    (hpack : packCommData enc mode plain =
      if (encrypt plain).length = 0 then none else some (commFrame mode.byte (encrypt plain)))
    (hparse : ∀ heap buf : Mem, buf 0 = commDataHeader → buf 1 = mode.byte →
      parsePackage enc now (some heap) pro reply buf
          ((ofBe16 (buf 2) (buf 3)).toNat + commDataValidDataPos) =
        parseEncrypted decrypt now heap pro reply buf (ofBe16 (buf 2) (buf 3)).toNat
          [.readBuf 0 1, .readBuf 2 2, .readBuf 1 1]) :
    Recovers enc now pro reply mode plain := by
  obtain ⟨hsome, hlt, hplain⟩ := hinverts plain hpos hmax
  have hne : ¬ (encrypt plain).length = 0 := by omega
  have hne' : ¬ plain.length = 0 := by omega
  refine ⟨commFrame mode.byte (encrypt plain), by rw [hpack, if_neg hne], fun heap buf hread => ?_⟩
  obtain ⟨h₀, h₁, hlen, hdata⟩ := fields_of_read hlt hread
  refine ⟨.dataBuf, heap.write 0 plain, [.readBuf 0 1, .readBuf 2 2, .readBuf 1 1] ++
    [.readBuf commDataValidDataPos (encrypt plain).length, .writeDataBuf plain.length],
    Mem.read_write_self heap 0 plain, ?_⟩
  have hcall := hparse heap buf h₀ h₁
  rw [hlen, Nat.add_comm] at hcall
  rw [length_commFrame, hcall]
  simp only [parseEncrypted, hdata, hplain, hne', if_false]

/-- Where decrypting undoes encrypting, the valid data is found again. -/
theorem recovers_of_undoes {mode : Encrypt} (hmode : enc.Undoes mode) {plain : List UInt8}
    (hpos : 0 < plain.length) (hmax : plain.length ≤ validDataMaxLen) :
    Recovers enc now pro reply mode plain := by
  cases mode with
  | null => exact recovers_null hpos hmax
  | rsa =>
      refine recovers_of_inverts hmode hpos hmax rfl fun heap buf h₀ h₁ => ?_
      have hrsa : ¬ Encrypt.rsa.byte = Encrypt.null.byte := by decide
      simp only [parsePackage, h₀, h₁, ne_eq, not_true, hrsa, if_true, if_false]
  | aes =>
      refine recovers_of_inverts hmode hpos hmax rfl fun heap buf h₀ h₁ => ?_
      have hnull : ¬ Encrypt.aes.byte = Encrypt.null.byte := by decide
      have hrsa : ¬ Encrypt.aes.byte = Encrypt.rsa.byte := by decide
      simp only [parsePackage, h₀, h₁, ne_eq, not_true, hnull, hrsa, if_true, if_false]
  | init => exact hmode.elim

/-- Valid data that passes the checks and is long enough was packed. -/
theorem packed_of_validFrame {p : Mem} {k : ℕ} (h : ValidFrame p (11 + k)) {t : Int}
    {timeOffset : UInt32}
    (hstamp : timeOffset + UInt32.ofInt t = ofBe32 (p 4) (p 5) (p 6) (p 7)) :
    p.read 0 (11 + k) = packValidData t timeOffset (ofBe16 (p 8) (p 9)).toUInt32
      (p.read validDataDataPos k) := by
  obtain ⟨hformat, hcheck⟩ := h
  obtain ⟨-, h₀, h₁, hlen⟩ := (formatError_eq_false_iff p (11 + k)).mp hformat
  have hlength : (p.read validDataDataPos k).length = k := Mem.length_read _ _ _
  have hiff := read_validData_iff p t timeOffset (ofBe16 (p 8) (p 9)).toUInt32
    (p.read validDataDataPos k)
  rw [hlength] at hiff
  refine hiff.mpr ⟨h₀, h₁, ?_, hstamp.symm,
    (UInt16.toUInt16_toUInt32 _).symm, rfl, ?_⟩
  · apply UInt16.toNat_inj.mp
    have hlt := (ofBe16 (p 2) (p 3)).toNat_lt
    simp only [validDataTimeStampPos] at hlen
    rw [UInt16.toNat_ofNat']
    omega
  · have hpred : 11 + k - 1 = 10 + k := by omega
    simpa only [checkValueData, hpred, decide_eq_true_eq] using hcheck

/-- **What is accepted without encryption was packed.** -/
theorem packed_of_success {heap buf : Mem} {bufLen : ℕ} {o : Outcome}
    (ho : parsePackage enc now (some heap) pro reply buf bufLen = o)
    (htype : buf 1 = Encrypt.null.byte) (hret : o.ret = .success) (hlen : 0 ≤ o.reply.dataLen)
    {t : Int} {timeOffset : UInt32}
    (hstamp : timeOffset + UInt32.ofInt t =
      o.pro.timeStampOffset.toUInt32 + UInt32.ofInt now) :
    packCommData enc .null (packValidData t timeOffset o.reply.cmd
      (o.reply.data.read 0 o.reply.dataLen.toNat)) = some (buf.read 0 bufLen) := by
  rw [← ho] at hret
  obtain ⟨-, haccepts⟩ := (parsePackage_success_iff htype).mp hret
  rw [parsePackage_of_accepts htype haccepts] at ho
  obtain ⟨hheader, hlength, hvalid⟩ := haccepts
  obtain ⟨-, hoffset, hcmd, hdataLen, hdata⟩ := parseValidData_of_validFrame now pro reply .buf
    hvalid [.readBuf 0 1, .readBuf 2 2, .readBuf 1 1]
  rw [ho] at hoffset hcmd hdataLen hdata
  generalize hn : (ofBe16 (buf 2) (buf 3)).toNat = n at hlength hvalid hdataLen hdata
  rw [hdataLen] at hlen
  simp only [validDataDataPos] at hlen hdataLen hdata
  obtain ⟨k, rfl⟩ : ∃ k, n = 11 + k := ⟨n - 11, by omega⟩
  have hk : o.reply.dataLen.toNat = k := by omega
  have hsize : sizeT (((11 + k : ℕ) : Int) - (10 : ℕ) - 1) = k := by
    have hlt := (ofBe16 (buf 2) (buf 3)).toNat_lt
    simp only [sizeT]
    omega
  rw [hsize] at hdata
  rw [hoffset, UInt32.toUInt32_toInt32, UInt32.sub_add_cancel] at hstamp
  have hplain := packed_of_validFrame hvalid hstamp
  have hcomm : packCommData enc .null (Mem.read (fun i => buf (commDataValidDataPos + i)) 0
      (11 + k)) = some (buf.read 0 bufLen) := by
    have hlenplain : (buf.read commDataValidDataPos (11 + k)).length = 11 + k :=
      Mem.length_read _ _ _
    have hne : ¬ (buf.read commDataValidDataPos (11 + k)).length = 0 := by omega
    have hframe := read_commFrame_iff buf Encrypt.null.byte (buf.read commDataValidDataPos (11 + k))
    rw [hlenplain, Nat.add_comm 4, hlength] at hframe
    rw [Mem.read_offset, Nat.add_zero]
    simp only [packCommData, Option.bind_eq_bind, Option.bind_some, hne, if_false]
    rw [← hframe.mpr ⟨hheader, htype, ?_, rfl⟩]
    rw [← hn, UInt16.ofNat_toNat]
  rw [hk, hcmd, hdata, ← hplain, hcomm]

/-- **The codec.** What was packed, at whatever time and with whatever offset, is parsed
with its command, its data and its time stamp, if decrypting undoes encrypting. And what is
accepted without encryption, with a length that is not negative, is byte for byte what
packing its command and data with its time stamp gives. -/
theorem codec (enc : EncIf) (now : Int) (heap : Mem) (pro : Protocol) (reply : Reply) :
    (∀ mode, enc.Undoes mode → ∀ (t : Int) (timeOffset : Int32) (cmd : UInt16)
        (data : List UInt8), data.length ≤ 501 →
      ∃ packet, packCommData enc mode
          (packValidData t timeOffset.toUInt32 cmd.toUInt32 data) = some packet ∧
        ∀ buf : Mem, buf.read 0 packet.length = packet →
          Carries (parsePackage enc now (some heap) pro reply buf packet.length) now
            (timeOffset.toUInt32 + UInt32.ofInt t) cmd data) ∧
    ∀ (buf : Mem) (bufLen : ℕ) (o : Outcome),
      parsePackage enc now (some heap) pro reply buf bufLen = o →
      buf 1 = Encrypt.null.byte → o.ret = .success → 0 ≤ o.reply.dataLen →
      ∀ (t : Int) (timeOffset : Int32), timeOffset.toUInt32 + UInt32.ofInt t =
          o.pro.timeStampOffset.toUInt32 + UInt32.ofInt now →
        packCommData enc .null (packValidData t timeOffset.toUInt32 o.reply.cmd
          (o.reply.data.read 0 o.reply.dataLen.toNat)) = some (buf.read 0 bufLen) := by
  constructor
  · intro mode hmode t timeOffset cmd data hlen
    have hplain := length_packValidData t timeOffset.toUInt32 cmd.toUInt32 data
    have hmax : (packValidData t timeOffset.toUInt32 cmd.toUInt32 data).length ≤
        validDataMaxLen := by
      rw [hplain, validDataMaxLen]
      omega
    obtain ⟨packet, hpack, hrecover⟩ : Recovers enc now pro reply mode _ :=
      recovers_of_undoes hmode (by omega) hmax
    refine ⟨packet, hpack, fun buf hread => ?_⟩
    obtain ⟨place, p, trace, hp, hparse⟩ := hrecover heap buf hread
    rw [hplain] at hp hparse
    rw [hparse]
    exact parseValidData_packed hp hlen trace
  · intro buf bufLen o ho htype hret hlen t timeOffset hstamp
    exact packed_of_success ho htype hret hlen hstamp

end Parse

/-- The functions of `enc_if.c` undo each other. -/
theorem encIf_undoes {mode : Encrypt} (h : mode ≠ .init) : encIf.Undoes mode := by
  have hid : Inverts id id := by
    intro plain hpos hmax
    exact ⟨hpos, Nat.lt_of_le_of_lt hmax (by decide), rfl⟩
  cases mode with
  | null => trivial
  | rsa => exact hid
  | aes => exact hid
  | init => exact absurd rfl h

/-- The packet of a server that a comment in `main.c` has. -/
def serverPacket : List UInt8 :=
  [0x58, 0x00, 0x00, 0x0C, 0x4A, 0x5A, 0x00, 0x08, 0x11, 0x11, 0x11, 0x11, 0x00, 0x07, 0x01, 0xF8]

/-- Memory with a packet at its start and zeros behind it. -/
def received (packet : List UInt8) : Mem := Mem.write (fun _ => 0) 0 packet

/-- Variables that were never assigned. -/
def noReply : Reply := ⟨0, fun _ => 0, 0⟩

/-- What is made in `AES` mode is parsed, and the server's packet is what packing what is
parsed from it gives. -/
theorem codec_server_packet :
    (∃ packet, packCommData encIf .aes (packValidData 5 3 2 [1, 2, 3]) = some packet ∧
      Carries (parsePackage encIf 7 (some fun _ => 0) ⟨.init, 0⟩ noReply (received packet)
        packet.length) 7 8 2 [1, 2, 3]) ∧
    packCommData encIf .null (packValidData 0 0x11111111 7 [1]) = some serverPacket := by
  constructor
  · obtain ⟨packet, hpack, hparse⟩ := (codec encIf 7 (fun _ => 0) ⟨.init, 0⟩ noReply).1 .aes
      (encIf_undoes (by decide)) 5 3 2 [1, 2, 3] (by decide)
    exact ⟨packet, hpack, hparse (received packet) (Mem.read_write_self _ 0 packet)⟩
  · exact (codec encIf 0 (fun _ => 0) ⟨.init, 0⟩ noReply).2 (received serverPacket) 16 _ rfl
      (by decide) (by decide) (by decide) 0 0x11111111 (by decide)

/-! ## Corruption -/

/-- The checksum sees a change of one byte, its own included. -/
theorem eq_of_checkValueData {p p' : Mem} {n k : ℕ} (hk : k < n)
    (h : checkValueData p n = true) (h' : checkValueData p' n = true)
    (hsame : ∀ j < n, j ≠ k → p' j = p j) : p' k = p k := by
  simp only [checkValueData, decide_eq_true_eq] at h h'
  by_cases hlast : k = n - 1
  · have hread : p'.read 0 (n - 1) = p.read 0 (n - 1) := by
      apply Mem.read_congr
      intro a _ ha
      exact hsame a (by omega) (by omega)
    rw [hlast, ← h, ← h', hread]
  · have hsum : p' (n - 1) = p (n - 1) := hsame (n - 1) (by omega) (by omega)
    have hpre : p'.read 0 k = p.read 0 k := by
      apply Mem.read_congr
      intro a _ ha
      exact hsame a (by omega) (by omega)
    have hpost : p'.read (k + 1) (n - 1 - 1 - k) = p.read (k + 1) (n - 1 - 1 - k) := by
      apply Mem.read_congr
      intro a ha ha'
      exact hsame a (by omega) (by omega)
    have hlt : k < n - 1 := by omega
    rw [Mem.read_eq_append_cons p hlt] at h
    rw [Mem.read_eq_append_cons p' hlt, hpre, hpost, hsum, ← h] at h'
    exact eq_of_byteSum_eq h'

/-- Valid data that passes the checks does not do so with one byte changed. -/
theorem ValidFrame.eq_of_agree {p p' : Mem} {n k : ℕ} (hk : k < n) (h : ValidFrame p n)
    (h' : ValidFrame p' n) (hsame : ∀ j < n, j ≠ k → p' j = p j) : p' k = p k := by
  obtain ⟨-, h₀, h₁, hlen⟩ := (formatError_eq_false_iff p n).mp h.1
  obtain ⟨-, h₀', h₁', hlen'⟩ := (formatError_eq_false_iff p' n).mp h'.1
  obtain ⟨h₂, h₃⟩ : p' 2 = p 2 ∧ p' 3 = p 3 :=
    ofBe16_inj (UInt16.toNat_inj.mp (Nat.add_right_cancel (hlen'.trans hlen.symm)))
  rcases k with _ | _ | _ | _ | k
  · rw [h₀, h₀']
  · rw [h₁, h₁']
  · exact h₂
  · exact h₃
  · exact eq_of_checkValueData hk h.2 h'.2 hsame

/-- Two packets that are both accepted do not differ in one byte only, the type apart. -/
theorem Accepts.eq_of_agree {buf buf' : Mem} {bufLen i : ℕ} (hi : i < bufLen) (htype : i ≠ 1)
    (h : Accepts buf bufLen) (h' : Accepts buf' bufLen)
    (hsame : ∀ j < bufLen, j ≠ i → buf' j = buf j) : buf' i = buf i := by
  have hlen := Nat.add_right_cancel (h'.length.trans h.length.symm)
  obtain ⟨h₂, h₃⟩ := ofBe16_inj (UInt16.toNat_inj.mp hlen)
  rcases i with _ | _ | _ | _ | k
  · rw [h.header, h'.header]
  · exact absurd rfl htype
  · exact h₂
  · exact h₃
  · -- inside the valid data
    have hbuf := h.length
    simp only [commDataValidDataPos] at hbuf
    have hvalid' := h'.valid
    rw [hlen] at hvalid'
    have hbyte := h.valid.eq_of_agree (k := k) (by omega) hvalid' ?_
    · simpa only [commDataValidDataPos, Nat.add_comm 4] using hbyte
    · intro j hj hne
      exact hsame (4 + j) (by omega) (by omega)

/-- **A change of one byte is rejected.** If a packet without encryption is accepted, and a
byte of it other than the type is changed, then the call fails and the time stamp offset,
the command, the data and their length are what they were. -/
theorem corruption_rejected (enc : EncIf) {now : Int} {heap : Option Mem} {pro : Protocol}
    {reply : Reply} {buf : Mem} {bufLen : ℕ} (htype : buf 1 = Encrypt.null.byte)
    (haccept : (parsePackage enc now heap pro reply buf bufLen).ret = .success) {buf' : Mem}
    {i : ℕ} (hi : i < bufLen) (hpos : i ≠ 1) (hchange : buf' i ≠ buf i)
    (hsame : ∀ j < bufLen, j ≠ i → buf' j = buf j) (now' : Int) (heap' : Option Mem)
    (pro' : Protocol) (reply' : Reply) :
    (parsePackage enc now' heap' pro' reply' buf' bufLen).ret ≠ .success ∧
      (parsePackage enc now' heap' pro' reply' buf' bufLen).pro = pro' ∧
      (parsePackage enc now' heap' pro' reply' buf' bufLen).reply = reply' := by
  obtain ⟨-, haccepts⟩ := (parsePackage_success_iff htype).mp haccept
  have htype' : buf' 1 = Encrypt.null.byte := by
    have hlen := haccepts.length
    simp only [commDataValidDataPos] at hlen
    rw [hsame 1 (by omega) hpos.symm, htype]
  have hret : (parsePackage enc now' heap' pro' reply' buf' bufLen).ret ≠ .success := by
    intro hret
    obtain ⟨-, haccepts'⟩ := (parsePackage_success_iff htype').mp hret
    exact hchange (haccepts.eq_of_agree hi hpos haccepts' hsame)
  exact ⟨hret, parsePackage_unchanged hret⟩

/-- The server's packet with another command. -/
theorem corruption_rejected_server_packet :
    (parsePackage encIf 0 (some fun _ => 0) ⟨.init, 0⟩ noReply (received serverPacket) 16).ret =
      .success ∧
    (parsePackage encIf 0 (some fun _ => 0) ⟨.init, 0⟩ noReply
      (received (serverPacket.set 13 0x09)) 16).ret ≠ .success := by
  have haccept : (parsePackage encIf 0 (some fun _ => 0) ⟨.init, 0⟩ noReply
      (received serverPacket) 16).ret = .success := by decide
  refine ⟨haccept, ?_⟩
  have hsame : ∀ j < 16, j ≠ 13 →
      received (serverPacket.set 13 0x09) j = received serverPacket j := by decide
  exact (corruption_rejected encIf (by decide) haccept (i := 13) (by decide) (by decide)
    (by decide) hsame 0 (some fun _ => 0) ⟨.init, 0⟩ noReply).1

end CCode.Ota
