import CCode.Ota.Codec

/-!
# The accesses of the parser

The accesses of a call of `parse_package` are judged one after the other. The packet has as
many bytes as were received; `data_buf` has as many as were decrypted into it, and none any
more once it is freed.

`parsePackage_safe_iff` says for which datagrams all of them are in bounds. The others are
not rejected: packets too short for their length field, self-consistent valid data too
short for a time stamp and a command, data too long for the array of the caller or for
`data_buf`, and an encrypted packet of the wrong format, for which the parser prints two
bytes of the buffer that it has just freed.

## Main definitions

* `InBounds`, `Safe` — all accesses are in bounds, and the length that is returned is right.
* `ContainedData`, `Contained` — the datagrams for which they are.
-/

namespace CCode.Ota

open CCode.Lib

/-! ## Judging accesses -/

/-- An access is in bounds, where `bufLen` bytes were received and `data_buf` has `plainLen`
decrypted bytes. -/
def Access.Ok (bufLen plainLen : ℕ) : Access → Prop
  | readBuf off len => off + len ≤ bufLen
  | readDataBuf off len => off + len ≤ plainLen
  | writeDataBuf len => len ≤ validDataMaxLen
  | writeData len => len ≤ validDataMaxLen
  | free => True

/-- How many decrypted bytes `data_buf` has after an access. -/
def Access.plainLen (plainLen : ℕ) : Access → ℕ
  | writeDataBuf len => len
  | free => 0
  | _ => plainLen

/-- All accesses are in bounds. -/
def InBounds (bufLen : ℕ) : ℕ → List Access → Prop
  | _, [] => True
  | plainLen, a :: trace => a.Ok bufLen plainLen ∧ InBounds bufLen (a.plainLen plainLen) trace

theorem inBounds_append (bufLen plainLen : ℕ) (trace trace' : List Access) :
    InBounds bufLen plainLen (trace ++ trace') ↔
      InBounds bufLen plainLen trace ∧
        InBounds bufLen (trace.foldl Access.plainLen plainLen) trace' := by
  induction trace generalizing plainLen with
  | nil => simp [InBounds]
  | cons a trace ih => simp only [List.cons_append, InBounds, ih, List.foldl_cons, and_assoc]

/-- The accesses of the call are in bounds, and so is the length it returns. -/
def Safe (bufLen : ℕ) (o : Outcome) : Prop :=
  InBounds bufLen 0 o.trace ∧
    (o.ret = .success → 0 ≤ o.reply.dataLen ∧ o.reply.dataLen ≤ validDataMaxLen)

/-- The valid data of a packet is parsed in bounds. Without encryption there are two bytes
that a message can print, and what is accepted has a time stamp, a command and a checksum,
and fits `data`. With encryption there is nothing to decrypt, or it fits `data_buf`, has the
right format, and has these fields if it is accepted. -/
def ContainedData (type : UInt8) (p : Mem) (n : ℕ) : Prop :=
  (type = Encrypt.null.byte → 2 ≤ n ∧ (ValidFrame p n → 11 ≤ n ∧ n ≤ 523)) ∧
  (type = Encrypt.rsa.byte ∨ type = Encrypt.aes.byte →
    n = 0 ∨ n ≤ validDataMaxLen ∧ formatError p n = false ∧
      (checkValueData p n = true → 11 ≤ n))

/-- The datagrams that are parsed in bounds: one with the right header has a length field,
and if that is right, its valid data is parsed in bounds. -/
def Contained (buf : Mem) (bufLen : ℕ) : Prop :=
  buf 0 = commDataHeader →
    commDataValidDataPos ≤ bufLen ∧
      ((ofBe16 (buf 2) (buf 3)).toNat + commDataValidDataPos = bufLen →
        ContainedData (buf 1) (fun i => buf (commDataValidDataPos + i))
          (ofBe16 (buf 2) (buf 3)).toNat)

/-! ## The valid data -/

/-- The valid data has `n` bytes where it is. -/
def Place.Holds (bufLen plainLen n : ℕ) : Place → Prop
  | buf => commDataValidDataPos + n = bufLen
  | dataBuf => plainLen = n

section ValidData

variable {bufLen plainLen n : ℕ} {place : Place} {p : Mem}

/-- A read of it is in bounds exactly if it is a read of these bytes. -/
theorem read_ok_iff (h : place.Holds bufLen plainLen n) (off len : ℕ) :
    (place.read off len).Ok bufLen plainLen ↔ off + len ≤ n := by
  cases place with
  | buf =>
      simp only [Place.Holds] at h
      simp only [Place.read, Access.Ok]
      omega
  | dataBuf =>
      simp only [Place.Holds] at h
      simp only [Place.read, Access.Ok, h]

@[simp] theorem plainLen_read (off len : ℕ) :
    (place.read off len).plainLen plainLen = plainLen := by
  cases place <;> rfl

/-- The check of the format reads what is there. -/
theorem inBounds_formatReads (h : place.Holds bufLen plainLen n) :
    InBounds bufLen plainLen (formatReads place p n) ∧
      (formatReads place p n).foldl Access.plainLen plainLen = plainLen := by
  by_cases hlen : n < validDataTimeStampPos
  · simp [formatReads, hlen, InBounds]
  · have hn : 4 ≤ n := Nat.le_of_not_lt hlen
    have h₀ : (0 : ℕ) + 1 ≤ n := by omega
    have h₁ : (1 : ℕ) + 1 ≤ n := by omega
    have h₂ : (2 : ℕ) + 2 ≤ n := by omega
    simp only [formatReads, hlen, if_false]
    split_ifs
    all_goals simp only [InBounds, read_ok_iff h, plainLen_read, h₀, h₁, h₂, List.foldl_cons,
      List.foldl_nil, and_self]

/-- What precedes the valid data in a trace stays in front. -/
theorem parseValidData_trace (now : Int) (pro : Protocol) (reply : Reply) (trace : List Access) :
    (parseValidData now pro reply place p n trace).trace =
      trace ++ (parseValidData now pro reply place p n []).trace := by
  simp only [parseValidData]
  split_ifs <;> simp

/-- The length that is copied out of the valid data, where there is one. -/
theorem sizeT_dataLen (hn : n < 2 ^ 16) :
    sizeT ((n : Int) - validDataDataPos - 1) = if 11 ≤ n then n - 11 else 2 ^ 64 + n - 11 := by
  simp only [sizeT, validDataDataPos]
  split_ifs <;> omega

/-- The message about the format prints what is left of the header. -/
theorem inBounds_message_iff (h : place.Holds bufLen plainLen n) :
    InBounds bufLen plainLen [.free, place.read 0 1, place.read 1 1] ↔ place = .buf ∧ 2 ≤ n := by
  cases place with
  | buf =>
      simp only [Place.Holds, commDataValidDataPos] at h
      simp only [InBounds, Place.read, Access.Ok, commDataValidDataPos, true_and, and_true]
      omega
  | dataBuf => simp [InBounds, Place.read, Access.Ok, Access.plainLen]

/-- What is accepted is copied in bounds if it is neither too short nor too long. -/
theorem inBounds_copy_iff (h : place.Holds bufLen plainLen n) (hn : n < 2 ^ 16) :
    InBounds bufLen plainLen [place.read validDataTimeStampPos 4, place.read validDataCmdPos 2,
        place.read validDataDataPos (sizeT (n - validDataDataPos - 1)),
        .writeData (sizeT (n - validDataDataPos - 1)), .free] ↔ 11 ≤ n ∧ n ≤ 523 := by
  have hsize := sizeT_dataLen hn
  generalize sizeT ((n : Int) - validDataDataPos - 1) = len at hsize
  have hwrite : (Access.writeData len).Ok bufLen plainLen ↔ len ≤ 512 := Iff.rfl
  have hfree : Access.free.Ok bufLen ((Access.writeData len).plainLen plainLen) ↔ True := Iff.rfl
  simp only [InBounds, read_ok_iff h, plainLen_read, hwrite, hfree, and_true,
    validDataTimeStampPos, validDataCmdPos, validDataDataPos]
  split_ifs at hsize <;> omega

/-- **The valid data is parsed in bounds** exactly if the format is right or the message can
still print the header, and what is accepted is neither too short nor too long. -/
theorem parseValidData_inBounds_iff (now : Int) (pro : Protocol) (reply : Reply)
    (h : place.Holds bufLen plainLen n) (hn : n < 2 ^ 16) :
    InBounds bufLen plainLen (parseValidData now pro reply place p n []).trace ↔
      (formatError p n = true → place = .buf ∧ 2 ≤ n) ∧
        (ValidFrame p n → 11 ≤ n ∧ n ≤ 523) := by
  obtain ⟨hreads, hheld⟩ := inBounds_formatReads (p := p) h
  have hwhole : InBounds bufLen plainLen [place.read 0 n] := by
    simp only [InBounds, read_ok_iff h, Nat.zero_add, le_refl, and_self]
  by_cases hformat : formatError p n = true
  · have hvalid : ¬ ValidFrame p n := fun hv => by simp [hv.1] at hformat
    simp only [parseValidData, hformat, if_true, List.nil_append, inBounds_append, hreads, hheld,
      true_and, hvalid, false_imp_iff, and_true, true_imp_iff]
    exact inBounds_message_iff h
  · rw [Bool.not_eq_true] at hformat
    by_cases hcheck : checkValueData p n = true
    · have hvalid : ValidFrame p n := ⟨hformat, hcheck⟩
      simp only [parseValidData, hformat, hcheck, Bool.false_eq_true, if_false, not_true,
        List.nil_append, inBounds_append, hreads, hheld, hwhole, true_and, List.foldl_append,
        List.foldl_cons, List.foldl_nil, plainLen_read, hvalid, true_imp_iff, false_imp_iff]
      exact inBounds_copy_iff h hn
    · have hvalid : ¬ ValidFrame p n := fun hv => hcheck hv.2
      have hfree : ∀ d, InBounds bufLen d [.free] := fun d => ⟨trivial, trivial⟩
      simp only [parseValidData, hformat, hcheck, Bool.false_eq_true, if_false, if_true,
        not_false_eq_true, List.nil_append, inBounds_append, hreads, hheld, hwhole, hfree,
        hvalid, false_imp_iff, and_self]

/-- The length that is returned is in bounds if the accesses are. -/
theorem parseValidData_dataLen {now : Int} {pro : Protocol} {reply : Reply} {trace : List Access}
    (hret : (parseValidData now pro reply place p n trace).ret = .success)
    (hlen : ValidFrame p n → 11 ≤ n ∧ n ≤ 523) :
    0 ≤ (parseValidData now pro reply place p n trace).reply.dataLen ∧
      (parseValidData now pro reply place p n trace).reply.dataLen ≤ validDataMaxLen := by
  have hvalid : ValidFrame p n := by
    by_contra hvalid
    exact (parseValidData_of_not_validFrame now pro reply place hvalid trace).1 hret
  obtain ⟨-, -, -, hdataLen, -⟩ := parseValidData_of_validFrame now pro reply place hvalid trace
  have hn := hlen hvalid
  rw [hdataLen]
  simp only [validDataDataPos, validDataMaxLen]
  omega

/-- The checks of the valid data see the valid data only. -/
theorem formatError_congr {p' : Mem} (h : ∀ i < n, p' i = p i) :
    formatError p' n = formatError p n := by
  by_cases hlen : n < validDataTimeStampPos
  · simp [formatError, hlen]
  · simp only [validDataTimeStampPos, Nat.not_lt] at hlen
    rw [formatError, formatError, h 0 (by omega), h 1 (by omega), h 2 (by omega), h 3 (by omega)]

theorem checkValueData_congr {p' : Mem} (hpos : 0 < n) (h : ∀ i < n, p' i = p i) :
    checkValueData p' n = checkValueData p n := by
  have hread : p'.read 0 (n - 1) = p.read 0 (n - 1) := by
    apply Mem.read_congr
    intro a _ ha
    exact h a (by omega)
  rw [checkValueData, checkValueData, hread, h (n - 1) (by omega)]

end ValidData

/-! ## The packet -/

/-- The accesses before the valid data. -/
theorem inBounds_outer {bufLen : ℕ} (h : commDataValidDataPos ≤ bufLen) :
    InBounds bufLen 0 [.readBuf 0 1, .readBuf 2 2, .readBuf 1 1] := by
  simp only [commDataValidDataPos] at h
  simp only [InBounds, Access.Ok, and_true]
  omega

/-- Without encryption. -/
theorem parseValidData_safe_iff (now : Int) (pro : Protocol) (reply : Reply) {p : Mem}
    {bufLen n : ℕ} (hlen : n + commDataValidDataPos = bufLen) (hn : n < 2 ^ 16) :
    Safe bufLen (parseValidData now pro reply .buf p n
        [.readBuf 0 1, .readBuf 2 2, .readBuf 1 1]) ↔
      2 ≤ n ∧ (ValidFrame p n → 11 ≤ n ∧ n ≤ 523) := by
  have hholds : Place.buf.Holds bufLen 0 n := (Nat.add_comm _ _).trans hlen
  have htrace := parseValidData_inBounds_iff (p := p) now pro reply hholds hn
  have houter : InBounds bufLen 0 [.readBuf 0 1, .readBuf 2 2, .readBuf 1 1] :=
    inBounds_outer (by omega)
  have hheld : [Access.readBuf 0 1, .readBuf 2 2, .readBuf 1 1].foldl Access.plainLen 0 = 0 := rfl
  have hshort : n < 2 → formatError p n = true := by
    intro hlt
    have hlt' : n < validDataTimeStampPos := Nat.lt_trans hlt (by decide)
    simp [formatError, hlt']
  rw [Safe, parseValidData_trace, inBounds_append, hheld, htrace]
  constructor
  · rintro ⟨⟨-, hformat, hvalid⟩, -⟩
    refine ⟨?_, hvalid⟩
    by_contra hlt
    exact hlt (hformat (hshort (by omega))).2
  · rintro ⟨htwo, hvalid⟩
    exact ⟨⟨houter, fun _ => ⟨rfl, htwo⟩, hvalid⟩, fun hret => parseValidData_dataLen hret hvalid⟩

/-- With encryption, where decrypting copies. -/
theorem parseEncrypted_safe_iff (now : Int) (pro : Protocol) (reply : Reply) (heap buf : Mem)
    {bufLen n : ℕ} (hlen : n + commDataValidDataPos = bufLen) (hn : n < 2 ^ 16) :
    Safe bufLen (parseEncrypted id now heap pro reply buf n
        [.readBuf 0 1, .readBuf 2 2, .readBuf 1 1]) ↔
      n = 0 ∨ n ≤ validDataMaxLen ∧
        formatError (fun i => buf (commDataValidDataPos + i)) n = false ∧
        (checkValueData (fun i => buf (commDataValidDataPos + i)) n = true → 11 ≤ n) := by
  have hplain : (buf.read commDataValidDataPos n).length = n := Mem.length_read _ _ _
  have hsame : ∀ i < n, heap.write 0 (buf.read commDataValidDataPos n) i =
      buf (commDataValidDataPos + i) := by
    intro i hi
    have hwrite := Mem.write_apply heap 0 i (show i < (buf.read commDataValidDataPos n).length by
      omega)
    rw [Nat.zero_add] at hwrite
    rw [hwrite, Mem.getElem_read]
  have hread : InBounds bufLen 0 [.readBuf 0 1, .readBuf 2 2, .readBuf 1 1,
      .readBuf commDataValidDataPos n, .writeDataBuf n] ↔ n ≤ validDataMaxLen := by
    simp only [commDataValidDataPos] at hlen ⊢
    simp only [InBounds, Access.Ok, and_true]
    omega
  by_cases hpos : n = 0
  · -- there is nothing to decrypt
    have hcall : parseEncrypted id now heap pro reply buf n
        [.readBuf 0 1, .readBuf 2 2, .readBuf 1 1] =
        ⟨.decryptError, pro, reply, [.readBuf 0 1, .readBuf 2 2, .readBuf 1 1,
          .readBuf commDataValidDataPos n, .writeDataBuf n] ++ [.free]⟩ := by
      simp only [parseEncrypted, id, hplain, if_pos hpos]
      rfl
    have hin := hread.mpr (by omega)
    rw [hcall, Safe, inBounds_append]
    simp only [hpos, true_or, iff_true]
    exact ⟨⟨hpos ▸ hin, trivial, trivial⟩, fun hret => by cases hret⟩
  · have hcall : parseEncrypted id now heap pro reply buf n
        [.readBuf 0 1, .readBuf 2 2, .readBuf 1 1] =
        parseValidData now pro reply .dataBuf
          (heap.write 0 (buf.read commDataValidDataPos n)) n [.readBuf 0 1, .readBuf 2 2,
            .readBuf 1 1, .readBuf commDataValidDataPos n, .writeDataBuf n] := by
      simp only [parseEncrypted, id, hplain, if_neg hpos]
      rfl
    have hheld : [Access.readBuf 0 1, .readBuf 2 2, .readBuf 1 1,
        .readBuf commDataValidDataPos n, .writeDataBuf n].foldl Access.plainLen 0 = n := rfl
    have hholds : Place.dataBuf.Holds bufLen n n := rfl
    have htrace := parseValidData_inBounds_iff now pro reply
      (p := heap.write 0 (buf.read commDataValidDataPos n)) hholds hn
    have hformat := formatError_congr (p := fun i => buf (commDataValidDataPos + i)) hsame
    have hcheck := checkValueData_congr (p := fun i => buf (commDataValidDataPos + i))
      (Nat.pos_of_ne_zero hpos) hsame
    rw [hcall, Safe, parseValidData_trace, inBounds_append, hread, hheld, htrace]
    simp only [ValidFrame, hformat, hcheck, hpos, false_or, reduceCtorEq, false_and, imp_false,
      Bool.not_eq_true]
    constructor
    · rintro ⟨⟨hle, hfalse, hvalid⟩, -⟩
      exact ⟨hle, hfalse, fun htrue => (hvalid ⟨hfalse, htrue⟩).1⟩
    · rintro ⟨hle, hfalse, hvalid⟩
      have hmax : n ≤ 523 := Nat.le_trans hle (by decide)
      refine ⟨⟨hle, hfalse, fun h => ⟨hvalid h.2, hmax⟩⟩, fun hret => ?_⟩
      exact parseValidData_dataLen hret fun h => ⟨hvalid (hcheck.symm.trans h.2), hmax⟩

/-- A packet with the right header and length, by its type. -/
theorem parsePackage_safe_of_length {now : Int} {heap : Mem} {pro : Protocol} {reply : Reply}
    {buf : Mem} {bufLen : ℕ} (hheader : buf 0 = commDataHeader)
    (hlength : (ofBe16 (buf 2) (buf 3)).toNat + commDataValidDataPos = bufLen) :
    Safe bufLen (parsePackage encIf now (some heap) pro reply buf bufLen) ↔
      ContainedData (buf 1) (fun i => buf (commDataValidDataPos + i))
        (ofBe16 (buf 2) (buf 3)).toNat := by
  have hn := (ofBe16 (buf 2) (buf 3)).toNat_lt
  have hplain := parseValidData_safe_iff now pro reply
    (p := fun i => buf (commDataValidDataPos + i)) hlength hn
  have hcipher := parseEncrypted_safe_iff now pro reply heap buf hlength hn
  have hother : Safe bufLen ⟨.decryptError, pro, reply,
      [.readBuf 0 1, .readBuf 2 2, .readBuf 1 1] ++ [.free]⟩ := by
    refine ⟨(inBounds_append _ _ _ _).mpr ⟨inBounds_outer (by omega), trivial, trivial⟩, ?_⟩
    intro hret
    cases hret
  simp only [parsePackage, hheader, hlength, ne_eq, not_true, if_false, ContainedData]
  generalize buf 1 = type
  by_cases hnull : type = Encrypt.null.byte
  · have hne : ¬ (type = Encrypt.rsa.byte ∨ type = Encrypt.aes.byte) := by
      rw [hnull]
      decide
    rw [if_pos hnull, hplain]
    simp only [hnull, true_imp_iff, hnull ▸ hne, false_imp_iff, and_true]
  · rw [if_neg hnull]
    simp only [hnull, false_imp_iff, true_and]
    by_cases hrsa : type = Encrypt.rsa.byte
    · rw [if_pos hrsa]
      simp only [hrsa, true_or, true_imp_iff]
      exact hcipher
    · rw [if_neg hrsa]
      by_cases haes : type = Encrypt.aes.byte
      · rw [if_pos haes]
        simp only [haes, or_true, true_imp_iff]
        exact hcipher
      · rw [if_neg haes]
        simp only [hrsa, haes, or_self, false_imp_iff, iff_true]
        exact hother

/-- **Bounds.** For every datagram of at least one byte, whatever lies behind it, the parser
accesses nothing but the bytes received, the bytes decrypted and the arrays for the data,
and returns a length between 0 and 512, exactly if the datagram is contained or there is no
memory for `data_buf`. -/
theorem parsePackage_safe_iff (now : Int) (heap : Option Mem) (pro : Protocol) (reply : Reply)
    (buf : Mem) {bufLen : ℕ} (hlen : 1 ≤ bufLen) :
    Safe bufLen (parsePackage encIf now heap pro reply buf bufLen) ↔
      heap = none ∨ Contained buf bufLen := by
  cases heap with
  | none => simp [parsePackage, Safe, InBounds]
  | some heap =>
      simp only [reduceCtorEq, false_or, Contained]
      by_cases hheader : buf 0 = commDataHeader
      · by_cases hlength : (ofBe16 (buf 2) (buf 3)).toNat + commDataValidDataPos = bufLen
        · have hpos : commDataValidDataPos ≤ bufLen := by omega
          rw [parsePackage_safe_of_length hheader hlength]
          simp only [hheader, hlength, hpos, true_imp_iff, true_and]
        · have htrace : Safe bufLen ⟨.styleError, pro, reply,
              [.readBuf 0 1, .readBuf 2 2, .free]⟩ ↔ commDataValidDataPos ≤ bufLen := by
            simp only [Safe, InBounds, Access.Ok, reduceCtorEq, false_imp_iff, and_true,
              commDataValidDataPos]
            omega
          simp only [parsePackage, hheader, hlength, ne_eq, not_true, not_false_eq_true, if_true,
            if_false, htrace, true_imp_iff, false_imp_iff, and_true]
      · have htrace : Safe bufLen ⟨.styleError, pro, reply, [.readBuf 0 1, .free]⟩ :=
          ⟨⟨hlen, trivial, trivial⟩, fun hret => by cases hret⟩
        simp only [parsePackage, hheader, ne_eq, not_false_eq_true, if_true, htrace, false_imp_iff]

theorem parsePackage_safe_server_packet :
    Safe 16 (parsePackage encIf 0 (some fun _ => 0) ⟨.init, 0⟩ noReply (received serverPacket)
      16) := by
  refine (parsePackage_safe_iff 0 (some fun _ => 0) ⟨.init, 0⟩ noReply (received serverPacket)
    (by decide)).mpr (.inr fun _ => ⟨by decide, fun _ => ⟨fun _ => ⟨by decide, ?_⟩, ?_⟩⟩)
  · exact fun _ => by decide
  · exact fun h => absurd h (by decide)

/-- A packet whose two lengths and checksum are right, but without a time stamp and a
command. -/
def shortPacket : List UInt8 := [0x58, 0x00, 0x00, 0x05, 0x4A, 0x5A, 0x00, 0x01, 0xA5]

/-- It is accepted with a negative length, after as many bytes are copied as `memcpy` can. -/
theorem parsePackage_unsafe_short_packet :
    ¬ Safe 9 (parsePackage encIf 0 (some fun _ => 0) ⟨.init, 0⟩ noReply (received shortPacket)
      9) := by
  intro hsafe
  have hret : (parsePackage encIf 0 (some fun _ => 0) ⟨.init, 0⟩ noReply (received shortPacket)
      9).ret = .success := by decide
  have hlen : (parsePackage encIf 0 (some fun _ => 0) ⟨.init, 0⟩ noReply (received shortPacket)
      9).reply.dataLen = -6 := by decide
  have hpos := (hsafe.2 hret).1
  rw [hlen] at hpos
  exact absurd hpos (by decide)

end CCode.Ota
