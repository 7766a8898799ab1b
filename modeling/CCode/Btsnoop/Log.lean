import CCode.Lib.Bytes

/-!
# The packet log

`btsnoop_rec.c` writes the packets of a host controller to a file, and `btsnoop_parse/main.c` is
a program of its own that reads such a file and prints the packets. Both know the format
`| len | len | flags | drops | time | packet |` by its widths only. The writer has the length as
a big-endian `int`. The parser takes the two low bytes of it and reads as many bytes into a
buffer of 1024.

The writer runs on a little-endian machine. A read of the parser is `none` where it writes
behind the buffer; at the end of the file it may be a partial one.

## Main definitions

* `bswap`, `createBtsnoopRec`, `recordBtsnoop`, `logFile` — the writer.
* `fread`, `parseLoop`, `btsnoopParse` — the parser.
* `Packet`, `Packet.entry` — what is recorded, and what should be read back.
-/

namespace CCode.Btsnoop

open CCode.Lib

/-! ## The writer -/

/-- `_bswap`: the bytes of the first half change places with those of the second. -/
def bswap (dat : List UInt8) : List UInt8 :=
  (List.range (dat.length / 2)).foldl
    (fun dat i =>
      let tmp := dat.getD i 0
      (dat.set i (dat.getD (dat.length - 1 - i) 0)).set (dat.length - 1 - i) tmp) dat

/-- `struct timeval`. -/
structure Timeval where
  tvSec : ℤ
  tvUsec : ℤ

/-- `TIMEDIFF`. -/
abbrev timeDiff : UInt64 := 0x00dcddb30f2f8000

/-- `current_timestamp`: the bytes at the pointer that it returns. -/
def currentTimestamp (te : Timeval) : List UInt8 :=
  let milliseconds := UInt64.ofInt (te.tvSec * 1000000 + te.tvUsec) + timeDiff
  bswap (le32 milliseconds.toUInt32 ++ le32 (milliseconds >>> 32).toUInt32)

/-- `create_btsnoop_rec`: the file it makes. -/
def createBtsnoopRec : List UInt8 :=
  [0x62, 0x74, 0x73, 0x6E, 0x6F, 0x6F, 0x70, 0x00] ++ [0x00, 0x00, 0x00, 0x01] ++
    [0x00, 0x00, 0x03, 0xEA]

/-- `flag[3]`: the direction, and whether the packet is a command or an event. -/
def flagOf (hciData : List UInt8) (dataDir : UInt8) : UInt8 :=
  let flag := dataDir &&& 1
  if hciData.head? = some 1 ∨ hciData.head? = some 4 then flag ||| 0x02 else flag

/-- `record_btsnoop`. -/
def recordBtsnoop (fp hciData : List UInt8) (dataDir : UInt8) (te : Timeval) : List UInt8 :=
  let tLen := bswap (le32 (UInt32.ofNat hciData.length))
  fp ++ tLen ++ tLen ++ [0, 0, 0, flagOf hciData dataDir] ++ [0, 0, 0, 0] ++
    currentTimestamp te ++ hciData

/-- A packet of one byte or more, whose length is an `int`, with its direction and its time. -/
structure Packet where
  data : List UInt8
  ne_nil : data ≠ []
  length_lt : data.length < 2 ^ 31
  dir : UInt8
  time : Timeval

/-- The file after the packets have been recorded. -/
def logFile (packets : List Packet) : List UInt8 :=
  packets.foldl (fun fp p => recordBtsnoop fp p.data p.dir p.time) createBtsnoopRec

/-! ## The parser -/

/-- The length of `buf` in `main`. -/
abbrev bufLen : ℕ := 1024

/-- `fread(buf,n,1,fp)`: what it returns, the buffer, and what is left of the file. -/
def fread (buf : List UInt8) (n : ℕ) (fp : List UInt8) :
    Option (ℕ × List UInt8 × List UInt8) :=
  let got := fp.take n
  if got.length ≤ buf.length then
    some (if n ≠ 0 ∧ got.length = n then 1 else 0, got ++ buf.drop got.length, fp.drop n)
  else none

/-- What the parser has of a packet when it prints it, of the packet up to 32 bytes. -/
structure Entry where
  len : ℕ
  flag : UInt8
  data : List UInt8
  deriving DecidableEq, Repr

/-- The loop of `main`, with what is left of the file when it stops. -/
def parseLoop : ℕ → List UInt8 → List UInt8 → Option (List Entry × List UInt8)
  | 0, _, _ => none
  | fuel + 1, buf, file => do
      let (got, buf, fp) ← fread buf 4 file
      if got = 0 then some ([], file)
      else
        let len := (buf.getD 2 0).toNat * 2 ^ 8 + (buf.getD 3 0).toNat
        let (_, buf, fp) ← fread buf 4 fp
        let (_, buf, fp) ← fread buf 4 fp
        let flag := buf.getD 3 0
        let (_, buf, fp) ← fread buf 4 fp
        let (_, buf, fp) ← fread buf 8 fp
        let (_, buf, fp) ← fread buf len fp
        let (entries, rest) ← parseLoop fuel buf fp
        some (⟨len, flag, buf.take len⟩ :: entries, rest)

/-- `main`, with the buffer as it finds it. A round takes four bytes or more. -/
def btsnoopParse (buf : Vector UInt8 bufLen) (file : List UInt8) :
    Option (List Entry × List UInt8) := do
  let (_, buf, fp) ← fread buf.toList (8 + 4 + 4) file
  parseLoop (file.length + 1) buf fp

/-- What the parser should have of a packet. -/
def Packet.entry (p : Packet) : Entry := ⟨p.data.length, flagOf p.data p.dir, p.data⟩

/-! ## Records -/

/-- What is written for a packet. -/
def Packet.bytes (p : Packet) : List UInt8 := recordBtsnoop [] p.data p.dir p.time

theorem bswap_le32 (v : UInt32) : bswap (le32 v) = be32 v := by
  simp [bswap, le32, be32, List.range, List.range.loop]

theorem length_bswap (dat : List UInt8) : (bswap dat).length = dat.length := by
  rw [bswap]
  generalize List.range (dat.length / 2) = is
  induction is generalizing dat with
  | nil => rfl
  | cons i is ih =>
      rw [List.foldl_cons, ih]
      simp

@[simp] theorem length_currentTimestamp (te : Timeval) : (currentTimestamp te).length = 8 := by
  simp [currentTimestamp, length_bswap]

theorem recordBtsnoop_eq (fp : List UInt8) (p : Packet) :
    recordBtsnoop fp p.data p.dir p.time = fp ++ p.bytes := by
  simp [recordBtsnoop, Packet.bytes]

/-- The records stand one behind the other. -/
theorem logFile_eq (packets : List Packet) :
    logFile packets = createBtsnoopRec ++ packets.flatMap Packet.bytes := by
  rw [logFile]
  generalize createBtsnoopRec = fp
  induction packets generalizing fp with
  | nil => simp
  | cons p packets ih =>
      rw [List.foldl_cons, ih, recordBtsnoop_eq, List.flatMap_cons, List.append_assoc]

/-- The fields of a record, in the order in which the parser reads them. -/
theorem Packet.bytes_append (p : Packet) (post : List UInt8) :
    p.bytes ++ post = be32 (UInt32.ofNat p.data.length) ++
      (be32 (UInt32.ofNat p.data.length) ++ ([0, 0, 0, flagOf p.data p.dir] ++
        ([0, 0, 0, 0] ++ (currentTimestamp p.time ++ (p.data ++ post))))) := by
  simp only [bytes, recordBtsnoop, bswap_le32, List.nil_append, List.append_assoc]

/-! ## Reads -/

/-- The bytes at the front of the file are read, if the buffer holds them. -/
theorem fread_append {buf bs : List UInt8} (post : List UInt8) {n : ℕ} (hn : bs.length = n)
    (h : n ≤ buf.length) : ∃ got back, (bs ++ back).length = buf.length ∧
      fread buf n (bs ++ post) = some (got, bs ++ back, post) ∧ (got = 0 ↔ n = 0) := by
  subst hn
  refine ⟨if bs.length ≠ 0 ∧ bs.length = bs.length then 1 else 0, buf.drop bs.length, ?_, ?_, ?_⟩
  · rw [List.length_append, List.length_drop]
    omega
  · rw [fread, List.take_left, if_pos h, List.drop_left]
  · simp

/-- Longer ones are written behind the buffer. -/
theorem fread_overrun {buf bs : List UInt8} (post : List UInt8) {n : ℕ} (hn : bs.length = n)
    (h : buf.length < n) : fread buf n (bs ++ post) = none := by
  subst hn
  rw [fread, List.take_left, if_neg (by omega)]

/-- At the end of the file nothing is read. -/
theorem fread_nil (buf : List UInt8) (n : ℕ) : fread buf n [] = some (0, buf, []) := by
  cases n with
  | zero => simp [fread]
  | succ n => simp [fread]

/-- The two low bytes of a length. -/
theorem be32_low (n : ℕ) (post : List UInt8) :
    ((be32 (UInt32.ofNat n) ++ post).getD 2 0).toNat * 2 ^ 8 +
      ((be32 (UInt32.ofNat n) ++ post).getD 3 0).toNat = n % 2 ^ 16 := by
  simp only [be32, le32, List.reverse_cons, List.reverse_nil, List.nil_append, List.cons_append,
    List.getD_cons_succ, List.getD_cons_zero, UInt32.toNat_toUInt8, UInt32.toNat_shiftRight,
    UInt32.toNat_ofNat', UInt32.reduceToNat, Nat.reduceMod, Nat.shiftRight_eq_div_pow]
  omega

end CCode.Btsnoop
