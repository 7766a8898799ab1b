import CCode.Btsnoop.Log

/-!
# Reading the packet log back

The two programs agree on the widths and the order of all fields, and they disagree on how long
a packet may be. A round of the parser on a record has the length modulo 65536 and takes so many
bytes of the packet; if this is more than the buffer holds, it writes behind it, and if it is
less than the packet has, the next round starts inside of the packet.

So a log is read back exactly if no packet is longer than the buffer.

## Main definitions

* `Packet.readLen` — the number of bytes that the parser takes for the length of a packet.
-/

namespace CCode.Btsnoop

open CCode.Lib

/-- The length of a packet, as far as the parser reads it. -/
def Packet.readLen (p : Packet) : ℕ := p.data.length % 2 ^ 16

/-- The fields in front of a packet are read. -/
theorem parseLoop_fields (fuel : ℕ) {buf : List UInt8} (hbuf : buf.length = bufLen) (p : Packet)
    (post : List UInt8) : ∃ buf' : List UInt8, buf'.length = bufLen ∧
      parseLoop (fuel + 1) buf (p.bytes ++ post) = (do
        let (_, buf, fp) ← fread buf' p.readLen (p.data ++ post)
        let (entries, rest) ← parseLoop fuel buf fp
        some (⟨p.readLen, flagOf p.data p.dir, buf.take p.readLen⟩ :: entries, rest)) := by
  have hlen := length_be32 (UInt32.ofNat p.data.length)
  have hflag : [0, 0, 0, flagOf p.data p.dir].length = 4 := rfl
  have hdrops : [(0 : UInt8), 0, 0, 0].length = 4 := rfl
  have htime := length_currentTimestamp p.time
  have hfour : ∀ {b : List UInt8}, b.length = bufLen → 4 ≤ b.length := by
    intro b hb
    rw [hb]
    decide
  have height : ∀ {b : List UInt8}, b.length = bufLen → 8 ≤ b.length := by
    intro b hb
    rw [hb]
    decide
  rw [p.bytes_append, parseLoop]
  obtain ⟨got, back₁, hb₁, h₁, hgot⟩ := fread_append (be32 (UInt32.ofNat p.data.length) ++
    ([0, 0, 0, flagOf p.data p.dir] ++ ([0, 0, 0, 0] ++ (currentTimestamp p.time ++
      (p.data ++ post))))) hlen (hfour hbuf)
  rw [hbuf] at hb₁
  obtain ⟨_, back₂, hb₂, h₂, -⟩ := fread_append ([0, 0, 0, flagOf p.data p.dir] ++
    ([0, 0, 0, 0] ++ (currentTimestamp p.time ++ (p.data ++ post)))) hlen (hfour hb₁)
  rw [hb₁] at hb₂
  obtain ⟨_, back₃, hb₃, h₃, -⟩ := fread_append ([0, 0, 0, 0] ++ (currentTimestamp p.time ++
    (p.data ++ post))) hflag (hfour hb₂)
  rw [hb₂] at hb₃
  obtain ⟨_, back₄, hb₄, h₄, -⟩ := fread_append (currentTimestamp p.time ++ (p.data ++ post))
    hdrops (hfour hb₃)
  rw [hb₃] at hb₄
  obtain ⟨_, back₅, hb₅, h₅, -⟩ := fread_append (p.data ++ post) htime (height hb₄)
  rw [hb₄] at hb₅
  have hne : got ≠ 0 := by
    intro h0
    exact absurd (hgot.mp h0) (by decide)
  refine ⟨_, hb₅, ?_⟩
  simp only [h₁, h₂, h₃, h₄, h₅, Option.bind_eq_bind, Option.bind_some, hne, if_false, be32_low,
    Packet.readLen]
  rfl

/-- **A round of the loop on a record**: the packet does not fit, or the loop goes on behind
what the parser takes for it. -/
theorem parseLoop_record (fuel : ℕ) {buf : List UInt8} (hbuf : buf.length = bufLen) (p : Packet)
    (post : List UInt8) :
    bufLen < p.readLen ∧ parseLoop (fuel + 1) buf (p.bytes ++ post) = none ∨
      p.readLen ≤ bufLen ∧ ∃ buf' : List UInt8, buf'.length = bufLen ∧
        parseLoop (fuel + 1) buf (p.bytes ++ post) =
          (parseLoop fuel buf' (p.data.drop p.readLen ++ post)).map fun r =>
            (⟨p.readLen, flagOf p.data p.dir, p.data.take p.readLen⟩ :: r.1, r.2) := by
  obtain ⟨buf', hbuf', hround⟩ := parseLoop_fields fuel hbuf p post
  have hle : p.readLen ≤ p.data.length := Nat.mod_le _ _
  have htake : (p.data.take p.readLen).length = p.readLen := List.length_take_of_le hle
  have hsplit : p.data ++ post = p.data.take p.readLen ++ (p.data.drop p.readLen ++ post) := by
    rw [← List.append_assoc, List.take_append_drop]
  rw [hround, hsplit]
  by_cases hfit : p.readLen ≤ bufLen
  · obtain ⟨_, back, hback, hread, -⟩ := fread_append (p.data.drop p.readLen ++ post) htake
      (hbuf' ▸ hfit)
    refine .inr ⟨hfit, _, hback.trans hbuf', ?_⟩
    rw [hread, Option.bind_eq_bind, Option.bind_some]
    dsimp only
    rw [List.take_left' htake]
    cases parseLoop fuel _ (p.data.drop p.readLen ++ post) <;> rfl
  · refine .inl ⟨by omega, ?_⟩
    rw [fread_overrun _ htake (by omega)]
    rfl

/-- **The loop reads records back exactly if no packet is longer than the buffer.** -/
theorem parseLoop_records_iff {packets : List Packet} {fuel : ℕ} (hfuel : packets.length < fuel)
    {buf : List UInt8} (hbuf : buf.length = bufLen) :
    parseLoop fuel buf (packets.flatMap Packet.bytes) = some (packets.map Packet.entry, []) ↔
      ∀ p ∈ packets, p.data.length ≤ bufLen := by
  obtain ⟨fuel, rfl⟩ : ∃ n, fuel = n + 1 := ⟨fuel - 1, by omega⟩
  induction packets generalizing fuel buf with
  | nil => simp [parseLoop, fread_nil]
  | cons p packets ih =>
      rw [List.length_cons] at hfuel
      rw [List.flatMap_cons, List.map_cons, List.forall_mem_cons]
      rcases parseLoop_record fuel hbuf p (packets.flatMap Packet.bytes) with
        ⟨hbig, hnone⟩ | ⟨hfit, buf', hbuf', hround⟩
      · -- the packet is at least as long as the parser takes it to be
        have hle : p.readLen ≤ p.data.length := Nat.mod_le _ _
        rw [hnone]
        exact iff_of_false (by simp) fun h => by omega
      · rw [hround]
        by_cases hlen : p.data.length ≤ bufLen
        · have hsame : p.readLen = p.data.length :=
            Nat.mod_eq_of_lt (Nat.lt_of_le_of_lt hlen (by decide))
          obtain ⟨fuel, rfl⟩ : ∃ n, fuel = n + 1 := ⟨fuel - 1, by omega⟩
          rw [hsame, List.drop_length, List.nil_append, List.take_length,
            ← ih hbuf' fuel (by omega)]
          simp only [hlen, true_and, Packet.entry]
          cases parseLoop (fuel + 1) buf' (packets.flatMap Packet.bytes) with
          | none => simp
          | some r => simp [Prod.ext_iff]
        · -- what is read back has another length
          refine iff_of_false ?_ fun h => hlen h.1
          intro heq
          obtain ⟨r, -, hr⟩ := Option.map_eq_some_iff.mp heq
          simp only [Prod.mk.injEq, List.cons.injEq, Packet.entry, Entry.mk.injEq] at hr
          omega

/-- **The round trip.** Whatever the buffer of the parser holds at first, a log is read back as
it was recorded, with nothing left of the file, exactly if no packet has more than 1024 bytes. -/
theorem btsnoopParse_logFile_iff (buf : Vector UInt8 bufLen) (packets : List Packet) :
    btsnoopParse buf (logFile packets) = some (packets.map Packet.entry, []) ↔
      ∀ p ∈ packets, p.data.length ≤ bufLen := by
  have hbuf : buf.toList.length = bufLen := buf.length_toList
  have hheader : createBtsnoopRec.length = 8 + 4 + 4 := rfl
  have hroom : 8 + 4 + 4 ≤ buf.toList.length := by
    rw [hbuf]
    decide
  obtain ⟨_, back, hback, hread, -⟩ := fread_append (packets.flatMap Packet.bytes) hheader hroom
  rw [hbuf] at hback
  have hfuel : packets.length < (logFile packets).length + 1 := by
    have hcount : packets.length ≤ (packets.flatMap Packet.bytes).length := by
      rw [List.length_flatMap]
      refine le_trans ?_ (List.card_nsmul_le_sum _ 1 ?_)
      · simp
      · intro n hn
        obtain ⟨p, -, rfl⟩ := List.mem_map.mp hn
        simp [Packet.bytes, recordBtsnoop]
        omega
    rw [logFile_eq, List.length_append]
    omega
  rw [btsnoopParse, ← parseLoop_records_iff hfuel hback, logFile_eq, hread]
  rfl

/-- A packet of 1025 bytes. -/
def longPacket : Packet where
  data := List.replicate 1025 0
  ne_nil := by
    rw [Ne, List.replicate_eq_nil_iff]
    decide
  length_lt := by
    rw [List.length_replicate]
    decide
  dir := 0
  time := ⟨0, 0⟩

/-- It is written behind the buffer. -/
theorem btsnoopParse_overrun :
    btsnoopParse (Vector.replicate bufLen 0) (logFile [longPacket]) = none := by
  have hbuf : (Vector.replicate bufLen (0 : UInt8)).toList.length = bufLen := Vector.length_toList
  have hheader : createBtsnoopRec.length = 8 + 4 + 4 := rfl
  have hroom : 8 + 4 + 4 ≤ (Vector.replicate bufLen (0 : UInt8)).toList.length := by
    rw [hbuf]
    decide
  obtain ⟨_, back, hback, hread, -⟩ := fread_append ([longPacket].flatMap Packet.bytes) hheader
    hroom
  have hlong : bufLen < longPacket.readLen := by
    rw [Packet.readLen, longPacket, List.length_replicate]
    decide
  rw [btsnoopParse, logFile_eq, hread, Option.bind_eq_bind, Option.bind_some, List.flatMap_cons]
  rcases parseLoop_record _ (hback.trans hbuf) longPacket ([].flatMap Packet.bytes) with h | h
  · exact h.2
  · exact absurd h.1 (by omega)

end CCode.Btsnoop
