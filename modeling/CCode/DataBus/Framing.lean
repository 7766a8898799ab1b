import CCode.DataBus.Bus
import Mathlib.Data.List.SplitLengths

/-!
# Messages on the stream

A stream socket does not keep the boundaries of what was sent: `recv` returns some of the
bytes, at most a buffer full. The server takes as many whole messages from a call as it
returned bytes for, and drops the remainder; the client takes one message from every call,
whatever it returned.

So the server is exact on the segmentations that cut between messages, and the client on
those that return one message at a time, and on no others.

## Main definitions

* `Segments` — a segmentation of a number of messages.
* `srvRecvThd`, `recvThd` — the receive threads over the calls of `recv`.

## Main results

* `srvRecvThd_exact_iff` — the server, on each stream.
* `recvThd_exact_iff` — the client, over all streams.
-/

namespace CCode.DataBus

open CCode.Lib BusData

/-- The lengths that `recv` returns for `n` messages, until all bytes are received. -/
structure Segments (lens : List ℕ) (n : ℕ) : Prop where
  pos : ∀ len ∈ lens, 0 < len
  le : ∀ len ∈ lens, len ≤ maxBufSize
  sum_eq : lens.sum = busDataSize * n

/-- The server's `recv_thd` for a connection: the calls of `callback` for the chunks that
`recv` puts in `buf`. -/
def srvRecvThd (sock : ℕ) : BusServer → Mem → List (List UInt8) → List BusData
  | _, _, [] => []
  | srv, buf, chunk :: rest =>
      let buf := buf.write 0 chunk
      let r := srvRecvCb srv sock buf chunk.length
      r.2.1 ++ srvRecvThd sock r.1 buf rest

/-- The client's `recv_thd`. -/
def recvThd : Mem → List (List UInt8) → List BusData
  | _, [] => []
  | buf, chunk :: rest =>
      let buf := buf.write 0 chunk
      clientRecvCb buf chunk.length :: recvThd buf rest

/-! ## The server -/

/-- A chunk that is a sequence of messages gives these messages. -/
theorem packages_stream (buf : Mem) (ds : List BusData) :
    packages (buf.write 0 (stream ds)) 0 ds.length = ds := by
  apply List.ext_getElem
  · simp [packages]
  · intro j hj hjd
    have hsplit : stream ds = stream (ds.take j) ++ (ds[j].bytes ++ stream (ds.drop (j + 1))) := by
      rw [← stream_cons, ← stream_append, ← List.drop_eq_getElem_cons hjd, List.take_append_drop]
    have hpre : (stream (ds.take j)).length = busDataSize * j := by
      rw [length_stream, List.length_take, Nat.min_eq_left (Nat.le_of_lt hjd)]
    simp only [packages, List.getElem_map, List.getElem_range, Nat.zero_add]
    exact ofMem_eq (Mem.read_write_of_eq buf _ _ hsplit hpre (length_bytes _))

/-- An unregistered connection gets nothing through. -/
theorem srvRecvThd_unregistered {sock : ℕ} {srv : BusServer} (h : sock ∉ srv.socks) (buf : Mem)
    (chunks : List (List UInt8)) : srvRecvThd sock srv buf chunks = [] := by
  induction chunks generalizing srv buf with
  | nil => rfl
  | cons chunk rest ih =>
      rw [srvRecvThd, calls_srvRecvCb, if_neg h]
      exact ih (by rwa [socks_srvRecvCb]) _

/-- A registered connection gets the whole messages of each chunk through. -/
theorem srvRecvThd_cons {sock : ℕ} {srv : BusServer} (h : sock ∈ srv.socks) (buf : Mem)
    (chunk : List UInt8) (rest : List (List UInt8)) :
    ∃ srv' : BusServer, sock ∈ srv'.socks ∧ srvRecvThd sock srv buf (chunk :: rest)
      = packages (buf.write 0 chunk) 0 (chunk.length / busDataSize)
        ++ srvRecvThd sock srv' (buf.write 0 chunk) rest := by
  refine ⟨(srvRecvCb srv sock (buf.write 0 chunk) chunk.length).1, ?_, ?_⟩
  · rwa [socks_srvRecvCb]
  · rw [srvRecvThd, calls_srvRecvCb, if_pos h]

/-- The number of calls, chunk by chunk. -/
theorem length_srvRecvThd {sock : ℕ} {srv : BusServer} (h : sock ∈ srv.socks) (buf : Mem)
    (chunks : List (List UInt8)) :
    (srvRecvThd sock srv buf chunks).length
      = (chunks.map fun chunk => chunk.length / busDataSize).sum := by
  induction chunks generalizing srv buf with
  | nil => rfl
  | cons chunk rest ih =>
      obtain ⟨srv', h', heq⟩ := srvRecvThd_cons h buf chunk rest
      rw [heq, List.length_append, ih h', List.map_cons, List.sum_cons]
      simp [packages]

/-- Rounding the summands down keeps a sum exactly if nothing is rounded. -/
theorem sum_div_eq_iff (lens : List ℕ) (k : ℕ) :
    k * (lens.map fun len => len / k).sum ≤ lens.sum ∧
      (lens.sum = k * (lens.map fun len => len / k).sum ↔ ∀ len ∈ lens, k ∣ len) := by
  induction lens with
  | nil => simp
  | cons len rest ih =>
      obtain ⟨hle, hiff⟩ := ih
      have hdiv := Nat.div_add_mod len k
      have hdvd := Nat.dvd_iff_mod_eq_zero (m := k) (n := len)
      simp only [List.map_cons, List.sum_cons, Nat.mul_add, List.forall_mem_cons]
      rw [hdvd, ← hiff]
      omega

/-- Chunks of whole messages are passed on as they were sent. -/
theorem srvRecvThd_of_dvd {lens : List ℕ} {sock : ℕ} {srv : BusServer} (h : sock ∈ srv.socks)
    (hdvd : ∀ len ∈ lens, busDataSize ∣ len) (buf : Mem) (ds : List BusData)
    (hsum : lens.sum = busDataSize * ds.length) :
    srvRecvThd sock srv buf (lens.splitLengths (stream ds)) = ds := by
  induction lens generalizing srv buf ds with
  | nil =>
      have hnil : ds = [] := List.length_eq_zero_iff.mp (by simpa using hsum)
      rw [hnil]
      rfl
  | cons len rest ih =>
      obtain ⟨⟨k, rfl⟩, hrest⟩ := List.forall_mem_cons.mp hdvd
      rw [List.sum_cons] at hsum
      have hk : k ≤ ds.length := by
        apply Nat.le_of_mul_le_mul_left _ (show 0 < busDataSize by decide)
        omega
      have hlen : (ds.take k).length = k := List.length_take_of_le hk
      have hstream : stream ds = stream (ds.take k) ++ stream (ds.drop k) := by
        rw [← stream_append, List.take_append_drop]
      have hpre : (stream (ds.take k)).length = busDataSize * k := by rw [length_stream, hlen]
      have hchunks : (busDataSize * k :: rest).splitLengths (stream ds)
          = stream (ds.take k) :: rest.splitLengths (stream (ds.drop k)) := by
        rw [List.splitLengths_cons, hstream, List.take_left' hpre, List.drop_left' hpre]
      obtain ⟨srv', h', heq⟩ := srvRecvThd_cons h buf (stream (ds.take k))
        (rest.splitLengths (stream (ds.drop k)))
      have hcount : (stream (ds.take k)).length / busDataSize = (ds.take k).length := by
        rw [hpre, hlen, Nat.mul_div_cancel_left k (by decide)]
      have hsum' : rest.sum = busDataSize * (ds.drop k).length := by
        rw [List.length_drop, Nat.mul_sub]
        omega
      rw [hchunks, heq, hcount, packages_stream, ih h' hrest _ _ hsum', List.take_append_drop]

/-- **The server.** It passes on what was sent exactly if the connection is registered and
every call of `recv` ends between two messages. -/
theorem srvRecvThd_exact_iff {lens : List ℕ} {n : ℕ} (hseg : Segments lens n) (sock : ℕ)
    (srv : BusServer) (buf : Mem) (ds : List BusData) (hn : ds.length = n) :
    srvRecvThd sock srv buf (lens.splitLengths (stream ds)) = ds ↔
      (n = 0 ∨ sock ∈ srv.socks) ∧ ∀ len ∈ lens, busDataSize ∣ len := by
  have hsum : lens.sum = (stream ds).length := by rw [hseg.sum_eq, length_stream, hn]
  by_cases hreg : sock ∈ srv.socks
  · have hlens := List.map_splitLengths_length (stream ds) lens (le_of_eq hsum)
    constructor
    · intro heq
      refine ⟨.inr hreg, ((sum_div_eq_iff lens busDataSize).2).mp ?_⟩
      have hlen := congrArg List.length heq
      rw [length_srvRecvThd hreg] at hlen
      have hcount : ((lens.splitLengths (stream ds)).map fun c => c.length / busDataSize)
          = lens.map fun len => len / busDataSize := by
        conv_rhs => rw [← hlens]
        rw [List.map_map]
        rfl
      rw [hseg.sum_eq, ← hn, ← hlen, hcount]
    · intro h
      exact srvRecvThd_of_dvd hreg h.2 buf ds (by rw [hseg.sum_eq, hn])
  · rw [srvRecvThd_unregistered hreg]
    constructor
    · rintro rfl
      have hzero : lens.sum = 0 := by rw [hsum]; rfl
      refine ⟨.inl hn.symm, ?_⟩
      intro len hlen
      rw [List.sum_eq_zero_iff.mp hzero len hlen]
      exact dvd_zero _
    · intro h
      rcases h.1 with h0 | hmem
      · exact (List.length_eq_zero_iff.mp (hn.trans h0)).symm
      · exact absurd hmem hreg

/-! ## The client -/

theorem length_recvThd (buf : Mem) (chunks : List (List UInt8)) :
    (recvThd buf chunks).length = chunks.length := by
  induction chunks generalizing buf with
  | nil => rfl
  | cons chunk rest ih => rw [recvThd, List.length_cons, ih, List.length_cons]

/-- Chunks of one message each are passed on as they were sent. -/
theorem recvThd_of_eq {lens : List ℕ} (hlens : ∀ len ∈ lens, len = busDataSize) (buf : Mem)
    (ds : List BusData) (hsum : lens.sum = busDataSize * ds.length) :
    recvThd buf (lens.splitLengths (stream ds)) = ds := by
  induction lens generalizing buf ds with
  | nil =>
      have hnil : ds = [] := List.length_eq_zero_iff.mp (by simpa using hsum)
      rw [hnil]
      rfl
  | cons len rest ih =>
      obtain ⟨rfl, hrest⟩ := List.forall_mem_cons.mp hlens
      rw [List.sum_cons] at hsum
      cases ds with
      | nil => simp at hsum
      | cons d ds =>
          have hsum' : rest.sum = busDataSize * ds.length := by
            rw [List.length_cons, Nat.mul_succ] at hsum
            omega
          have hfirst : clientRecvCb (buf.write 0 d.bytes) d.bytes.length = d :=
            ofMem_eq (Mem.read_write_of_eq buf [] [] (by simp) rfl (length_bytes d))
          rw [List.splitLengths_cons, stream_cons, List.take_left' (length_bytes d),
            List.drop_left' (length_bytes d), recvThd, hfirst, ih hrest _ _ hsum']

/-- The last byte of a message. -/
def lastByte (d : BusData) : UInt8 := d.info.getD 515 0

/-- The message with another last byte, for the same device. -/
def mark (d : BusData) (v : UInt8) : BusData :=
  { d with info := d.info.set 515 v, length_info := by rw [List.length_set, d.length_info] }

theorem lastByte_mark (d : BusData) (v : UInt8) : lastByte (mark d v) = v := by
  have hlt : 515 < d.info.length := by rw [d.length_info]; decide
  simp [lastByte, mark, hlt]

theorem lastByte_clientRecvCb (buf : Mem) (len : ℕ) :
    lastByte (clientRecvCb buf len) = buf 523 := by
  have hlt : 515 < (buf.read (0 + 8) unionSize).length := by rw [Mem.length_read]; decide
  simp only [lastByte, clientRecvCb, ofMem]
  rw [List.getD_eq_getElem?_getD, List.getElem?_eq_getElem hlt, Option.getD_some,
    Mem.getElem_read]

theorem bytes_mark (d : BusData) (v : UInt8) : (mark d v).bytes = d.bytes.set 523 v := by
  rw [bytes, bytes, List.set_append_right _ _ (by simp), List.set_append_right _ _ (by simp)]
  rfl

/-- Behind a chunk of more than one message, the message that the client gets from the next
one ends in a byte that is not the last one of the second message. -/
theorem recvThd_long {len len' : ℕ} {rest : List ℕ} (hlong : busDataSize < len) (buf : Mem)
    (s : List UInt8) (v : UInt8) :
    ((recvThd buf ((len :: len' :: rest).splitLengths (s.set 1047 v)))[1]?).map lastByte
      = ((recvThd buf ((len :: len' :: rest).splitLengths s))[1]?).map lastByte := by
  have hfar : 1047 ≠ len + 523 := by
    intro heq
    have : len = busDataSize := by rw [show busDataSize = 524 from rfl]; omega
    omega
  simp only [List.splitLengths_cons, recvThd, List.getElem?_cons_succ, List.getElem?_cons_zero,
    Option.map_some, lastByte_clientRecvCb, Mem.write, Nat.zero_le, if_true, Nat.sub_zero,
    List.getElem?_take, List.getElem?_drop]
  rw [List.getElem?_set_ne hfar, List.getElem?_set_ne (by decide)]

/-- Messages for the same device. -/
def SameDevice (d d' : BusData) : Prop := d'.devType = d.devType ∧ d'.devId = d.devId

theorem sameDevice_mark (d : BusData) (v : UInt8) : SameDevice d (mark d v) := ⟨rfl, rfl⟩

/-- The segmentation is received exactly, whatever the `n` messages for the device are and
whatever is in the buffer, as long as it looks like such a message. -/
def ExactFor (d₀ : BusData) (lens : List ℕ) (n : ℕ) : Prop :=
  ∀ (ds : List BusData) (buf : Mem), ds.length = n → (∀ d ∈ ds, SameDevice d₀ d) →
    SameDevice d₀ (ofMem buf 0) → recvThd buf (lens.splitLengths (stream ds)) = ds

/-- A buffer that starts with the message. -/
def bufOf (d : BusData) : Mem := Mem.write (fun _ => 0) 0 d.bytes

theorem ofMem_bufOf (d : BusData) : ofMem (bufOf d) 0 = d :=
  ofMem_eq (Mem.read_write_of_eq _ [] [] (by simp) rfl (length_bytes d))

/-- The first chunk is no shorter than a message: what the buffer had behind it would be
taken for the end of the message. -/
theorem ExactFor.le_head {d₀ : BusData} {len m : ℕ} {rest : List ℕ}
    (h : ExactFor d₀ (len :: rest) (m + 1)) : busDataSize ≤ len := by
  by_contra hshort
  have hlast : ∀ v : UInt8, v = lastByte d₀ := by
    intro v
    have hsame : ∀ d ∈ List.replicate (m + 1) d₀, SameDevice d₀ d := by
      intro d hd
      rw [List.eq_of_mem_replicate hd]
      exact ⟨rfl, rfl⟩
    have hv := h _ (bufOf (mark d₀ v)) (List.length_replicate ..) hsame
      (by rw [ofMem_bufOf]; exact sameDevice_mark d₀ v)
    rw [List.replicate_succ, List.splitLengths_cons, recvThd] at hv
    have hhead := congrArg lastByte (List.cons.inj hv).1
    have hbehind : ((stream (d₀ :: List.replicate m d₀)).take len).length ≤ 523 := by
      rw [List.length_take]
      have : len < 524 := Nat.lt_of_not_le hshort
      omega
    have hold : bufOf (mark d₀ v) 523 = v := by
      rw [← lastByte_clientRecvCb (bufOf (mark d₀ v)) 0, clientRecvCb, ofMem_bufOf,
        lastByte_mark]
    rw [lastByte_clientRecvCb, Mem.write_frame _ (.inr (by omega)), hold] at hhead
    exact hhead
  have : (0 : UInt8) = 1 := (hlast 0).trans (hlast 1).symm
  exact absurd this (by decide)

/-- The first chunk is no longer than a message: the second message would be spoilt. -/
theorem ExactFor.head_le {d₀ : BusData} {len m : ℕ} {rest : List ℕ}
    (h : ExactFor d₀ (len :: rest) (m + 1)) (hsum : len + rest.sum = busDataSize * (m + 1)) :
    len ≤ busDataSize := by
  by_contra hlong
  have hlt : busDataSize < len := Nat.lt_of_not_le hlong
  obtain ⟨m, rfl⟩ : ∃ m', m = m' + 1 := by
    cases m with
    | zero => omega
    | succ m => exact ⟨m, rfl⟩
  -- the messages with the last byte of the second one to be chosen
  let ds : UInt8 → List BusData := fun v => d₀ :: mark d₀ v :: List.replicate m d₀
  have hstream : ∀ v, stream (ds v) = (stream (d₀ :: d₀ :: List.replicate m d₀)).set 1047 v := by
    intro v
    simp only [ds, stream_cons]
    rw [bytes_mark, List.set_append_right _ _ (by rw [length_bytes]; decide),
      List.set_append_left _ _ (by rw [length_bytes]; decide), length_bytes,
      show 1047 - busDataSize = 523 from rfl]
  have hexact : ∀ v, recvThd (bufOf d₀) ((len :: rest).splitLengths (stream (ds v))) = ds v := by
    intro v
    apply h
    · simp [ds]
    · intro d hd
      simp only [ds, List.mem_cons, List.mem_replicate] at hd
      rcases hd with rfl | rfl | ⟨-, rfl⟩
      · exact ⟨rfl, rfl⟩
      · exact sameDevice_mark d₀ v
      · exact ⟨rfl, rfl⟩
    · rw [ofMem_bufOf]
      exact ⟨rfl, rfl⟩
  obtain ⟨len', rest, rfl⟩ : ∃ len' rest', rest = len' :: rest' := by
    cases rest with
    | nil =>
        have hlen := congrArg List.length (hexact 0)
        rw [length_recvThd, List.length_splitLengths] at hlen
        simp [ds] at hlen
    | cons len' rest => exact ⟨len', rest, rfl⟩
  have hlast : ∀ v, some v = ((recvThd (bufOf d₀) ((len :: len' :: rest).splitLengths
      (stream (d₀ :: d₀ :: List.replicate m d₀))))[1]?).map lastByte := by
    intro v
    rw [← recvThd_long hlt (bufOf d₀) _ v, ← hstream v, hexact v]
    simp only [ds, List.getElem?_cons_succ, List.getElem?_cons_zero, Option.map_some,
      lastByte_mark]
  have : some (0 : UInt8) = some 1 := (hlast 0).trans (hlast 1).symm
  exact absurd this (by decide)

/-- Behind a chunk of one message the rest of the segmentation is received exactly too. -/
theorem ExactFor.tail {d₀ : BusData} {m : ℕ} {rest : List ℕ}
    (h : ExactFor d₀ (busDataSize :: rest) (m + 1)) : ExactFor d₀ rest m := by
  intro ds buf hlen hsame hbuf
  -- the first message leaves the buffer as it is to be found
  have hds := h (ofMem buf 0 :: ds) buf (by rw [List.length_cons, hlen])
    (List.forall_mem_cons.mpr ⟨hbuf, hsame⟩) hbuf
  rw [List.splitLengths_cons, stream_cons, List.take_left' (length_bytes _),
    List.drop_left' (length_bytes _), recvThd, bytes_ofMem, Mem.write_read_self] at hds
  exact (List.cons.inj hds).2

/-- One chunk that is not one message is enough to spoil some message. -/
theorem ExactFor.forall_eq {d₀ : BusData} {lens : List ℕ} {n : ℕ} (hseg : Segments lens n)
    (h : ExactFor d₀ lens n) : ∀ len ∈ lens, len = busDataSize := by
  induction lens generalizing n with
  | nil => simp
  | cons len rest ih =>
      have hsum := hseg.sum_eq
      rw [List.sum_cons] at hsum
      have hpos := hseg.pos len List.mem_cons_self
      cases n with
      | zero => omega
      | succ m =>
          have hone : len = busDataSize := Nat.le_antisymm (h.head_le hsum) h.le_head
          subst hone
          have hrest : Segments rest m := by
            refine ⟨fun len' h' => hseg.pos len' (List.mem_cons_of_mem _ h'),
              fun len' h' => hseg.le len' (List.mem_cons_of_mem _ h'), ?_⟩
            rw [Nat.mul_succ] at hsum
            omega
          exact List.forall_mem_cons.mpr ⟨rfl, ih hrest h.tail⟩

/-- **The client.** What it passes on is exact for all messages that the server sends to it
and all contents of the buffer exactly if every call of `recv` returns one message. -/
theorem recvThd_exact_iff {lens : List ℕ} {n : ℕ} (hseg : Segments lens n) {srv : BusServer}
    {sock : ℕ} (hconn : ∃ d, busServerSend srv d = some sock) :
    (∀ (ds : List BusData) (buf : Mem), ds.length = n →
        (∀ d ∈ ds, busServerSend srv d = some sock) →
        recvThd buf (lens.splitLengths (stream ds)) = ds) ↔
      ∀ len ∈ lens, len = busDataSize := by
  constructor
  · intro h
    obtain ⟨d₀, hd₀⟩ := hconn
    have hexact : ExactFor d₀ lens n := by
      intro ds buf hlen hsame _
      apply h ds buf hlen
      intro d hd
      rw [busServerSend_congr (hsame d hd).1 (hsame d hd).2, hd₀]
    exact hexact.forall_eq hseg
  · intro h ds buf hlen _
    exact recvThd_of_eq h buf ds (by rw [hseg.sum_eq, hlen])

/-! ## Both directions -/

/-- What the server is called with is what the client sent exactly if the connection is
registered and every `recv` of the server ends between two messages; what the client is
called with is what the server sent, for all messages, exactly if every `recv` of the client
returns one message. -/
theorem bus_framing_iff {lens : List ℕ} {n : ℕ} (hseg : Segments lens n) :
    (∀ (srv : BusServer) (sock : ℕ) (cli : BusClient) (buf : Mem) (ds : List BusData),
      ds.length = n →
      (srvRecvThd sock srv buf (lens.splitLengths (stream (ds.map (busClientSend cli))))
          = ds.map (busClientSend cli) ↔
        (n = 0 ∨ sock ∈ srv.socks) ∧ ∀ len ∈ lens, busDataSize ∣ len)) ∧
    (∀ (srv : BusServer) (sock : ℕ), (∃ d, busServerSend srv d = some sock) →
      ((∀ (ds : List BusData) (buf : Mem), ds.length = n →
          (∀ d ∈ ds, busServerSend srv d = some sock) →
          recvThd buf (lens.splitLengths (stream ds)) = ds) ↔
        ∀ len ∈ lens, len = busDataSize)) := by
  constructor
  · intro srv sock cli buf ds hlen
    exact srvRecvThd_exact_iff hseg sock srv buf _ (by rw [List.length_map, hlen])
  · intro srv sock hconn
    exact recvThd_exact_iff hseg hconn

/-- A server with a light at socket 5. -/
def lightServer : BusServer := ⟨[⟨5, 0, 1⟩]⟩

theorem bus_framing_iff_pair : Segments [524, 524] 2 ∧
    srvRecvThd 5 lightServer (fun _ => 0)
        ([524, 524].splitLengths (stream ([blank 0 1, blank 0 1].map (busClientSend ⟨5, 0, 1⟩))))
      = [blank 0 1, blank 0 1].map (busClientSend ⟨5, 0, 1⟩) ∧
    recvThd (fun _ => 0) ([524, 524].splitLengths (stream [blank 0 1, blank 0 1]))
      = [blank 0 1, blank 0 1] := by
  have hseg : Segments [524, 524] 2 := ⟨by decide, by decide, by decide⟩
  have hsend : busServerSend lightServer (blank 0 1) = some 5 := by rfl
  obtain ⟨hsrv, hcli⟩ := bus_framing_iff hseg
  refine ⟨hseg, (hsrv _ _ _ _ _ rfl).mpr ⟨.inr (by decide), by decide⟩, ?_⟩
  exact (hcli lightServer 5 ⟨_, hsend⟩).mpr (by decide) _ _ rfl (by simp [hsend])

/-- A message that is received in two parts never reaches the server's callback, and of two
messages that are received at once the client's callback gets one. -/
theorem bus_framing_lost :
    Segments [523, 1] 1 ∧ Segments [1048] 2 ∧ busServerSend lightServer (blank 0 1) = some 5 ∧
    srvRecvThd 5 lightServer (fun _ => 0)
        ([523, 1].splitLengths (stream [busClientSend ⟨5, 0, 1⟩ (blank 0 1)]))
      ≠ [busClientSend ⟨5, 0, 1⟩ (blank 0 1)] ∧
    recvThd (fun _ => 0) ([1048].splitLengths (stream [blank 0 1, blank 0 1]))
      ≠ [blank 0 1, blank 0 1] := by
  have hseg : Segments [523, 1] 1 := ⟨by decide, by decide, by decide⟩
  refine ⟨hseg, ⟨by decide, by decide, by decide⟩, by rfl, ?_, ?_⟩
  · intro h
    have hdvd := ((srvRecvThd_exact_iff hseg _ _ _ _ rfl).mp h).2 1 (by simp)
    exact absurd hdvd (by decide)
  · intro h
    have hlen := congrArg List.length h
    rw [length_recvThd, List.length_splitLengths] at hlen
    exact absurd hlen (by decide)

end CCode.DataBus
