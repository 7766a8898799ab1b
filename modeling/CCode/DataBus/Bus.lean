import CCode.Lib.Bytes

/-!
# The data bus

`data_bus.c` over the socket threads of `af_server.c` and `af_client.c`. A message is one
`struct bus_data`. The server keeps a list of its connections; a connection is registered by
`srv_conn_cb`, learns its device from its first message, and is removed by `srv_discon_cb`.

Both receive threads have one buffer of 4096 bytes, which `recv` overwrites from the front.
What is behind the received bytes is what earlier calls left there, and the callbacks see it:
they get the buffer, not the received bytes.

## Main definitions

* `BusData` — a message, its bytes, and the message at a place of the buffer.
* `BusServer` — the server's list of connections.
* `srvConnCb`, `srvRecvCb`, `srvDisconCb` — the callbacks of the server's threads.
* `clientRecvCb` — the callback of the client's thread.
* `busServerSend`, `busClientSend` — where a message is sent, and what is sent.
-/

namespace CCode.DataBus

open CCode.Lib

/-! ## Messages -/

/-- The size of the union of `struct bus_data`, which is that of `struct qr_code`. -/
abbrev unionSize : ℕ := 516

/-- `sizeof(struct bus_data)`. -/
abbrev busDataSize : ℕ := 524

/-- `MAX_BUF_SIZE`. -/
abbrev maxBufSize : ℕ := 4096

/-- `DEV_TYPE_INVALID`. -/
abbrev devTypeInvalid : UInt32 := 0xFF

/-- `struct bus_data`. -/
@[ext] structure BusData where
  devType : UInt32
  devId : UInt32
  info : List UInt8
  length_info : info.length = unionSize
  deriving DecidableEq

namespace BusData

/-- The message as `send` reads it. -/
def bytes (d : BusData) : List UInt8 := le32 d.devType ++ (le32 d.devId ++ d.info)

/-- The message that a `struct bus_data *` finds in the buffer. -/
def ofMem (buf : Mem) (p : ℕ) : BusData where
  devType := buf.u32 p
  devId := buf.u32 (p + 4)
  info := buf.read (p + 8) unionSize
  length_info := Mem.length_read _ _ _

@[simp] theorem length_bytes (d : BusData) : d.bytes.length = busDataSize := by
  rw [bytes, List.length_append, List.length_append, length_le32, length_le32, d.length_info,
    busDataSize, unionSize]

/-- Where the bytes of a message are, the message is found. -/
theorem ofMem_eq {buf : Mem} {p : ℕ} {d : BusData} (h : buf.read p busDataSize = d.bytes) :
    ofMem buf p = d := by
  have hsplit : buf.read p busDataSize
      = buf.read p 4 ++ (buf.read (p + 4) 4 ++ buf.read (p + 8) unionSize) := by
    rw [show busDataSize = 4 + (4 + unionSize) from rfl, Mem.read_add, Mem.read_add]
  rw [hsplit, bytes] at h
  obtain ⟨htype, h⟩ := List.append_inj h (Mem.length_read _ _ _)
  obtain ⟨hid, hinfo⟩ := List.append_inj h (Mem.length_read _ _ _)
  simp only [ofMem, BusData.ext_iff]
  exact ⟨Mem.u32_eq_of_read htype, Mem.u32_eq_of_read hid, hinfo⟩

/-- The bytes of the message that is found are those of the buffer. -/
theorem bytes_ofMem (buf : Mem) (p : ℕ) : (ofMem buf p).bytes = buf.read p busDataSize := by
  rw [show busDataSize = 4 + (4 + unionSize) from rfl, Mem.read_add, Mem.read_add, bytes]
  simp only [ofMem, Mem.le32_u32]

/-- The messages one after another. -/
def stream (ds : List BusData) : List UInt8 := ds.flatMap bytes

@[simp] theorem stream_nil : stream [] = [] := rfl

@[simp] theorem stream_cons (d : BusData) (ds : List BusData) :
    stream (d :: ds) = d.bytes ++ stream ds := rfl

@[simp] theorem length_stream (ds : List BusData) :
    (stream ds).length = busDataSize * ds.length := by
  induction ds with
  | nil => rfl
  | cons d ds ih =>
      rw [stream_cons, List.length_append, length_bytes, ih, List.length_cons, Nat.mul_succ,
        Nat.add_comm]

theorem stream_append (as bs : List BusData) : stream (as ++ bs) = stream as ++ stream bs :=
  List.flatMap_append

end BusData

/-- A message with a body of zeros. -/
def blank (devType devId : UInt32) : BusData :=
  ⟨devType, devId, List.replicate unionSize 0, List.length_replicate⟩

/-! ## The server -/

/-- `struct bus_client`, as the server keeps it. -/
structure BusClient where
  sock : ℕ
  devType : UInt32
  devId : UInt32
  deriving DecidableEq

/-- `struct bus_server`. -/
structure BusServer where
  clientList : List BusClient
  deriving DecidableEq

/-- `find_cli_by_sock_cb`. -/
def findCliBySockCb (sock : ℕ) (cli : BusClient) : Bool := cli.sock == sock

/-- `find_cli_by_id_cb`. -/
def findCliByIdCb (data : BusData) (cli : BusClient) : Bool :=
  cli.devType == data.devType && cli.devId == data.devId

/-- The first entry that matches gets the device; the entries are pointers, so it changes in
its place. -/
def setDevice (sock : ℕ) (data : BusData) : List BusClient → List BusClient
  | [] => []
  | cli :: rest =>
      if findCliBySockCb sock cli then
        { cli with devType := data.devType, devId := data.devId } :: rest
      else cli :: setDevice sock data rest

/-- `srv_conn_cb`, with whether `queue_push_tail` could allocate its entry. -/
def srvConnCb (srv : BusServer) (sock : ℕ) (alloc : Bool) : BusServer :=
  if alloc then ⟨srv.clientList ++ [⟨sock, devTypeInvalid, 0⟩]⟩ else srv

/-- The loop of `srv_recv_cb` from package `i` on, with `todo` packages left: the messages
that `callback` is called with, and how many packages `return` leaves out. -/
def srvRecvLoop (sock : ℕ) (buf : Mem) : ℕ → ℕ → BusServer → BusServer × List BusData × ℕ
  | 0, _, srv => (srv, [], 0)
  | todo + 1, i, srv =>
      let data := BusData.ofMem buf (busDataSize * i)
      match srv.clientList.find? (findCliBySockCb sock) with
      | none => (srv, [], todo + 1)
      | some cli =>
          let srv := if cli.devType = devTypeInvalid then
            ⟨setDevice sock data srv.clientList⟩ else srv
          let (srv, calls, missed) := srvRecvLoop sock buf todo (i + 1) srv
          (srv, data :: calls, missed)

/-- `srv_recv_cb`. A remainder of `len` is warned of and ignored. -/
def srvRecvCb (srv : BusServer) (sock : ℕ) (buf : Mem) (len : ℕ) :
    BusServer × List BusData × ℕ :=
  srvRecvLoop sock buf (len / busDataSize) 0 srv

/-- `srv_discon_cb`: the entry that is found first is removed. -/
def srvDisconCb (srv : BusServer) (sock : ℕ) : BusServer :=
  ⟨srv.clientList.eraseP (findCliBySockCb sock)⟩

/-- `bus_server_send`: the socket that the message is sent to, `none` with the warning that
the socket is missing. -/
def busServerSend (srv : BusServer) (data : BusData) : Option ℕ :=
  (srv.clientList.find? (findCliByIdCb data)).map BusClient.sock

/-- The sockets that are registered. -/
def BusServer.socks (srv : BusServer) : List ℕ := srv.clientList.map BusClient.sock

theorem find_sock_eq_none_iff {srv : BusServer} {sock : ℕ} :
    srv.clientList.find? (findCliBySockCb sock) = none ↔ sock ∉ srv.socks := by
  simp [BusServer.socks, findCliBySockCb]

@[simp] theorem map_sock_setDevice (sock : ℕ) (data : BusData) (l : List BusClient) :
    (setDevice sock data l).map BusClient.sock = l.map BusClient.sock := by
  induction l with
  | nil => rfl
  | cons cli rest ih =>
      rw [setDevice]
      split
      · rfl
      · simp [ih]

theorem socks_srvConnCb (srv : BusServer) (sock : ℕ) (alloc : Bool) :
    (srvConnCb srv sock alloc).socks = if alloc then srv.socks ++ [sock] else srv.socks := by
  cases alloc <;> simp [srvConnCb, BusServer.socks]

theorem socks_srvDisconCb (srv : BusServer) (sock : ℕ) :
    (srvDisconCb srv sock).socks = srv.socks.erase sock := by
  simp only [srvDisconCb, BusServer.socks]
  rw [List.erase_eq_eraseP, List.eraseP_map]
  congr 2
  funext cli
  exact Bool.beq_comm

/-- The sockets that messages are sent to are registered. -/
theorem busServerSend_mem {srv : BusServer} {data : BusData} {sock : ℕ}
    (h : busServerSend srv data = some sock) : sock ∈ srv.socks := by
  obtain ⟨cli, hfind, rfl⟩ := Option.map_eq_some_iff.mp h
  exact List.mem_map_of_mem (List.mem_of_find?_eq_some hfind)

/-- Only the device of a message decides where it is sent. -/
theorem busServerSend_congr {srv : BusServer} {d d' : BusData} (htype : d.devType = d'.devType)
    (hid : d.devId = d'.devId) : busServerSend srv d = busServerSend srv d' := by
  rw [busServerSend, busServerSend]
  congr 2
  funext cli
  rw [findCliByIdCb, findCliByIdCb, htype, hid]

/-! ### What receiving does -/

/-- The packages of the buffer from number `i` on. -/
def packages (buf : Mem) (i n : ℕ) : List BusData :=
  (List.range n).map fun j => BusData.ofMem buf (busDataSize * (i + j))

theorem packages_succ (buf : Mem) (i n : ℕ) :
    packages buf i (n + 1) = BusData.ofMem buf (busDataSize * i) :: packages buf (i + 1) n := by
  rw [packages, List.range_succ_eq_map, List.map_cons, List.map_map, Nat.add_zero, packages]
  apply congrArg (List.cons _)
  apply List.map_congr_left
  intro j _
  rw [Function.comp_apply, Nat.succ_eq_add_one, Nat.add_assoc, Nat.add_comm 1 j]

/-- Receiving keeps who is registered. It passes every package on if the connection is, and
none if it is not. -/
theorem srvRecvLoop_spec (sock : ℕ) (buf : Mem) (todo i : ℕ) (srv : BusServer) :
    (srvRecvLoop sock buf todo i srv).1.socks = srv.socks ∧
      (srvRecvLoop sock buf todo i srv).2
        = if sock ∈ srv.socks then (packages buf i todo, 0) else ([], todo) := by
  induction todo generalizing i srv with
  | zero => simp [srvRecvLoop, packages]
  | succ todo ih =>
      rw [srvRecvLoop]
      cases hfind : srv.clientList.find? (findCliBySockCb sock) with
      | none =>
          have hnot := find_sock_eq_none_iff.mp hfind
          simp [hnot]
      | some cli =>
          have hmem : sock ∈ srv.socks := by
            by_contra hnot
            rw [find_sock_eq_none_iff.mpr hnot] at hfind
            cases hfind
          -- the device of the entry may be set, its socket is not
          have hkeep : ∀ data, (if cli.devType = devTypeInvalid then
              (⟨setDevice sock data srv.clientList⟩ : BusServer) else srv).socks = srv.socks := by
            intro data
            split
            · exact map_sock_setDevice sock data srv.clientList
            · rfl
          have hnext := ih (i + 1) (if cli.devType = devTypeInvalid then
            ⟨setDevice sock (BusData.ofMem buf (busDataSize * i)) srv.clientList⟩ else srv)
          rw [hkeep, if_pos hmem] at hnext
          obtain ⟨hsocks, hcalls⟩ := hnext
          refine ⟨hsocks, ?_⟩
          simp only [if_pos hmem, packages_succ, hcalls]

theorem socks_srvRecvCb (srv : BusServer) (sock : ℕ) (buf : Mem) (len : ℕ) :
    (srvRecvCb srv sock buf len).1.socks = srv.socks :=
  (srvRecvLoop_spec sock buf _ 0 srv).1

theorem calls_srvRecvCb (srv : BusServer) (sock : ℕ) (buf : Mem) (len : ℕ) :
    (srvRecvCb srv sock buf len).2
      = if sock ∈ srv.socks then (packages buf 0 (len / busDataSize), 0)
        else ([], len / busDataSize) :=
  (srvRecvLoop_spec sock buf _ 0 srv).2

/-! ## The client -/

/-- `bus_client_send`: the message that is sent, with the device of the client filled in. -/
def busClientSend (cli : BusClient) (data : BusData) : BusData :=
  { data with devType := cli.devType, devId := cli.devId }

/-- `client_recv_cb`: the message that `callback` is called with, whatever the length. -/
def clientRecvCb (buf : Mem) (_len : ℕ) : BusData := BusData.ofMem buf 0

end CCode.DataBus
