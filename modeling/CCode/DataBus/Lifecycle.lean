import CCode.DataBus.Bus
import CCode.Lib.Transition

/-!
# Connections of the data bus

The listen thread of `af_server.c` starts the receive thread of a connection and calls
`connected_cb` after that. The two threads are not ordered from there on: the receive thread
may call `recv_cb`, and `disconnected_cb`, before the connection is registered.

A package that comes too early is dropped. A connection that ends too early is registered
when it is gone already, and nothing removes its entry: the number of the socket goes back to
the kernel, and the entry stands for whatever gets it next. With the callbacks of a connection
in order, none of this happens, in any interleaving of any number of connections.

## Main definitions

* `St`, `Move`, `step` — the threads, with each callback as one step.
* `InOrder` — a callback of a connection is not made before `connected_cb`.
* `Current` — the socket is open, and its connection is registered or was.

## Main results

* `Inv.step` — what a step in order keeps.
* `lifecycle_in_order` — what holds in every state of a run in order.
-/

namespace CCode.DataBus

open CCode.Lib

/-- Where the listen thread is. `created` is behind `pthread_create`, with its result, and
`failed` behind `connected_cb` if that was negative. -/
inductive ListenPc
  | accepting
  | created (sock : ℕ) (res : Int)
  | failed (sock : ℕ)
  deriving DecidableEq

/-- What a socket number stands for: nothing; a connection with its receive thread, in its
loop or behind `disconnected_cb`; a connection without a thread; or a socket that was shut
down and is never closed. -/
inductive Conn
  | free
  | running
  | leaving
  | idle
  | shut
  deriving DecidableEq

/-- The server and its threads. `dropped` counts the packages that `srv_recv_cb` returned
from because the socket was missing. -/
structure St where
  srv : BusServer
  listen : ListenPc
  conn : ℕ → Conn
  dropped : ℕ

/-- The state after `bus_server_create`. -/
def init : St := ⟨⟨[]⟩, .accepting, fun _ => .free, 0⟩

/-- The steps, with what the system calls return in them. -/
inductive Move
  | accept (sock : ℕ) (alloc : Bool) (res : Int)
  | connected (alloc : Bool)
  | undo
  | recv (sock : ℕ) (buf : Mem) (len : ℕ)
  | discon (sock : ℕ)
  | close (sock : ℕ)

/-- One step of a thread, `none` where no thread is there to make it. -/
def step (s : St) : Move → Option St
  -- listen_thd: accept, calloc and pthread_create
  | .accept sock alloc res =>
      if s.listen = .accepting ∧ s.conn sock = .free then
        if alloc then
          some { s with
            listen := .created sock res
            conn := Function.update s.conn sock (if res = 0 then .running else .idle) }
        else some { s with conn := Function.update s.conn sock .shut }
      else none
  -- listen_thd: connected_cb
  | .connected alloc =>
      match s.listen with
      | .created sock res =>
          some { s with
            srv := srvConnCb s.srv sock alloc
            listen := if res < 0 then .failed sock else .accepting }
      | _ => none
  -- listen_thd: disconnected_cb and shutdown of a connection without a thread
  | .undo =>
      match s.listen with
      | .failed sock =>
          some { s with
            srv := srvDisconCb s.srv sock
            listen := .accepting
            conn := Function.update s.conn sock .shut }
      | _ => none
  -- recv_thd: recv_cb
  | .recv sock buf len =>
      if s.conn sock = .running ∧ 0 < len ∧ len ≤ maxBufSize then
        let r := srvRecvCb s.srv sock buf len
        some { s with srv := r.1, dropped := s.dropped + r.2.2 }
      else none
  -- recv_thd: disconnected_cb
  | .discon sock =>
      if s.conn sock = .running then
        some { s with
          srv := srvDisconCb s.srv sock
          conn := Function.update s.conn sock .leaving }
      else none
  -- recv_thd: close
  | .close sock =>
      if s.conn sock = .leaving then
        some { s with conn := Function.update s.conn sock .free }
      else none

/-- The connection has its thread, and `connected_cb` is still to be called for it. -/
def Pending (s : St) (sock : ℕ) : Prop := ∃ res, s.listen = .created sock res

/-- The receive thread of a connection calls back with a package, or for the end of the
connection, only behind `connected_cb`, and `connected_cb` gets the memory for its entry. -/
def InOrder (s : St) : Move → Prop
  | .connected alloc => alloc = true
  | .recv sock _ len => len < busDataSize ∨ ¬ Pending s sock
  | .discon sock => ¬ Pending s sock
  | _ => True

/-- The socket is open, and `connected_cb` was called for its connection. -/
def Current (s : St) (sock : ℕ) : Prop :=
  (s.conn sock = .running ∨ s.conn sock = .idle) ∧ ¬ Pending s sock

/-- The socket number stands for no open socket. -/
def Closed (s : St) (sock : ℕ) : Prop := s.conn sock ≠ .running ∧ s.conn sock ≠ .idle

/-! ## What a step does -/

/-- Everything that a step can do. -/
theorem step_cases {s s' : St} {m : Move} (h : step s m = some s') :
    (∃ sock alloc res, m = .accept sock alloc res ∧ s.listen = .accepting ∧
      s.conn sock = .free ∧ s'.srv = s.srv ∧ s'.dropped = s.dropped ∧
      if alloc then s'.listen = .created sock res ∧
        s'.conn = Function.update s.conn sock (if res = 0 then .running else .idle)
      else s'.listen = s.listen ∧ s'.conn = Function.update s.conn sock .shut) ∨
    (∃ alloc sock res, m = .connected alloc ∧ s.listen = .created sock res ∧
      s'.srv.socks = (if alloc then s.srv.socks ++ [sock] else s.srv.socks) ∧
      s'.listen = (if res < 0 then .failed sock else .accepting) ∧ s'.conn = s.conn ∧
      s'.dropped = s.dropped) ∨
    (∃ sock, m = .undo ∧ s.listen = .failed sock ∧ s'.srv.socks = s.srv.socks.erase sock ∧
      s'.listen = .accepting ∧ s'.conn = Function.update s.conn sock .shut ∧
      s'.dropped = s.dropped) ∨
    (∃ sock buf len, m = .recv sock buf len ∧ s.conn sock = .running ∧
      s'.srv.socks = s.srv.socks ∧ s'.listen = s.listen ∧ s'.conn = s.conn ∧
      s'.dropped = s.dropped + if sock ∈ s.srv.socks then 0 else len / busDataSize) ∨
    (∃ sock, m = .discon sock ∧ s.conn sock = .running ∧
      s'.srv.socks = s.srv.socks.erase sock ∧ s'.listen = s.listen ∧
      s'.conn = Function.update s.conn sock .leaving ∧ s'.dropped = s.dropped) ∨
    (∃ sock, m = .close sock ∧ s.conn sock = .leaving ∧ s'.srv = s.srv ∧
      s'.listen = s.listen ∧ s'.conn = Function.update s.conn sock .free ∧
      s'.dropped = s.dropped) := by
  cases m with
  | accept sock alloc res =>
      refine .inl ⟨sock, alloc, res, rfl, ?_⟩
      simp only [step] at h
      split at h
      · rename_i hguard
        cases alloc <;> simp_all <;> subst h <;> simp_all
      · cases h
  | connected alloc =>
      simp only [step] at h
      split at h
      · rename_i sock res hlisten
        refine .inr (.inl ⟨alloc, sock, res, rfl, hlisten, ?_⟩)
        cases h
        simp [socks_srvConnCb]
      · cases h
  | undo =>
      simp only [step] at h
      split at h
      · rename_i sock hlisten
        refine .inr (.inr (.inl ⟨sock, rfl, hlisten, ?_⟩))
        cases h
        simp [socks_srvDisconCb]
      · cases h
  | recv sock buf len =>
      simp only [step] at h
      split at h
      · rename_i hguard
        refine .inr (.inr (.inr (.inl ⟨sock, buf, len, rfl, hguard.1, ?_⟩)))
        cases h
        simp only [socks_srvRecvCb, calls_srvRecvCb]
        split <;> simp
      · cases h
  | discon sock =>
      simp only [step] at h
      split at h
      · rename_i hguard
        refine .inr (.inr (.inr (.inr (.inl ⟨sock, rfl, hguard, ?_⟩))))
        cases h
        simp [socks_srvDisconCb]
      · cases h
  | close sock =>
      simp only [step] at h
      split at h
      · rename_i hguard
        refine .inr (.inr (.inr (.inr (.inr ⟨sock, rfl, hguard, ?_⟩))))
        cases h
        simp
      · cases h

/-! ## The invariant -/

/-- What the registrations and the threads have to do with each other. -/
structure Inv (s : St) : Prop where
  /-- No package was dropped. -/
  none_dropped : s.dropped = 0
  /-- No socket has two entries. -/
  nodup : s.srv.socks.Nodup
  /-- An entry is for an open socket. -/
  entry_open : ∀ sock ∈ s.srv.socks, s.conn sock = .running ∨ s.conn sock = .idle
  /-- A connection with a thread is registered, if it is not about to be. -/
  registered : ∀ sock, s.conn sock = .running → sock ∈ s.srv.socks ∨ Pending s sock
  /-- A connection that is about to be registered is not, and it is open. -/
  pending : ∀ sock, Pending s sock → sock ∉ s.srv.socks ∧
    (s.conn sock = .running ∨ s.conn sock = .idle)

theorem inv_init : Inv init := by
  constructor <;> simp [init, BusServer.socks, Pending]

/-- **The step lemma.** Steps in order keep the invariant. -/
theorem Inv.step {s s' : St} {m : Move} (hi : Inv s) (hok : InOrder s m)
    (h : DataBus.step s m = some s') : Inv s' := by
  obtain ⟨hdrop, hnodup, hopen, hreg, hpend⟩ := hi
  rcases step_cases h with ⟨sock, alloc, res, rfl, hacc, hfree, hsrv, hd, hrest⟩ |
    ⟨alloc, sock, res, rfl, hcre, hsrv, hl, hc, hd⟩ | ⟨sock, rfl, hfail, hsrv, hl, hc, hd⟩ |
    ⟨sock, buf, len, rfl, hrun, hsrv, hl, hc, hd⟩ | ⟨sock, rfl, hrun, hsrv, hl, hc, hd⟩ |
    ⟨sock, rfl, hleave, hsrv, hl, hc, hd⟩
  · have hnot : sock ∉ s.srv.socks := by
      intro hmem
      rcases hopen sock hmem with hc | hc
      · rw [hfree] at hc
        cases hc
      · rw [hfree] at hc
        cases hc
    cases alloc with
    | false => constructor <;> simp_all [Pending] <;> grind
    | true => constructor <;> simp_all [Pending] <;> grind
  · obtain rfl : alloc = true := hok
    have hnot := (hpend sock ⟨res, hcre⟩).1
    have hno : ∀ x, ¬ Pending s' x := by
      intro x hx
      obtain ⟨res', hres'⟩ := hx
      rw [hl] at hres'
      split at hres' <;> cases hres'
    have hwas : ∀ x, Pending s x → x = sock := by
      intro x hx
      obtain ⟨res', hres'⟩ := hx
      rw [hcre] at hres'
      cases hres'
      rfl
    constructor <;> grind [Pending]
  · have hno : ∀ x, ¬ Pending s' x := by
      intro x hx
      obtain ⟨res', hres'⟩ := hx
      rw [hl] at hres'
      cases hres'
    have hmem : ∀ x, x ∈ s'.srv.socks ↔ x ≠ sock ∧ x ∈ s.srv.socks := by
      intro x
      rw [hsrv, hnodup.mem_erase_iff]
    have hwas : ∀ x, ¬ Pending s x := by
      intro x hx
      obtain ⟨res', hres'⟩ := hx
      rw [hfail] at hres'
      cases hres'
    have hconn : ∀ x, s'.conn x = if x = sock then .shut else s.conn x := by
      simp [hc, Function.update_apply]
    constructor <;> grind [List.Nodup.erase]
  · have hin : len < busDataSize ∨ sock ∈ s.srv.socks := by
      rcases hok with hok | hok
      · exact .inl hok
      · exact .inr ((hreg sock hrun).resolve_right hok)
    have hzero : s'.dropped = 0 := by
      rw [hd, hdrop]
      rcases hin with hin | hin
      · simp [Nat.div_eq_of_lt hin]
      · simp [hin]
    have hsame : ∀ x, Pending s' x ↔ Pending s x := by simp [Pending, hl]
    constructor <;> grind
  · have hmem : ∀ x, x ∈ s'.srv.socks ↔ x ≠ sock ∧ x ∈ s.srv.socks := by
      intro x
      rw [hsrv, hnodup.mem_erase_iff]
    have hsame : ∀ x, Pending s' x ↔ Pending s x := by simp [Pending, hl]
    have hnot : ¬ Pending s sock := hok
    have hconn : ∀ x, s'.conn x = if x = sock then .leaving else s.conn x := by
      simp [hc, Function.update_apply]
    constructor <;> grind [List.Nodup.erase]
  · have hsame : ∀ x, Pending s' x ↔ Pending s x := by simp [Pending, hl]
    have hconn : ∀ x, s'.conn x = if x = sock then .free else s.conn x := by
      simp [hc, Function.update_apply]
    constructor <;> grind

/-- **The run lemma.** Every state of a run in order has the invariant. -/
theorem Inv.of_runs {ms : List Move} {s : St} (h : Runs DataBus.step InOrder init ms s) : Inv s :=
  h.invariant inv_init fun _ _ _ hi hok hs => hi.step hok hs

/-- An entry is for a socket that is open and whose connection was registered. -/
theorem Inv.current {s : St} (hi : Inv s) {sock : ℕ} (h : sock ∈ s.srv.socks) :
    Current s sock :=
  ⟨hi.entry_open sock h, fun hp => (hi.pending sock hp).1 h⟩

/-- Closing some socket opens none. -/
theorem Closed.update {s s' : St} {sock x : ℕ} {c : Conn} (hclosed : Closed s sock)
    (hc : s'.conn = Function.update s.conn x c) (hshut : c ≠ .running ∧ c ≠ .idle) :
    Closed s' sock := by
  rw [Closed, hc, Function.update_apply]
  split
  · exact hshut
  · exact hclosed

/-- A closed socket stays closed until its number is accepted again. -/
theorem Closed.step {s s' : St} {m : Move} {sock : ℕ} (hclosed : Closed s sock)
    (hm : ∀ alloc res, m ≠ .accept sock alloc res) (h : DataBus.step s m = some s') :
    Closed s' sock := by
  rcases step_cases h with ⟨x, alloc, res, rfl, -, -, -, -, hrest⟩ |
    ⟨alloc, x, res, rfl, -, -, -, hc, -⟩ | ⟨x, rfl, -, -, -, hc, -⟩ |
    ⟨x, buf, len, rfl, -, -, -, hc, -⟩ | ⟨x, rfl, -, -, -, hc, -⟩ | ⟨x, rfl, -, -, -, hc, -⟩
  · have hne : sock ≠ x := fun heq => hm alloc res (by rw [heq])
    cases alloc with
    | false => rwa [Closed, (hrest : _ ∧ _).2, Function.update_of_ne hne]
    | true => rwa [Closed, (hrest : _ ∧ _).2, Function.update_of_ne hne]
  · rwa [Closed, hc]
  · exact hclosed.update hc (by decide)
  · rwa [Closed, hc]
  · exact hclosed.update hc (by decide)
  · exact hclosed.update hc (by decide)

/-- Where the callbacks are in order, no package is dropped; the entries, and with them the
sockets that `bus_server_send` selects, are those of open sockets whose connection was
registered; and behind `disconnected_cb` there is no entry for the socket until its number is
accepted again. -/
theorem lifecycle_in_order {ms : List Move} {s : St} (h : Runs step InOrder init ms s) :
    s.dropped = 0 ∧ s.srv.socks.Nodup ∧ (∀ sock ∈ s.srv.socks, Current s sock) ∧
    (∀ data sock, busServerSend s.srv data = some sock → Current s sock) ∧
    (∀ sock s', InOrder s (.discon sock) → step s (.discon sock) = some s' →
      ∀ ms' t, Runs step (fun u m => InOrder u m ∧ ∀ alloc res, m ≠ .accept sock alloc res)
        s' ms' t → sock ∉ t.srv.socks) := by
  have hi := Inv.of_runs h
  refine ⟨hi.none_dropped, hi.nodup, fun sock => hi.current, ?_, ?_⟩
  · intro data sock hsend
    exact hi.current (busServerSend_mem hsend)
  · intro sock s' hok hstep ms' t hrun
    have hclosed : Closed s' sock := by
      rcases step_cases hstep with ⟨_, _, _, hm, -⟩ | ⟨_, _, _, hm, -⟩ | ⟨_, hm, -⟩ |
        ⟨_, _, _, hm, -⟩ | ⟨x, hm, -, -, -, hc, -⟩ | ⟨_, hm, -⟩
      all_goals cases hm
      rw [Closed, hc, Function.update_self]
      decide
    have hend : Inv t ∧ Closed t sock := by
      apply hrun.invariant ⟨hi.step hok hstep, hclosed⟩
      intro u m v hu hm hs
      exact ⟨hu.1.step hm.1 hs, hu.2.step hm.2 hs⟩
    intro hmem
    rcases hend.1.entry_open sock hmem with hc | hc
    · exact hend.2.1 hc
    · exact hend.2.2 hc

instance (s : St) (sock : ℕ) : Decidable (Pending s sock) :=
  match hl : s.listen with
  | .created x res =>
      if hx : x = sock then .isTrue ⟨res, by rw [hl, hx]⟩
      else .isFalse (by rintro ⟨res', h⟩; rw [hl] at h; cases h; exact hx rfl)
  | .accepting => .isFalse (by rintro ⟨res', h⟩; rw [hl] at h; cases h)
  | .failed _ => .isFalse (by rintro ⟨res', h⟩; rw [hl] at h; cases h)

instance (s : St) : (m : Move) → Decidable (InOrder s m)
  | .accept _ _ _ => .isTrue trivial
  | .connected alloc => inferInstanceAs (Decidable (alloc = true))
  | .undo => .isTrue trivial
  | .recv sock _ len => inferInstanceAs (Decidable (len < busDataSize ∨ ¬ Pending s sock))
  | .discon sock => inferInstanceAs (Decidable (¬ Pending s sock))
  | .close _ => .isTrue trivial

/-- A connection that is registered, sends a message, and ends. -/
def orderly : List Move :=
  [.accept 5 true 0, .connected true, .recv 5 (fun _ => 0) 524, .discon 5, .close 5]

theorem lifecycle_in_order_orderly :
    ∃ s, Runs step InOrder init orderly s ∧ s.dropped = 0 ∧ s.srv.socks.Nodup := by
  have hsome :
      (orderly.foldlM (fun u a => if InOrder u a then step u a else none) init).isSome := by
    decide
  obtain ⟨s, hs⟩ := Option.isSome_iff_exists.mp hsome
  have hrun : Runs step InOrder init orderly s := .of_guarded hs
  exact ⟨s, hrun, (lifecycle_in_order hrun).1, (lifecycle_in_order hrun).2.1⟩

/-- The first message is received before `connected_cb`: it is dropped. -/
def earlyPackage : List Move := [.accept 5 true 0, .recv 5 (fun _ => 0) 524]

/-- The connection ends before `connected_cb`. -/
def earlyEnd : List Move := [.accept 5 true 0, .discon 5, .connected true, .close 5]

/-- Without the order a package is dropped, and an entry appears for a connection whose end
was handled; it stays when the socket is closed, and `bus_server_send` selects it. -/
theorem lifecycle_out_of_order :
    (∃ s, Runs step (fun _ _ => True) init earlyPackage s ∧ s.dropped = 1) ∧
    (∃ s, Runs step (fun _ _ => True) init earlyEnd s ∧ s.conn 5 = .free ∧ 5 ∈ s.srv.socks ∧
      busServerSend s.srv (blank devTypeInvalid 0) = some 5) := by
  constructor
  · exact ⟨_, .of_foldlM rfl fun _ _ _ => trivial, by decide⟩
  · exact ⟨_, .of_foldlM rfl fun _ _ _ => trivial, by decide, by decide, by decide⟩

end CCode.DataBus
