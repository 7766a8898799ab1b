import CCode.MemShare.Channel

/-!
# Exchanges over the shared buffer

The buffer of a command channel and what passes through it. The callbacks of
`ipc_send_cmd` and `ipc_recv_cmd` access the buffer in single steps, in between any other
steps; the history records what a request callback left, what the receiver's callback
found and left, what a response callback found, and which calls returned zero.

`channel_safety` says that without failures every history is a sequence of complete
exchanges followed by the beginning of one more, and that one party at a time may touch
the buffer. `failure_atomicity_iff` says which failures keep that.

## Main definitions

* `Event`, `State`, `Action`, `State.step` — the channel with its buffer and history.
* `Exchange.events`, `Matched` — what a history is to look like.
* `Owns` — who may touch the buffer.
* `Atomic` — tokens accounted for and exchanges matched.
-/

namespace CCode.MemShare

open CCode.Lib

variable {ι β : Type}

/-- What happens in an exchange: a request callback left `b` in the buffer, the receiver's
callback found `b`, it left `b`, a response callback found `b`, the call returned zero. -/
inductive Event (ι β : Type)
  | posted (i : ι) (b : β)
  | seen (b : β)
  | left (b : β)
  | got (i : ι) (b : β)
  | returned (i : ι)

/-- A channel with its buffer and its history. -/
structure State (ι β : Type) where
  chan : Channel ι
  buf : β
  hist : List (Event ι β)

/-- A channel as `ipc_create_cmd` makes it, with anything in the buffer. -/
def State.init (b : β) : State ι β := ⟨Channel.init, b, []⟩

/-- The parties that know the buffer. -/
inductive Party (ι : Type)
  | sender (i : ι)
  | receiver
  deriving DecidableEq

/-- The party is inside a callback on the buffer. -/
def Channel.InCallback (c : Channel ι) : Party ι → Prop
  | .sender i => c.sender i = .request ∨ c.sender i = .response
  | .receiver => c.receiver = .callback

instance (c : Channel ι) : (p : Party ι) → Decidable (c.InCallback p)
  | .sender i => inferInstanceAs (Decidable (c.sender i = .request ∨ c.sender i = .response))
  | .receiver => inferInstanceAs (Decidable (c.receiver = .callback))

/-- The party owns the buffer: it has been handed over to it and not handed on. -/
def Channel.Owns (c : Channel ι) : Party ι → Prop
  | .sender i => c.sender i = .request ∨ c.sender i = .vSRead ∨ c.sender i = .response ∨
      c.sender i = .vSend
  | .receiver => c.receiver = .callback ∨ c.receiver = .vCRead

/-- A move of the channel, or one access of a party to the buffer. -/
inductive Action (ι β : Type)
  | move (m : Move ι)
  | access (p : Party ι) (f : β → β)

/-- What a move adds to the history. -/
def Move.events (b : β) : Move ι → List (Event ι β)
  | .requestDone i => [.posted i b]
  | .pSRead => [.seen b]
  | .callbackDone => [.left b]
  | .pCRead i => [.got i b]
  | .vSend i => [.returned i]
  | .enter _ | .pSend _ | .vSRead _ | .responseDone _ | .vCRead | .fail _ => []

/-- One step. The buffer is accessed from inside a callback only. -/
def State.step [DecidableEq ι] (s : State ι β) : Action ι β → Option (State ι β)
  | .move m => (s.chan.step m).map fun chan => { s with chan, hist := s.hist ++ m.events s.buf }
  | .access p f => if s.chan.InCallback p then some { s with buf := f s.buf } else none

/-! ## What a history is to look like -/

/-- An exchange: its sender, its request and its reply. -/
structure Exchange (ι β : Type) where
  sender : ι
  request : β
  reply : β

/-- The receiver finds the sender's request, once, and the sender finds the reply to it. -/
def Exchange.events (x : Exchange ι β) : List (Event ι β) :=
  [.posted x.sender x.request, .seen x.request, .left x.reply, .got x.sender x.reply,
    .returned x.sender]

/-- Complete exchanges, and the beginning of one more. -/
def Matched (hist : List (Event ι β)) : Prop :=
  ∃ (done : List (Exchange ι β)) (tail : List (Event ι β)) (x : Option (Exchange ι β)),
    hist = done.flatMap Exchange.events ++ tail ∧
      tail <+: (x.map Exchange.events).getD []

/-- The tokens of the channel are accounted for, and the history is matched. -/
def Atomic (s : State ι β) : Prop := s.chan.Accounted ∧ Matched s.hist

/-! ## The invariant -/

/-- How much of the exchange is in the history at a position. -/
def Pos.done : Pos → ℕ
  | .requesting => 0
  | .posted | .waiting => 1
  | .handling => 2
  | .handled | .replied => 3
  | .responding | .leaving => 4

/-- What the buffer holds where it is on its way from one party to the other. -/
def Pos.Holds (p : Pos) (b : β) (x : Exchange ι β) : Prop :=
  match p with
  | .posted | .waiting => b = x.request
  | .handled | .replied => b = x.reply
  | .requesting | .handling | .responding | .leaving => True

/-- The invariant: the channel is free and the history complete, or one exchange is
running and the history has reached its position. -/
def Inv (s : State ι β) : Prop :=
  (s.chan.Free ∧ ∃ done : List (Exchange ι β), s.hist = done.flatMap Exchange.events) ∨
    ∃ (p : Pos) (done : List (Exchange ι β)) (x : Exchange ι β), s.chan.At x.sender p ∧
      s.hist = done.flatMap Exchange.events ++ x.events.take p.done ∧ p.Holds s.buf x

theorem inv_init (b : β) : Inv (State.init b : State ι β) :=
  .inl ⟨Channel.free_init, [], rfl⟩

theorem Inv.atomic {s : State ι β} (h : Inv s) : Atomic s := by
  rcases h with ⟨hfree, done, hhist⟩ | ⟨p, done, x, hat, hhist, -⟩
  · exact ⟨.inl hfree, done, [], none, by simpa using hhist, List.nil_prefix⟩
  · exact ⟨.inr ⟨_, _, hat⟩, done, _, some x, hhist, List.take_prefix _ _⟩

/-! ## Every step keeps it -/

section Steps

variable {s s' : State ι β}

/-- Only the party that the running exchange has put into a callback touches the
buffer, and what it holds there is up to that party. -/
theorem Inv.access (h : Inv s) {p : Party ι} (hp : s.chan.InCallback p) (f : β → β) :
    Inv { s with buf := f s.buf } := by
  rcases h with ⟨hfree, -⟩ | ⟨pos, done, x, hat, hhist, hholds⟩
  · exfalso
    cases p with
    | sender i =>
        have hout := hfree.outside i
        rcases hp with hp | hp <;> simp [hp, Stage.inside] at hout
    | receiver => simp [Channel.InCallback, hfree.receiver] at hp
  · refine .inr ⟨pos, done, x, hat, hhist, ?_⟩
    suffices hpos : pos = .requesting ∨ pos = .handling ∨ pos = .responding by
      rcases hpos with rfl | rfl | rfl <;> trivial
    cases p with
    | sender i =>
        have hin : (s.chan.sender i).inside = true := by
          rcases hp with hp | hp <;> simp [hp, Stage.inside]
        obtain rfl := hat.eq_of_inside hin
        have hstage := hat.stage
        rcases hp with hp | hp <;> cases pos <;> simp_all [Pos.stage]
    | receiver =>
        have hrecv := hat.receiver
        rw [Channel.InCallback] at hp
        cases pos <;> simp_all [Pos.recvStage]

variable [DecidableEq ι]

theorem Inv.move (h : Inv s) {m : Move ι} (hearly : s.chan.FailsEarly m) {chan : Channel ι}
    (hs : s.chan.step m = some chan) :
    Inv { s with chan, hist := s.hist ++ m.events s.buf } := by
  rcases h with ⟨hfree, done, hhist⟩ | ⟨pos, done, x, hat, hhist, hholds⟩
  · rcases hfree.step hearly hs with ⟨hfree', j, rfl | rfl⟩ | ⟨i, rfl, hat⟩
    · exact .inl ⟨hfree', done, by simpa [Move.events] using hhist⟩
    · exact .inl ⟨hfree', done, by simpa [Move.events] using hhist⟩
    · exact .inr ⟨.requesting, done, ⟨i, s.buf, s.buf⟩, hat,
        by simpa [Move.events, Pos.done] using hhist, trivial⟩
  · rcases hat.step hearly hs with ⟨hat', j, rfl | rfl⟩ | ⟨rfl, hnext⟩
    · exact .inr ⟨pos, done, x, hat', by simpa [Move.events] using hhist, hholds⟩
    · exact .inr ⟨pos, done, x, hat', by simpa [Move.events] using hhist, hholds⟩
    · -- the exchange goes on; the request and the reply become known on the way
      cases pos with
      | requesting =>
          exact .inr ⟨.posted, done, { x with request := s.buf }, hnext,
            by simp [hhist, Pos.done, Pos.move, Move.events, Exchange.events], rfl⟩
      | posted =>
          exact .inr ⟨.waiting, done, x, hnext,
            by simp [hhist, Pos.done, Pos.move, Move.events], hholds⟩
      | waiting =>
          have hbuf : s.buf = x.request := hholds
          exact .inr ⟨.handling, done, x, hnext,
            by simp [hhist, Pos.done, Pos.move, Move.events, Exchange.events, hbuf], trivial⟩
      | handling =>
          exact .inr ⟨.handled, done, { x with reply := s.buf }, hnext,
            by simp [hhist, Pos.done, Pos.move, Move.events, Exchange.events], rfl⟩
      | handled =>
          exact .inr ⟨.replied, done, x, hnext,
            by simp [hhist, Pos.done, Pos.move, Move.events], hholds⟩
      | replied =>
          have hbuf : s.buf = x.reply := hholds
          exact .inr ⟨.responding, done, x, hnext,
            by simp [hhist, Pos.done, Pos.move, Move.events, Exchange.events, hbuf], trivial⟩
      | responding =>
          exact .inr ⟨.leaving, done, x, hnext,
            by simp [hhist, Pos.done, Pos.move, Move.events], trivial⟩
      | leaving =>
          exact .inl ⟨hnext, done ++ [x],
            by simp [hhist, Pos.done, Pos.move, Move.events, Exchange.events]⟩

/-- A failed `semop` in the step is the first one of its call. -/
def State.FailsEarly (s : State ι β) (a : Action ι β) : Prop :=
  ∀ m, a = .move m → s.chan.FailsEarly m

/-- **Every step without a late failure keeps the invariant.** -/
theorem Inv.step (h : Inv s) {a : Action ι β} (hearly : s.FailsEarly a)
    (hs : s.step a = some s') : Inv s' := by
  cases a with
  | move m =>
      simp only [State.step, Option.map_eq_some_iff] at hs
      obtain ⟨chan, hchan, rfl⟩ := hs
      exact h.move (hearly m rfl) hchan
  | access p f =>
      simp only [State.step, Option.ite_none_right_eq_some, Option.some.injEq] at hs
      obtain ⟨hp, rfl⟩ := hs
      exact h.access hp f

end Steps

/-! ## Safety without failures -/

/-- No `semop` fails in the step. -/
def NoFailure (_ : State ι β) (a : Action ι β) : Prop := ∀ i, a ≠ .move (.fail i)

/-- Of any two parties that own the buffer both are the same. -/
def OneOwner (c : Channel ι) : Prop := ∀ p q, c.Owns p → c.Owns q → p = q

/-- The owner of the buffer at a position. -/
def Pos.owner (pos : Pos) (i : ι) : Party ι :=
  match pos with
  | .handling | .handled => .receiver
  | _ => .sender i

theorem Channel.At.eq_owner {c : Channel ι} {i : ι} {pos : Pos} (h : c.At i pos) {p : Party ι}
    (hp : c.Owns p) : p = pos.owner i := by
  have hstage := h.stage
  have hrecv := h.receiver
  cases p with
  | sender j =>
      have hin : (c.sender j).inside = true := by
        rcases hp with hp | hp | hp | hp <;> simp [hp, Stage.inside]
      obtain rfl := h.eq_of_inside hin
      rw [Channel.Owns] at hp
      cases pos <;> simp_all [Pos.stage, Pos.owner]
  | receiver =>
      rw [Channel.Owns] at hp
      cases pos <;> simp_all [Pos.recvStage, Pos.owner]

theorem Channel.Accounted.oneOwner {c : Channel ι} (h : c.Accounted) : OneOwner c := by
  intro p q hp hq
  rcases h with hfree | ⟨i, pos, hat⟩
  · exfalso
    cases p with
    | sender j =>
        have hout := hfree.outside j
        rcases hp with hp | hp | hp | hp <;> simp [hp, Stage.inside] at hout
    | receiver => simp [Channel.Owns, hfree.receiver] at hp
  · rw [hat.eq_owner hp, hat.eq_owner hq]

/-- **The safety of the command channel.** In every state of every run without a failing
`semop`, with any number of senders and whatever the callbacks do with the buffer, at most
one party owns the buffer, each request is seen once and in order, and each response
callback sees what the receiver left for that sender's request. -/
theorem channel_safety [DecidableEq ι] {b : β} {as : List (Action ι β)} {s : State ι β}
    (h : Runs State.step NoFailure (State.init b) as s) :
    OneOwner s.chan ∧ Matched s.hist := by
  have hinv : Inv s := by
    refine h.invariant (inv_init b) ?_
    intro s a s' hinv hno hs
    refine hinv.step ?_ hs
    rintro m rfl i rfl
    exact absurd rfl (hno i)
  exact ⟨hinv.atomic.1.oneOwner, hinv.atomic.2⟩

/-- One of two senders, while the other waits, sends 7 and gets 8. -/
def incrementRun : List (Action Bool ℕ) :=
  [.move (.enter true), .move (.enter false), .move (.pSend true),
    .access (.sender true) fun _ => 7, .move (.requestDone true), .move (.vSRead true),
    .move .pSRead, .access .receiver fun b => b + 1, .move .callbackDone, .move .vCRead,
    .move (.pCRead true), .move (.responseDone true), .move (.vSend true)]

theorem channel_safety_incrementRun :
    ∃ s, incrementRun.foldlM State.step (State.init 0) = some s ∧
      s.hist = [.posted true 7, .seen 7, .left 8, .got true 8, .returned true] ∧
        OneOwner s.chan ∧ Matched s.hist := by
  refine ⟨_, rfl, rfl, ?_⟩
  have hno : ∀ s, ∀ a ∈ incrementRun, NoFailure s a := by
    intro s a ha i
    revert a
    simp [incrementRun]
  exact channel_safety (b := 0) (Runs.of_foldlM rfl hno)

/-! ## Failures -/

/-- **Failure atomicity.** A run leaves every state with its tokens accounted for and its
exchanges matched exactly when each failing `semop` in it is the first one of its call. A
later one returns without giving back the `SEND` token, and without waiting for the reply
that the receiver may still post. -/
theorem failure_atomicity_iff [DecidableEq ι] (b : β) (as : List (Action ι β))
    (s : State ι β) :
    Runs State.step State.FailsEarly (State.init b) as s ↔
      Runs State.step (fun s a => ∀ s', s.step a = some s' → Atomic s') (State.init b) as s := by
  have hinv : ∀ {as : List (Action ι β)} {s : State ι β},
      Runs State.step State.FailsEarly (State.init b) as s → Inv s := by
    intro as s h
    exact h.invariant (inv_init b) fun s a s' hinv hearly hs => hinv.step hearly hs
  constructor
  · intro h
    induction h with
    | refl => exact .refl
    | snoc hrun hearly hs ih =>
        exact .snoc ih (fun s' hs' => ((hinv hrun).step hearly hs').atomic) hs
  · intro h
    induction h with
    | refl => exact .refl
    | @snoc as a t u hrun hatomic hs ih =>
        refine .snoc ih ?_ hs
        rintro m rfl i rfl
        by_contra hlate
        simp only [State.step, Option.map_eq_some_iff] at hs
        obtain ⟨chan, hchan, rfl⟩ := hs
        have hstep : t.step (.move (.fail i)) = some { t with
            chan
            hist := t.hist ++ (Move.fail i).events t.buf } := by
          simp [State.step, hchan]
        exact (hinv ih).atomic.1.late_fail hlate hchan (hatomic _ hstep).1

/-- The only sender is interrupted while it waits for the reply, which the receiver then
posts. -/
def interruptedRun : List (Action Unit ℕ) :=
  [.move (.enter ()), .move (.pSend ()), .move (.requestDone ()), .move (.vSRead ()),
    .move (.fail ()), .move .pSRead, .move .callbackDone, .move .vCRead]

/-- The call has returned, `SEND` is not given back, and a `C_READ` token is left. -/
theorem interrupted_send_not_atomic :
    ∃ s, Runs State.step (fun _ _ => True) (State.init 0) interruptedRun s ∧
      s.chan.sender () = .idle ∧ s.chan.send = 0 ∧ s.chan.cRead = 1 ∧ ¬ Atomic s := by
  refine ⟨_, Runs.of_foldlM rfl (fun _ _ _ => trivial), rfl, rfl, rfl, ?_⟩
  intro hatomic
  exact Channel.not_accounted_of_lost rfl (fun _ => rfl) hatomic.1

end CCode.MemShare
