import CCode.Lib.Transition
import Mathlib.Logic.Function.Basic

/-!
# The command channel

`ipc_send_cmd` and `ipc_recv_cmd` of `ipc_cmd.c` as a machine: the three semaphores of a
channel, where each sender is in `ipc_send_cmd`, and where the receiver is in its loop on
`ipc_recv_cmd`. One move is one `semop`, or the end of a callback. A `semop` that has to
wait is a move that is not enabled.

The three semaphores hand one token around. `At` says where it is: which sender is inside
and which of the eight positions of the exchange has been reached; then everything else
about the channel is determined, and so is the one move that goes on. `Accounted` is the
invariant, and `Accounted.step` the only case analysis over the moves.

## Main definitions

* `Stage`, `RecvStage`, `Channel` — the state of a channel.
* `Move`, `Channel.step` — the moves.
* `Pos`, `Channel.At`, `Channel.Free`, `Channel.Accounted` — where the token is.
-/

namespace CCode.MemShare

open CCode.Lib

/-- Where a sender is in `ipc_send_cmd`: before each of the four `semop` calls, inside one
of the two callbacks, or not in it. -/
inductive Stage
  | idle | pSend | request | vSRead | pCRead | response | vSend
  deriving DecidableEq

/-- The sender has taken the `SEND` token. -/
def Stage.inside : Stage → Bool
  | .idle | .pSend => false
  | .request | .vSRead | .pCRead | .response | .vSend => true

/-- Where the receiver is in `ipc_recv_cmd`. -/
inductive RecvStage
  | pSRead | callback | vCRead
  deriving DecidableEq

variable {ι : Type}

/-- A channel: the values of `SEM_NSEM_SEND`, `SEM_NSEM_C_READ` and `SEM_NSEM_S_READ`, the
senders, and the receiver. -/
structure Channel (ι : Type) where
  send : ℕ
  cRead : ℕ
  sRead : ℕ
  sender : ι → Stage
  receiver : RecvStage

/-- `cmd_sem_value`, with nobody in a call and the receiver at the head of its loop. -/
def Channel.init : Channel ι where
  send := 1
  cRead := 0
  sRead := 0
  sender := fun _ => .idle
  receiver := .pSRead

/-- The moves: a sender enters `ipc_send_cmd`, performs its next `semop` or ends a
callback; the receiver likewise; or a `semop` of a sender fails. -/
inductive Move (ι : Type)
  | enter (i : ι)
  | pSend (i : ι)
  | requestDone (i : ι)
  | vSRead (i : ι)
  | pCRead (i : ι)
  | responseDone (i : ι)
  | vSend (i : ι)
  | pSRead
  | callbackDone
  | vCRead
  | fail (i : ι)
  deriving DecidableEq

/-- The next move of a sender at a stage. -/
def Stage.move (i : ι) : Stage → Option (Move ι)
  | .idle => none
  | .pSend => some (.pSend i)
  | .request => some (.requestDone i)
  | .vSRead => some (.vSRead i)
  | .pCRead => some (.pCRead i)
  | .response => some (.responseDone i)
  | .vSend => some (.vSend i)

/-- The stage that it leads to. -/
def Stage.next : Stage → Stage
  | .idle => .idle
  | .pSend => .request
  | .request => .vSRead
  | .vSRead => .pCRead
  | .pCRead => .response
  | .response => .vSend
  | .vSend => .idle

/-- The next move of the receiver at a stage. -/
def RecvStage.move : RecvStage → Move ι
  | .pSRead => .pSRead
  | .callback => .callbackDone
  | .vCRead => .vCRead

/-- The stage that it leads to. -/
def RecvStage.next : RecvStage → RecvStage
  | .pSRead => .callback
  | .callback => .vCRead
  | .vCRead => .pSRead

theorem Stage.move_ne_fail {x : Stage} {i : ι} {m : Move ι} (hm : x.move i = some m) (j : ι) :
    m ≠ .fail j := by
  rintro rfl
  cases x <;> simp [Stage.move] at hm

theorem Stage.exists_move {x : Stage} (i : ι) (hx : x ≠ .idle) : ∃ m, x.move i = some m := by
  cases x <;> simp [Stage.move] at hx ⊢

theorem RecvStage.move_ne_fail (r : RecvStage) (i : ι) : r.move ≠ .fail i := by
  cases r <;> simp [RecvStage.move]

/-! ## Where the token is -/

/-- The positions of an exchange. -/
inductive Pos
  | requesting | posted | waiting | handling | handled | replied | responding | leaving
  deriving DecidableEq

/-- The stage of the sender at a position. -/
def Pos.stage : Pos → Stage
  | .requesting => .request
  | .posted => .vSRead
  | .waiting | .handling | .handled | .replied => .pCRead
  | .responding => .response
  | .leaving => .vSend

/-- The stage of the receiver at a position. -/
def Pos.recvStage : Pos → RecvStage
  | .handling => .callback
  | .handled => .vCRead
  | _ => .pSRead

/-- The values of `C_READ` and `S_READ` at a position. -/
def Pos.reads : Pos → ℕ × ℕ
  | .waiting => (0, 1)
  | .replied => (1, 0)
  | _ => (0, 0)

/-- The move that goes on from a position. -/
def Pos.move (p : Pos) (i : ι) : Move ι :=
  match p with
  | .requesting => .requestDone i
  | .posted => .vSRead i
  | .waiting => .pSRead
  | .handling => .callbackDone
  | .handled => .vCRead
  | .replied => .pCRead i
  | .responding => .responseDone i
  | .leaving => .vSend i

/-- The position it goes on to, `none` at the end of the exchange. -/
def Pos.next : Pos → Option Pos
  | .requesting => some .posted
  | .posted => some .waiting
  | .waiting => some .handling
  | .handling => some .handled
  | .handled => some .replied
  | .replied => some .responding
  | .responding => some .leaving
  | .leaving => none

/-- No sender is inside: the token is in `SEND`. -/
structure Channel.Free (c : Channel ι) : Prop where
  send : c.send = 1
  reads : (c.cRead, c.sRead) = (0, 0)
  receiver : c.receiver = .pSRead
  outside : ∀ i, (c.sender i).inside = false

/-- The sender `i` alone is inside, at the position `p` of its exchange. -/
structure Channel.At (c : Channel ι) (i : ι) (p : Pos) : Prop where
  send : c.send = 0
  reads : (c.cRead, c.sRead) = p.reads
  receiver : c.receiver = p.recvStage
  stage : c.sender i = p.stage
  outside : ∀ j, j ≠ i → (c.sender j).inside = false

/-- Every token of the channel is accounted for: it is in `SEND`, or belongs to the
exchange of the one sender inside. -/
def Channel.Accounted (c : Channel ι) : Prop := c.Free ∨ ∃ i p, c.At i p

theorem Channel.free_init : (Channel.init : Channel ι).Free := ⟨rfl, rfl, rfl, fun _ => rfl⟩

@[simp] theorem Pos.inside_stage (p : Pos) : p.stage.inside = true := by cases p <;> rfl

/-- A sender that is inside is the one whose exchange is running. -/
theorem Channel.At.eq_of_inside {c : Channel ι} {i j : ι} {p : Pos} (h : c.At i p)
    (hj : (c.sender j).inside = true) : j = i := by
  by_contra hne
  simp [h.outside j hne] at hj

/-- The position of an exchange is determined by the channel. -/
theorem Channel.At.unique {c : Channel ι} {i j : ι} {p q : Pos} (h : c.At i p) (h' : c.At j q) :
    j = i ∧ q = p := by
  have hji : j = i := h.eq_of_inside (by rw [h'.stage, q.inside_stage])
  subst hji
  refine ⟨rfl, ?_⟩
  have hstage := h.stage.symm.trans h'.stage
  have hrecv := h.receiver.symm.trans h'.receiver
  have hreads := h.reads.symm.trans h'.reads
  cases p <;> cases q <;> simp [Pos.stage, Pos.recvStage, Pos.reads] at hstage hrecv hreads ⊢

/-- At most one sender is inside. -/
theorem Channel.Accounted.inside_unique {c : Channel ι} (h : c.Accounted) {i j : ι}
    (hi : (c.sender i).inside = true) (hj : (c.sender j).inside = true) : i = j := by
  rcases h with h | ⟨k, p, h⟩
  · simp [h.outside i] at hi
  · rw [h.eq_of_inside hi, h.eq_of_inside hj]

/-- A `SEND` token that is neither in its semaphore nor with a sender is lost. -/
theorem Channel.not_accounted_of_lost {c : Channel ι} (hsend : c.send = 0)
    (hout : ∀ i, (c.sender i).inside = false) : ¬ c.Accounted := by
  rintro (h | ⟨i, p, h⟩)
  · exact absurd (h.send.symm.trans hsend) (by simp)
  · have hin := p.inside_stage
    rw [← h.stage, hout i] at hin
    cases hin

/-- While the receiver is in its callback a sender waits for the reply. -/
theorem Channel.Accounted.waiting_of_callback {c : Channel ι} (h : c.Accounted)
    (hr : c.receiver = .callback) : ∃ i, c.sender i = .pCRead ∧ c.cRead = 0 := by
  rcases h with h | ⟨i, p, h⟩
  · simp [h.receiver] at hr
  · have hrecv := h.receiver
    rw [hr] at hrecv
    cases p <;> simp [Pos.recvStage] at hrecv
    exact ⟨i, h.stage, (Prod.mk.inj h.reads).1⟩

/-! ## The moves -/

variable [DecidableEq ι]

/-- The sender goes to a stage. -/
def Channel.goto (c : Channel ι) (i : ι) (stage : Stage) : Channel ι :=
  { c with sender := Function.update c.sender i stage }

/-- One move, `none` where it is not enabled. A null `response_cb` is a callback that
does nothing. A failed `semop` makes `ipc_send_cmd` return at once, whatever it has taken
or given so far. -/
def Channel.step (c : Channel ι) : Move ι → Option (Channel ι)
  | .enter i => if c.sender i = .idle then some (c.goto i .pSend) else none
  | .pSend i =>
      if c.sender i = .pSend ∧ 0 < c.send then
        some { c.goto i .request with send := c.send - 1 }
      else none
  | .requestDone i => if c.sender i = .request then some (c.goto i .vSRead) else none
  | .vSRead i =>
      if c.sender i = .vSRead then some { c.goto i .pCRead with sRead := c.sRead + 1 } else none
  | .pCRead i =>
      if c.sender i = .pCRead ∧ 0 < c.cRead then
        some { c.goto i .response with cRead := c.cRead - 1 }
      else none
  | .responseDone i => if c.sender i = .response then some (c.goto i .vSend) else none
  | .vSend i =>
      if c.sender i = .vSend then some { c.goto i .idle with send := c.send + 1 } else none
  | .pSRead =>
      if c.receiver = .pSRead ∧ 0 < c.sRead then
        some { c with sRead := c.sRead - 1, receiver := .callback }
      else none
  | .callbackDone => if c.receiver = .callback then some { c with receiver := .vCRead } else none
  | .vCRead =>
      if c.receiver = .vCRead then some { c with cRead := c.cRead + 1, receiver := .pSRead }
      else none
  | .fail i =>
      match c.sender i with
      | .pSend | .vSRead | .pCRead | .vSend => some (c.goto i .idle)
      | .idle | .request | .response => none

/-- The move is no failure, or the failure of the first `semop`, which has taken nothing
yet. -/
def Channel.FailsEarly (c : Channel ι) (m : Move ι) : Prop :=
  ∀ i, m = .fail i → c.sender i = .pSend

namespace Channel

variable {c c' : Channel ι} {i : ι} {p : Pos} {m : Move ι}

/-- Moving a sender between two stages outside changes nothing for the others. -/
theorem Free.goto (h : c.Free) (i : ι) {stage : Stage} (hs : stage.inside = false) :
    (c.goto i stage).Free where
  send := h.send
  reads := h.reads
  receiver := h.receiver
  outside j := by
    by_cases hj : j = i
    · simp [Channel.goto, hj, hs]
    · simpa [Channel.goto, hj] using h.outside j

theorem At.goto (h : c.At i p) {j : ι} (hj : j ≠ i) {stage : Stage} (hs : stage.inside = false) :
    (c.goto j stage).At i p where
  send := h.send
  reads := h.reads
  receiver := h.receiver
  stage := by simpa [Channel.goto, hj.symm] using h.stage
  outside k hk := by
    by_cases hkj : k = j
    · simp [Channel.goto, hkj, hs]
    · simpa [Channel.goto, hkj] using h.outside k hk

/-- The exchange goes on to a position when the semaphores, the receiver and the sender's
own stage do. -/
theorem At.advance (h : c.At i p) {q : Pos} (hsend : c'.send = c.send)
    (hreads : (c'.cRead, c'.sRead) = q.reads) (hrecv : c'.receiver = q.recvStage)
    (hsender : c'.sender = Function.update c.sender i q.stage) : c'.At i q where
  send := by rw [hsend, h.send]
  reads := hreads
  receiver := hrecv
  stage := by simp [hsender]
  outside j hj := by simpa [hsender, hj] using h.outside j hj

/-- From a free channel a sender enters, fails early, or takes the token. -/
theorem Free.step (h : c.Free) (hearly : c.FailsEarly m) (hs : c.step m = some c') :
    (c'.Free ∧ ∃ j, m = .enter j ∨ m = .fail j) ∨ ∃ i, m = .pSend i ∧ c'.At i .requesting := by
  obtain ⟨hcread, hsread⟩ := Prod.mk.inj h.reads
  -- a stage inside is not there
  have hno : ∀ {j : ι} {stage : Stage}, stage.inside = true → c.sender j ≠ stage := by
    intro j stage hin hj
    have := h.outside j
    simp [hj, hin] at this
  cases m with
  | enter j =>
      simp only [Channel.step, Option.ite_none_right_eq_some, Option.some.injEq] at hs
      exact .inl ⟨hs.2 ▸ h.goto j rfl, j, .inl rfl⟩
  | pSend j =>
      simp only [Channel.step, Option.ite_none_right_eq_some, Option.some.injEq] at hs
      obtain ⟨-, rfl⟩ := hs
      refine .inr ⟨j, rfl, ?_⟩
      exact
        { send := by simp [h.send]
          reads := h.reads
          receiver := h.receiver
          stage := by simp [Channel.goto, Pos.stage]
          outside := fun k hk => by simpa [Channel.goto, hk] using h.outside k }
  | requestDone j | vSRead j | responseDone j | vSend j =>
      simp only [Channel.step, Option.ite_none_right_eq_some] at hs
      exact absurd hs.1 (hno rfl)
  | pCRead j => simp [Channel.step, hcread] at hs
  | pSRead => simp [Channel.step, hsread] at hs
  | callbackDone | vCRead => simp [Channel.step, h.receiver] at hs
  | fail j =>
      have hj := hearly j rfl
      simp only [Channel.step, hj, Option.some.injEq] at hs
      exact .inl ⟨hs ▸ h.goto j rfl, j, .inr rfl⟩

/-- From a running exchange other senders enter or fail early, or it goes on. -/
theorem At.step (h : c.At i p) (hearly : c.FailsEarly m) (hs : c.step m = some c') :
    (c'.At i p ∧ ∃ j, m = .enter j ∨ m = .fail j) ∨
      (m = p.move i ∧
        match p.next with
        | some q => c'.At i q
        | none => c'.Free) := by
  have hsend := h.send
  have hstage := h.stage
  have hrecv := h.receiver
  obtain ⟨hcread, hsread⟩ : c.cRead = p.reads.1 ∧ c.sRead = p.reads.2 := Prod.ext_iff.mp h.reads
  -- a sender at a stage inside is `i`, so the stage says which position it is
  have hinside : ∀ {j : ι} {stage : Stage}, c.sender j = stage → stage.inside = true →
      j = i ∧ p.stage = stage := by
    intro j stage hj hin
    obtain rfl := h.eq_of_inside (hj ▸ hin)
    exact ⟨rfl, hstage ▸ hj⟩
  have hne : ∀ {j : ι} {stage : Stage}, c.sender j = stage → stage.inside = false → j ≠ i := by
    rintro j stage hj hout rfl
    simp [← hj, hstage] at hout
  cases m with
  | enter j =>
      simp only [Channel.step, Option.ite_none_right_eq_some, Option.some.injEq] at hs
      exact .inl ⟨hs.2 ▸ h.goto (hne hs.1 rfl) rfl, j, .inl rfl⟩
  | pSend j => simp [Channel.step, hsend] at hs
  | requestDone j =>
      simp only [Channel.step, Option.ite_none_right_eq_some, Option.some.injEq] at hs
      obtain ⟨hj, rfl⟩ := hs
      obtain ⟨rfl, hp⟩ := hinside hj rfl
      cases p <;> simp [Pos.stage] at hp
      exact .inr ⟨rfl, h.advance rfl h.reads hrecv rfl⟩
  | vSRead j =>
      simp only [Channel.step, Option.ite_none_right_eq_some, Option.some.injEq] at hs
      obtain ⟨hj, rfl⟩ := hs
      obtain ⟨rfl, hp⟩ := hinside hj rfl
      cases p <;> simp [Pos.stage] at hp
      exact .inr ⟨rfl, h.advance rfl (by simp [Channel.goto, hcread, hsread, Pos.reads]) hrecv rfl⟩
  | pCRead j =>
      simp only [Channel.step, Option.ite_none_right_eq_some, Option.some.injEq] at hs
      obtain ⟨⟨hj, hpos⟩, rfl⟩ := hs
      obtain ⟨rfl, hp⟩ := hinside hj rfl
      cases p <;> simp [Pos.stage] at hp <;> simp [hcread, Pos.reads] at hpos
      exact .inr ⟨rfl, h.advance rfl (by simp [Channel.goto, hcread, hsread, Pos.reads]) hrecv rfl⟩
  | responseDone j =>
      simp only [Channel.step, Option.ite_none_right_eq_some, Option.some.injEq] at hs
      obtain ⟨hj, rfl⟩ := hs
      obtain ⟨rfl, hp⟩ := hinside hj rfl
      cases p <;> simp [Pos.stage] at hp
      exact .inr ⟨rfl, h.advance rfl h.reads hrecv rfl⟩
  | vSend j =>
      simp only [Channel.step, Option.ite_none_right_eq_some, Option.some.injEq] at hs
      obtain ⟨hj, rfl⟩ := hs
      obtain ⟨rfl, hp⟩ := hinside hj rfl
      cases p <;> simp [Pos.stage] at hp
      refine .inr ⟨rfl, ⟨?_, h.reads, hrecv, ?_⟩⟩
      · simp [hsend]
      · intro k
        by_cases hk : k = j
        · simp [Channel.goto, hk, Stage.inside]
        · simpa [Channel.goto, hk] using h.outside k hk
  | pSRead =>
      simp only [Channel.step, Option.ite_none_right_eq_some, Option.some.injEq] at hs
      obtain ⟨⟨-, hpos⟩, rfl⟩ := hs
      cases p <;> simp [hsread, Pos.reads] at hpos
      exact .inr ⟨rfl, h.advance rfl (by simp [hcread, hsread, Pos.reads]) rfl
        (Function.update_eq_self_iff.mpr hstage.symm).symm⟩
  | callbackDone =>
      simp only [Channel.step, Option.ite_none_right_eq_some, Option.some.injEq] at hs
      obtain ⟨hr, rfl⟩ := hs
      cases p <;> simp [hrecv, Pos.recvStage] at hr
      exact .inr ⟨rfl, h.advance rfl h.reads rfl
        (Function.update_eq_self_iff.mpr hstage.symm).symm⟩
  | vCRead =>
      simp only [Channel.step, Option.ite_none_right_eq_some, Option.some.injEq] at hs
      obtain ⟨hr, rfl⟩ := hs
      cases p <;> simp [hrecv, Pos.recvStage] at hr
      exact .inr ⟨rfl, h.advance rfl (by simp [hcread, hsread, Pos.reads]) rfl
        (Function.update_eq_self_iff.mpr hstage.symm).symm⟩
  | fail j =>
      have hj := hearly j rfl
      simp only [Channel.step, hj, Option.some.injEq] at hs
      exact .inl ⟨hs ▸ h.goto (hne hj rfl) rfl, j, .inr rfl⟩

/-- **Every move without a late failure keeps the tokens accounted for.** -/
theorem Accounted.step (h : c.Accounted) (hearly : c.FailsEarly m) (hs : c.step m = some c') :
    c'.Accounted := by
  rcases h with h | ⟨i, p, h⟩
  · rcases h.step hearly hs with ⟨h', -⟩ | ⟨i, -, h'⟩
    · exact .inl h'
    · exact .inr ⟨i, _, h'⟩
  · rcases h.step hearly hs with ⟨h', -⟩ | ⟨-, h'⟩
    · exact .inr ⟨i, p, h'⟩
    · split at h'
      · exact .inr ⟨i, _, h'⟩
      · exact .inl h'

/-- How an exchange gets to a position: it was there, it went on to there, or it has just
begun. -/
theorem Accounted.step_at {q : Pos} (h : c.Accounted) (hearly : c.FailsEarly m)
    (hs : c.step m = some c') (h' : c'.At i q) :
    (c.At i q ∧ ∃ j, m = .enter j ∨ m = .fail j) ∨
      (∃ p, c.At i p ∧ p.next = some q ∧ m = p.move i) ∨ (m = .pSend i ∧ q = .requesting) := by
  rcases h with h | ⟨k, p, h⟩
  · rcases h.step hearly hs with ⟨hfree, -⟩ | ⟨k, hm, hk⟩
    · exact absurd (hfree.send.symm.trans h'.send) (by simp)
    · obtain ⟨rfl, rfl⟩ := hk.unique h'
      exact .inr (.inr ⟨hm, rfl⟩)
  · rcases h.step hearly hs with ⟨hk, hj⟩ | ⟨hm, hnext⟩
    · obtain ⟨rfl, rfl⟩ := hk.unique h'
      exact .inl ⟨h, hj⟩
    · cases hp : p.next with
      | none =>
          rw [hp] at hnext
          exact absurd (hnext.send.symm.trans h'.send) (by simp)
      | some r =>
          rw [hp] at hnext
          obtain ⟨rfl, rfl⟩ := hnext.unique h'
          exact .inr (.inl ⟨p, h, hp, hm⟩)

/-- A failure after the first `semop` loses the token: `SEND` is not given back, and no
sender is inside any more to do it. -/
theorem Accounted.late_fail (h : c.Accounted) (hi : c.sender i ≠ .pSend)
    (hs : c.step (.fail i) = some c') : ¬ c'.Accounted := by
  have hin : (c.sender i).inside = true := by
    cases hst : c.sender i <;> simp_all [Channel.step, Stage.inside]
  obtain rfl : c.goto i .idle = c' := by
    cases hst : c.sender i <;> simp_all [Channel.step]
  rcases h with h | ⟨j, p, h⟩
  · simp [h.outside i] at hin
  · obtain rfl := h.eq_of_inside hin
    refine not_accounted_of_lost h.send ?_
    intro k
    by_cases hki : k = i
    · simp [Channel.goto, hki, Stage.inside]
    · simpa [Channel.goto, hki] using h.outside k hki

/-- The exchange can always go on. -/
theorem At.enabled (h : c.At i p) : ∃ c', c.step (p.move i) = some c' := by
  obtain ⟨hcread, hsread⟩ : c.cRead = p.reads.1 ∧ c.sRead = p.reads.2 := Prod.ext_iff.mp h.reads
  have hstage := h.stage
  have hrecv := h.receiver
  cases p <;> simp_all [Channel.step, Pos.move, Pos.stage, Pos.recvStage, Pos.reads]

end Channel

/-! ## The parties one by one -/

namespace Channel

variable {c c' : Channel ι} {i : ι} {m : Move ι}

/-- A sender's next move changes its own stage only. -/
theorem step_sender (hm : (c.sender i).move i = some m) (hs : c.step m = some c') :
    c'.sender = Function.update c.sender i (c.sender i).next ∧ c'.receiver = c.receiver := by
  cases hst : c.sender i <;> rw [hst] at hm <;> cases hm <;>
    simp only [Channel.step, Option.ite_none_right_eq_some, Option.some.injEq] at hs <;>
    obtain ⟨-, rfl⟩ := hs <;> exact ⟨rfl, rfl⟩

/-- Entering a call changes the caller's stage only. -/
theorem step_enter (hs : c.step (.enter i) = some c') :
    c.sender i = .idle ∧ c'.sender = Function.update c.sender i .pSend ∧
      c'.receiver = c.receiver := by
  simp only [Channel.step, Option.ite_none_right_eq_some, Option.some.injEq] at hs
  obtain ⟨hidle, rfl⟩ := hs
  exact ⟨hidle, rfl, rfl⟩

/-- The receiver's next move changes its own stage only. -/
theorem step_receiver (hs : c.step c.receiver.move = some c') :
    c'.sender = c.sender ∧ c'.receiver = c.receiver.next := by
  cases hst : c.receiver <;> rw [hst] at hs <;>
    simp only [Channel.step, RecvStage.move, Option.ite_none_right_eq_some,
      Option.some.injEq] at hs <;> obtain ⟨-, rfl⟩ := hs <;> exact ⟨rfl, rfl⟩

/-- **Whom a sender waits for.** A sender that cannot move is waiting for `SEND`, which
another sender has taken, or for the reply. -/
theorem Accounted.blocked (h : c.Accounted) (hm : (c.sender i).move i = some m)
    (hs : c.step m = none) :
    (c.sender i = .pSend ∧ c.send = 0 ∧ ∃ j, (c.sender j).inside = true) ∨
      (c.sender i = .pCRead ∧ c.cRead = 0) := by
  cases hst : c.sender i with
  | idle => simp [hst, Stage.move] at hm
  | request | vSRead | response | vSend =>
      rw [hst] at hm
      cases hm
      simp [Channel.step, hst] at hs
  | pSend =>
      rw [hst] at hm
      cases hm
      have hsend : c.send = 0 := by simpa [Channel.step, hst] using hs
      rcases h with h | ⟨j, p, h⟩
      · exact absurd (h.send.symm.trans hsend) (by simp)
      · exact .inl ⟨rfl, hsend, j, by rw [h.stage, p.inside_stage]⟩
  | pCRead =>
      rw [hst] at hm
      cases hm
      exact .inr ⟨rfl, by simpa [Channel.step, hst] using hs⟩

/-- While a sender waits for its reply the receiver can move. -/
theorem Accounted.receiver_enabled (h : c.Accounted) (hi : c.sender i = .pCRead)
    (hread : c.cRead = 0) : ∃ c', c.step c.receiver.move = some c' := by
  rcases h with h | ⟨j, p, h⟩
  · have hout := h.outside i
    simp [hi, Stage.inside] at hout
  · obtain rfl := h.eq_of_inside (j := i) (by simp [hi, Stage.inside])
    obtain ⟨c', hstep⟩ := h.enabled
    have hstage := h.stage
    have hreads := h.reads
    rw [hi] at hstage
    cases p <;> simp [Pos.stage] at hstage <;> simp [Pos.reads, hread] at hreads <;>
      exact ⟨c', by rw [h.receiver]; exact hstep⟩

end Channel

end CCode.MemShare
