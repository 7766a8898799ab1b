import CCode.Lib.Transition
import CCode.MsgHandle.Queue
import Mathlib.Algebra.BigOperators.Group.Finset.Basic

/-!
# The worker and its callers

`msg_send` takes the mutex, appends to the queue, gives the mutex back and only then posts
the semaphore; the worker waits for the semaphore, takes the mutex, pops, and calls the
callback without the mutex. Each of these is a move of its own. The end comes through the
queue as well: `msg_handle_destory` is a `msg_send` of a marker, and the worker that pops it
frees the handle and returns.

Every caller makes one call; a thread that makes several is several callers. The caller
`none` is `msg_handle_destory`, before its join. An allocation may fail, which `msg_send`
does not notice. What a caller does to a handle that has been freed is undefined, and the
machine has no move for it.

`Ledger` relates the trace to the queue and the semaphore: what was enqueued is what was
called, what the worker has in hand and what is in the queue, and there is a token for each
message in the queue, in the semaphore, with a caller that has not posted yet, or with the
worker. `msg_queue_delivery` follows for every run.

## Main definitions

* `Handle`, `Move`, `step` — the machine.
* `enqueued`, `calls` — what a trace appends and what it calls.
* `Locks`, `Ledger` — the invariant.
* `Quiet` — nobody inside can move.
-/

namespace CCode.MsgHandle

open CCode.Lib

/-- Where a caller is in `msg_send`. -/
inductive CallStage
  | idle | locked | pushed | unlocked | done
  deriving DecidableEq

/-- Where the worker is in the loop of `msg_pthread_func`. A failed `sem_wait` leaves it in
an empty loop. -/
inductive WorkerStage
  | waiting | woken | locked | popped (msg : Msg) | calling (msg : Msg) | failed | exited
  deriving DecidableEq

variable {ι : Type}

/-- Who holds the mutex. -/
inductive Holder (ι : Type)
  | caller (i : Option ι) | worker
  deriving DecidableEq

/-- `struct msg_handle`, with its threads. -/
structure Handle (ι : Type) where
  sem : ℕ
  mutex : Option (Holder ι)
  queue : MsgQueue
  caller : Option ι → CallStage
  worker : WorkerStage

/-- `msg_handle_new`. -/
def msgHandleNew : Handle ι where
  sem := 0
  mutex := none
  queue := msgQueueNew
  caller := fun _ => .idle
  worker := .waiting

/-- What a caller sends. -/
def sent (msgs : ι → Msg) : Option ι → Msg
  | none => ⟨msgHandleDestory, 0⟩
  | some i => msgs i

/-- The moves of the callers and of the worker. -/
inductive Move (ι : Type)
  | lock (i : Option ι)
  | push (i : Option ι) (alloc : Option ℕ)
  | unlock (i : Option ι)
  | post (i : Option ι)
  | semWait
  | semFail
  | workerLock
  | pop
  | destory
  | workerUnlock
  | callback (msg : Msg)
  deriving DecidableEq

/-- `msg_send`, from the mutex to the semaphore. Memory that is allocated was free. -/
def callerStep [DecidableEq ι] (msgs : ι → Msg) (s : Handle ι) : Move ι → Option (Handle ι)
  | .lock i =>
      if s.caller i = .idle ∧ s.mutex = none then
        some { s with mutex := some (.caller i), caller := Function.update s.caller i .locked }
      else none
  | .push i alloc =>
      if s.caller i = .locked ∧ alloc.all (fun p => (s.queue.heap p).isNone) then do
        let queue ← queuePushTail s.queue (sent msgs i) alloc
        some { s with queue, caller := Function.update s.caller i .pushed }
      else none
  | .unlock i =>
      if s.caller i = .pushed then
        some { s with mutex := none, caller := Function.update s.caller i .unlocked }
      else none
  | .post i =>
      if s.caller i = .unlocked then
        some { s with sem := s.sem + 1, caller := Function.update s.caller i .done }
      else none
  | _ => none

/-- The loop of `msg_pthread_func`. -/
def workerStep (s : Handle ι) : Move ι → Option (Handle ι)
  | .semWait =>
      if s.worker = .waiting ∧ 0 < s.sem then
        some { s with sem := s.sem - 1, worker := .woken }
      else none
  | .semFail => if s.worker = .waiting then some { s with worker := .failed } else none
  | .workerLock =>
      if s.worker = .woken ∧ s.mutex = none then
        some { s with mutex := some .worker, worker := .locked }
      else none
  | .pop =>
      if s.worker = .locked then do
        let (queue, msg) ← queuePopHead s.queue
        some { s with queue, worker := .popped msg }
      else none
  | .destory =>
      match s.worker with
      | .popped msg =>
          if msg.cmd = msgHandleDestory then
            some { s with mutex := none, queue := msgQueueNew, worker := .exited }
          else none
      | _ => none
  | .workerUnlock =>
      match s.worker with
      | .popped msg =>
          if msg.cmd = msgHandleDestory then none
          else
            some { s with
              mutex := none
              worker := if msg.cmd ≠ queueCmdError then .calling msg else .waiting }
      | _ => none
  | .callback msg =>
      if s.worker = .calling msg then some { s with worker := .waiting } else none
  | _ => none

/-- A move; none when the handle has been freed. -/
def step [DecidableEq ι] (msgs : ι → Msg) (s : Handle ι) (a : Move ι) : Option (Handle ι) :=
  if s.worker = .exited then none else (callerStep msgs s a).or (workerStep s a)

/-- The messages that a trace appends to the queue. -/
def enqueued (msgs : ι → Msg) (as : List (Move ι)) : List Msg :=
  as.filterMap fun
    | .push i (some _) => some (sent msgs i)
    | _ => none

/-- The calls of the callback in a trace. -/
def calls (as : List (Move ι)) : List Msg :=
  as.filterMap fun
    | .callback msg => some msg
    | _ => none

/-- The messages before the first marker. -/
def beforeMarker (msgs : List Msg) : List Msg :=
  msgs.takeWhile fun msg => msg.cmd ≠ msgHandleDestory

/-- Nobody can move but a caller that begins its call, and the wait goes well. -/
def Quiet [DecidableEq ι] (msgs : ι → Msg) (s : Handle ι) : Prop :=
  ∀ a, (∀ i, a ≠ .lock i) → a ≠ .semFail → step msgs s a = none

/-! ## What a move does -/

section Cases

variable {msgs : ι → Msg} {s s' : Handle ι} {a : Move ι}

/-- A move of a caller. -/
theorem callerStep_cases [DecidableEq ι] (h : callerStep msgs s a = some s') :
    (∃ i, a = .lock i ∧ s.caller i = .idle ∧ s.mutex = none ∧
      s' = { s with
        mutex := some (.caller i), caller := Function.update s.caller i .locked }) ∨
    (∃ i alloc queue, a = .push i alloc ∧ s.caller i = .locked ∧
      (∀ p, alloc = some p → s.queue.heap p = none) ∧
      queuePushTail s.queue (sent msgs i) alloc = some queue ∧
      s' = { s with queue, caller := Function.update s.caller i .pushed }) ∨
    (∃ i, a = .unlock i ∧ s.caller i = .pushed ∧
      s' = { s with mutex := none, caller := Function.update s.caller i .unlocked }) ∨
    (∃ i, a = .post i ∧ s.caller i = .unlocked ∧
      s' = { s with sem := s.sem + 1, caller := Function.update s.caller i .done }) := by
  cases a with
  | lock i =>
      simp only [callerStep, Option.ite_none_right_eq_some, Option.some.injEq] at h
      exact .inl ⟨i, rfl, h.1.1, h.1.2, h.2.symm⟩
  | push i alloc =>
      simp only [callerStep, Option.ite_none_right_eq_some, Option.bind_eq_bind,
        Option.bind_eq_some_iff, Option.some.injEq] at h
      obtain ⟨⟨hstage, halloc⟩, queue, hqueue, rfl⟩ := h
      refine .inr (.inl ⟨i, alloc, queue, rfl, hstage, ?_, hqueue, rfl⟩)
      rintro p rfl
      simpa using halloc
  | unlock i =>
      simp only [callerStep, Option.ite_none_right_eq_some, Option.some.injEq] at h
      exact .inr (.inr (.inl ⟨i, rfl, h.1, h.2.symm⟩))
  | post i =>
      simp only [callerStep, Option.ite_none_right_eq_some, Option.some.injEq] at h
      exact .inr (.inr (.inr ⟨i, rfl, h.1, h.2.symm⟩))
  | semWait => cases h
  | semFail => cases h
  | workerLock => cases h
  | pop => cases h
  | destory => cases h
  | workerUnlock => cases h
  | callback => cases h

/-- A move of the worker. -/
theorem workerStep_cases (h : workerStep s a = some s') :
    (a = .semWait ∧ s.worker = .waiting ∧ 0 < s.sem ∧
      s' = { s with sem := s.sem - 1, worker := .woken }) ∨
    (a = .semFail ∧ s.worker = .waiting ∧ s' = { s with worker := .failed }) ∨
    (a = .workerLock ∧ s.worker = .woken ∧ s.mutex = none ∧
      s' = { s with mutex := some .worker, worker := .locked }) ∨
    (∃ queue msg, a = .pop ∧ s.worker = .locked ∧ queuePopHead s.queue = some (queue, msg) ∧
      s' = { s with queue, worker := .popped msg }) ∨
    (∃ msg, a = .destory ∧ s.worker = .popped msg ∧ msg.cmd = msgHandleDestory ∧
      s' = { s with mutex := none, queue := msgQueueNew, worker := .exited }) ∨
    (∃ msg, a = .workerUnlock ∧ s.worker = .popped msg ∧ msg.cmd ≠ msgHandleDestory ∧
      s' = { s with
        mutex := none
        worker := if msg.cmd ≠ queueCmdError then .calling msg else .waiting }) ∨
    (∃ msg, a = .callback msg ∧ s.worker = .calling msg ∧ s' = { s with worker := .waiting }) := by
  cases a with
  | lock => cases h
  | push => cases h
  | unlock => cases h
  | post => cases h
  | semWait =>
      simp only [workerStep, Option.ite_none_right_eq_some, Option.some.injEq] at h
      exact .inl ⟨rfl, h.1.1, h.1.2, h.2.symm⟩
  | semFail =>
      simp only [workerStep, Option.ite_none_right_eq_some, Option.some.injEq] at h
      exact .inr (.inl ⟨rfl, h.1, h.2.symm⟩)
  | workerLock =>
      simp only [workerStep, Option.ite_none_right_eq_some, Option.some.injEq] at h
      exact .inr (.inr (.inl ⟨rfl, h.1.1, h.1.2, h.2.symm⟩))
  | pop =>
      simp only [workerStep, Option.ite_none_right_eq_some, Option.bind_eq_bind,
        Option.bind_eq_some_iff, Option.some.injEq] at h
      obtain ⟨hstage, ⟨queue, msg⟩, hpop, rfl⟩ := h
      exact .inr (.inr (.inr (.inl ⟨queue, msg, rfl, hstage, hpop, rfl⟩)))
  | destory =>
      cases hw : s.worker with
      | popped msg =>
          simp only [workerStep, hw, Option.ite_none_right_eq_some, Option.some.injEq] at h
          exact .inr (.inr (.inr (.inr (.inl ⟨msg, rfl, rfl, h.1, h.2.symm⟩))))
      | _ => simp [workerStep, hw] at h
  | workerUnlock =>
      cases hw : s.worker with
      | popped msg =>
          simp only [workerStep, hw, Option.ite_none_left_eq_some, Option.some.injEq] at h
          exact .inr (.inr (.inr (.inr (.inr (.inl ⟨msg, rfl, rfl, h.1, h.2.symm⟩)))))
      | _ => simp [workerStep, hw] at h
  | callback msg =>
      simp only [workerStep, Option.ite_none_right_eq_some, Option.some.injEq] at h
      exact .inr (.inr (.inr (.inr (.inr (.inr ⟨msg, rfl, h.1, h.2.symm⟩)))))

/-- A move of the machine is one of a caller or of the worker, on a handle that has not been
freed. -/
theorem step_cases [DecidableEq ι] (h : step msgs s a = some s') :
    s.worker ≠ .exited ∧ (callerStep msgs s a = some s' ∨ workerStep s a = some s') := by
  simp only [step, Option.ite_none_left_eq_some] at h
  refine ⟨h.1, ?_⟩
  cases hc : callerStep msgs s a with
  | none =>
      rw [hc, Option.none_or] at h
      exact .inr h.2
  | some u =>
      rw [hc, Option.some_or] at h
      exact .inl h.2

end Cases

/-! ## The mutex -/

/-- The mutex is held by the one that is between its lock and its unlock. -/
structure Locks (s : Handle ι) : Prop where
  caller : ∀ i, s.mutex = some (.caller i) ↔ s.caller i = .locked ∨ s.caller i = .pushed
  worker : s.mutex = some .worker ↔ s.worker = .locked ∨ ∃ msg, s.worker = .popped msg

theorem locks_new : Locks (msgHandleNew : Handle ι) where
  caller := by simp [msgHandleNew]
  worker := by simp [msgHandleNew]

theorem Locks.step [DecidableEq ι] {msgs : ι → Msg} {s s' : Handle ι} {a : Move ι} (h : Locks s)
    (hs : step msgs s a = some s') : Locks s' := by
  obtain ⟨hcaller, hworker⟩ := h
  obtain ⟨-, hs | hs⟩ := step_cases hs
  · rcases callerStep_cases hs with ⟨i, -, hi, hm, rfl⟩ | ⟨i, alloc, queue, -, hi, -, -, rfl⟩ |
      ⟨i, -, hi, rfl⟩ | ⟨i, -, hi, rfl⟩
    all_goals constructor <;> grind
  · rcases workerStep_cases hs with ⟨-, hw, -, rfl⟩ | ⟨-, hw, rfl⟩ | ⟨-, hw, hm, rfl⟩ |
      ⟨queue, msg, -, hw, -, rfl⟩ | ⟨msg, -, hw, -, rfl⟩ | ⟨msg, -, hw, -, rfl⟩ | ⟨msg, -, hw, rfl⟩
    all_goals constructor <;> grind

/-! ## The messages and the tokens -/

@[simp] theorem enqueued_append (msgs : ι → Msg) (as bs : List (Move ι)) :
    enqueued msgs (as ++ bs) = enqueued msgs as ++ enqueued msgs bs :=
  List.filterMap_append

@[simp] theorem calls_append (as bs : List (Move ι)) : calls (as ++ bs) = calls as ++ calls bs :=
  List.filterMap_append

/-- Every message in the queue was sent by somebody. -/
theorem exists_sent_of_mem {msgs : ι → Msg} {as : List (Move ι)} {msg : Msg}
    (h : msg ∈ enqueued msgs as) : ∃ i, msg = sent msgs i := by
  obtain ⟨a, -, ha⟩ := List.mem_filterMap.mp h
  split at ha
  · exact ⟨_, (Option.some.inj ha).symm⟩
  · cases ha

/-- The message that the worker has popped and not called yet. -/
def WorkerStage.hand : WorkerStage → List Msg
  | .popped msg => if msg.cmd = queueCmdError then [] else [msg]
  | .calling msg => [msg]
  | _ => []

/-- The worker has taken a token of the semaphore that it has not used yet. -/
def WorkerStage.tokens : WorkerStage → ℕ
  | .woken | .locked => 1
  | _ => 0

/-- The state while the handle is there, with the messages in the queue and the callers that
have appended and not posted. -/
structure Account (msgs : ι → Msg) (as : List (Move ι)) (s : Handle ι) (queued : List Msg)
    (pending : List (Option ι)) : Prop where
  rep : Rep s.queue queued
  trace : enqueued msgs as = calls as ++ (s.worker.hand ++ queued)
  nodup : pending.Nodup
  mem : ∀ i, i ∈ pending ↔ s.caller i = .pushed ∨ s.caller i = .unlocked
  tokens : queued.length ≤ s.sem + pending.length + s.worker.tokens

/-- What was enqueued is what was called, what is in hand and what is in the queue; when the
worker is gone, the marker came behind the calls. -/
structure Ledger (msgs : ι → Msg) (as : List (Move ι)) (s : Handle ι) : Prop where
  marker : ∀ msg ∈ calls as, msg.cmd ≠ msgHandleDestory
  calling : ∀ msg, s.worker = .calling msg → msg.cmd ≠ msgHandleDestory
  live : s.worker ≠ .exited → ∃ queued pending, Account msgs as s queued pending
  exited : s.worker = .exited → ∃ msg rest, msg.cmd = msgHandleDestory ∧
    enqueued msgs as = calls as ++ msg :: rest

theorem ledger_new (msgs : ι → Msg) : Ledger msgs [] (msgHandleNew : Handle ι) where
  marker := by simp [calls]
  calling := by simp [msgHandleNew]
  live _ := ⟨[], [], rep_msgQueueNew, rfl, .nil, by simp [msgHandleNew], le_rfl⟩
  exited := by simp [msgHandleNew]

section Step

variable {msgs : ι → Msg} {as : List (Move ι)} {s s' : Handle ι} {a : Move ι}
  {queued : List Msg} {pending : List (Option ι)}

/-- A caller adds its message with a token of its own, which it passes to the semaphore. -/
theorem Account.callerStep [DecidableEq ι] (h : Account msgs as s queued pending)
    (hs : callerStep msgs s a = some s') :
    ∃ queued' pending', Account msgs (as ++ [a]) s' queued' pending' := by
  obtain ⟨hrep, htrace, hnodup, hmem, htokens⟩ := h
  rcases callerStep_cases hs with ⟨i, rfl, hi, hm, rfl⟩ |
    ⟨i, alloc, queue, rfl, hi, halloc, hpush, rfl⟩ | ⟨i, rfl, hi, rfl⟩ | ⟨i, rfl, hi, rfl⟩
  · refine ⟨queued, pending, hrep, by simpa [enqueued, calls] using htrace, hnodup, ?_, htokens⟩
    grind
  · obtain ⟨queue', hpush', hrep'⟩ := hrep.pushTail (sent msgs i) halloc
    obtain rfl : queue = queue' := Option.some.inj (hpush.symm.trans hpush')
    have hnot : i ∉ pending := by grind
    refine ⟨_, i :: pending, hrep', ?_, List.nodup_cons.mpr ⟨hnot, hnodup⟩, ?_, ?_⟩
    · rw [enqueued_append, calls_append, htrace]
      cases alloc <;> simp [enqueued, calls]
    · grind
    · cases alloc <;> simp <;> omega
  · refine ⟨queued, pending, hrep, by simpa [enqueued, calls] using htrace, hnodup, ?_, htokens⟩
    grind
  · have hin : i ∈ pending := (hmem i).mpr (.inr hi)
    refine ⟨queued, pending.erase i, hrep, by simpa [enqueued, calls] using htrace,
      hnodup.erase i, ?_, ?_⟩
    · intro j
      rw [hnodup.mem_erase_iff, hmem]
      grind
    · have hlen := List.length_erase_of_mem hin
      have hpos := List.length_pos_of_mem hin
      simp only
      omega

/-- The worker takes a token and a message with it, if there is one. -/
theorem Account.workerStep (h : Account msgs as s queued pending)
    (hcmd : ∀ i, (sent msgs i).cmd ≠ queueCmdError) (hs : workerStep s a = some s')
    (hlive : s'.worker ≠ .exited) :
    ∃ queued' pending', Account msgs (as ++ [a]) s' queued' pending' := by
  obtain ⟨hrep, htrace, hnodup, hmem, htokens⟩ := h
  have hquiet : ∀ b : Move ι, b ∈ [Move.semWait, .semFail, .workerLock, .pop, .workerUnlock] →
      enqueued msgs (as ++ [b]) = enqueued msgs as ∧ calls (as ++ [b]) = calls as := by
    intro b hb
    simp only [List.mem_cons, List.not_mem_nil, or_false] at hb
    rcases hb with rfl | rfl | rfl | rfl | rfl <;> simp [enqueued, calls]
  rcases workerStep_cases hs with ⟨rfl, hw, hsem, rfl⟩ | ⟨rfl, hw, rfl⟩ | ⟨rfl, hw, hm, rfl⟩ |
    ⟨queue, msg, rfl, hw, hpop, rfl⟩ | ⟨msg, rfl, hw, hmsg, rfl⟩ | ⟨msg, rfl, hw, hmsg, rfl⟩ |
    ⟨msg, rfl, hw, rfl⟩
  · obtain ⟨henq, hcalls⟩ := hquiet .semWait (by simp)
    rw [hw] at htrace htokens
    refine ⟨queued, pending, hrep, by rw [henq, hcalls]; exact htrace, hnodup, hmem, ?_⟩
    simp only [WorkerStage.tokens] at htokens ⊢
    omega
  · obtain ⟨henq, hcalls⟩ := hquiet .semFail (by simp)
    rw [hw] at htrace htokens
    exact ⟨queued, pending, hrep, by rw [henq, hcalls]; exact htrace, hnodup, hmem, htokens⟩
  · obtain ⟨henq, hcalls⟩ := hquiet .workerLock (by simp)
    rw [hw] at htrace htokens
    exact ⟨queued, pending, hrep, by rw [henq, hcalls]; exact htrace, hnodup, hmem, htokens⟩
  · obtain ⟨henq, hcalls⟩ := hquiet .pop (by simp)
    rw [hw] at htrace htokens
    obtain ⟨queue', hpop', hrep'⟩ := hrep.popHead
    rw [hpop'] at hpop
    simp only [Option.some.injEq, Prod.mk.injEq] at hpop
    obtain ⟨rfl, rfl⟩ := hpop
    refine ⟨queued.tail, pending, hrep', ?_, hnodup, hmem, ?_⟩
    · rw [henq, hcalls, htrace]
      cases queued with
      | nil => simp [WorkerStage.hand]
      | cons x xs =>
          have hx : x.cmd ≠ queueCmdError := by
            have hin : x ∈ enqueued msgs as := by
              rw [htrace]
              simp
            obtain ⟨i, rfl⟩ := exists_sent_of_mem hin
            exact hcmd i
          simp [WorkerStage.hand, hx]
    · simp only [WorkerStage.tokens] at htokens ⊢
      rw [List.length_tail]
      omega
  · exact absurd rfl hlive
  · obtain ⟨henq, hcalls⟩ := hquiet .workerUnlock (by simp)
    rw [hw] at htrace htokens
    refine ⟨queued, pending, hrep, ?_, hnodup, hmem, ?_⟩
    · rw [henq, hcalls, htrace]
      by_cases herr : msg.cmd = queueCmdError <;> simp [WorkerStage.hand, herr]
    · by_cases herr : msg.cmd = queueCmdError <;>
        simpa [WorkerStage.tokens, herr] using htokens
  · rw [hw] at htrace htokens
    refine ⟨queued, pending, hrep, ?_, hnodup, hmem, htokens⟩
    rw [enqueued_append, calls_append, htrace]
    simp [enqueued, calls, WorkerStage.hand]

/-- **The ledger is kept by every move.** -/
theorem Ledger.step [DecidableEq ι] (h : Ledger msgs as s)
    (hcmd : ∀ i, (sent msgs i).cmd ≠ queueCmdError) (hs : step msgs s a = some s') :
    Ledger msgs (as ++ [a]) s' := by
  obtain ⟨hmarker, hcalling, hlive, -⟩ := h
  obtain ⟨hnot, hmove⟩ := step_cases hs
  obtain ⟨queued, pending, hacc⟩ := hlive hnot
  rcases hmove with hc | hw
  · -- a caller calls nothing and leaves the worker where it is
    have hsame : s'.worker = s.worker ∧ calls (as ++ [a]) = calls as := by
      rcases callerStep_cases hc with ⟨i, rfl, -, -, rfl⟩ | ⟨i, alloc, queue, rfl, -, -, -, rfl⟩ |
        ⟨i, rfl, -, rfl⟩ | ⟨i, rfl, -, rfl⟩ <;> simp [calls]
    obtain ⟨hworker, hcalls⟩ := hsame
    refine ⟨hcalls ▸ hmarker, hworker ▸ hcalling, fun _ => hacc.callerStep hc, ?_⟩
    rw [hworker]
    exact fun hex => absurd hex hnot
  · refine ⟨?_, ?_, fun hl => hacc.workerStep hcmd hw hl, ?_⟩
    · intro msg hmsg
      rw [calls_append, List.mem_append] at hmsg
      rcases hmsg with hmsg | hmsg
      · exact hmarker msg hmsg
      · rcases workerStep_cases hw with ⟨rfl, -⟩ | ⟨rfl, -⟩ | ⟨rfl, -⟩ | ⟨_, _, rfl, -⟩ |
          ⟨_, rfl, -⟩ | ⟨_, rfl, -⟩ | ⟨msg', rfl, hcall, -⟩
        case inr.inr.inr.inr.inr.inr =>
          obtain rfl : msg = msg' := by simpa [calls] using hmsg
          exact hcalling msg hcall
        all_goals simp [calls] at hmsg
    · intro msg hmsg
      rcases workerStep_cases hw with ⟨-, -, -, rfl⟩ | ⟨-, -, rfl⟩ | ⟨-, -, -, rfl⟩ |
        ⟨_, _, -, -, -, rfl⟩ | ⟨_, -, -, -, rfl⟩ | ⟨msg', -, -, hne, rfl⟩ | ⟨_, -, -, rfl⟩
      case inr.inr.inr.inr.inr.inl =>
        simp only at hmsg
        split_ifs at hmsg
        obtain rfl := WorkerStage.calling.inj hmsg
        exact hne
      all_goals cases hmsg
    · intro hex
      rcases workerStep_cases hw with ⟨-, -, -, rfl⟩ | ⟨-, -, rfl⟩ | ⟨-, -, -, rfl⟩ |
        ⟨_, _, -, -, -, rfl⟩ | ⟨msg, rfl, hpop, hmsg, rfl⟩ | ⟨msg, -, -, hne, rfl⟩ |
        ⟨_, -, -, rfl⟩
      case inr.inr.inr.inr.inl =>
        refine ⟨msg, queued, hmsg, ?_⟩
        have herr : msg.cmd ≠ queueCmdError := by
          rw [hmsg]
          decide
        have htrace := hacc.trace
        rw [hpop, WorkerStage.hand, if_neg herr] at htrace
        rw [enqueued_append, calls_append, htrace]
        simp [enqueued, calls]
      case inr.inr.inr.inr.inr.inl =>
        simp only at hex
        split_ifs at hex
      all_goals cases hex

end Step

/-! ## The number of moves -/

/-- The callers that have begun their call. -/
def begun (as : List (Move ι)) : List (Option ι) :=
  as.filterMap fun
    | .lock i => some i
    | _ => none

/-- The moves that a caller has left, and the five that its token gives the worker. -/
def CallStage.left : CallStage → ℕ
  | .idle => 9
  | .locked => 8
  | .pushed => 7
  | .unlocked => 6
  | .done => 0

theorem CallStage.left_idle : CallStage.idle.left = 9 := rfl
theorem CallStage.left_locked : CallStage.locked.left = 8 := rfl
theorem CallStage.left_pushed : CallStage.pushed.left = 7 := rfl
theorem CallStage.left_unlocked : CallStage.unlocked.left = 6 := rfl
theorem CallStage.left_done : CallStage.done.left = 0 := rfl

/-- The moves that the worker has left before its next token. -/
def WorkerStage.left : WorkerStage → ℕ
  | .waiting => 1
  | .woken => 5
  | .locked => 4
  | .popped _ => 3
  | .calling _ => 2
  | .failed | .exited => 0

/-- The moves so far and those that are still paid for. -/
structure Effort (as : List (Move ι)) (s : Handle ι) (callers : Finset (Option ι)) : Prop where
  mem : ∀ i, i ∈ callers ↔ s.caller i ≠ .idle
  card : callers.card ≤ (begun as).length
  paid : as.length + s.worker.left + 5 * s.sem + ∑ i ∈ callers, (s.caller i).left ≤
    9 * callers.card + 1

theorem effort_new : Effort [] (msgHandleNew : Handle ι) ∅ where
  mem := by simp [msgHandleNew]
  card := by simp
  paid := by simp [msgHandleNew, WorkerStage.left]

section Effort

variable [DecidableEq ι] {msgs : ι → Msg} {as : List (Move ι)} {s s' : Handle ι} {a : Move ι}
  {callers : Finset (Option ι)}

/-- The sum when one of the callers moves on. -/
theorem sum_left_update {i : Option ι} (hi : i ∈ callers) (f : Option ι → CallStage)
    (x : CallStage) :
    ∑ j ∈ callers, (Function.update f i x j).left + (f i).left =
      ∑ j ∈ callers, (f j).left + x.left := by
  rw [← Finset.add_sum_erase callers _ hi, ← Finset.add_sum_erase callers (fun j => (f j).left) hi,
    Function.update_self]
  have hrest : ∑ j ∈ callers.erase i, (Function.update f i x j).left =
      ∑ j ∈ callers.erase i, (f j).left := by
    refine Finset.sum_congr rfl fun j hj => ?_
    rw [Function.update_of_ne (Finset.ne_of_mem_erase hj)]
  omega

/-- Every move is paid for. -/
theorem Effort.step (h : Effort as s callers) (hs : step msgs s a = some s') :
    ∃ callers', Effort (as ++ [a]) s' callers' := by
  obtain ⟨hmem, hcard, hpaid⟩ := h
  have hbegun : (begun (as ++ [a])).length = (begun as).length + (begun [a]).length := by
    simp [begun]
  have hlen : (as ++ [a]).length = as.length + 1 := by simp
  obtain ⟨-, hs | hs⟩ := step_cases hs
  · rcases callerStep_cases hs with ⟨i, rfl, hi, hm, rfl⟩ | ⟨i, alloc, queue, rfl, hi, -, -, rfl⟩ |
      ⟨i, rfl, hi, rfl⟩ | ⟨i, rfl, hi, rfl⟩
    · have hnot : i ∉ callers := by
        rw [hmem]
        simp [hi]
      have hsum := sum_left_update (Finset.mem_insert_self i callers) s.caller .locked
      have hold := Finset.sum_insert (f := fun j => (s.caller j).left) hnot
      have hinsert := Finset.card_insert_of_notMem hnot
      rw [hi] at hsum hold
      refine ⟨insert i callers, by grind, ?_, ?_⟩
      · rw [hbegun]
        exact hinsert.le.trans (Nat.add_le_add_right hcard 1)
      · simp only [hlen, CallStage.left_idle, CallStage.left_locked] at hsum hold ⊢
        omega
    all_goals
      have hin : i ∈ callers := by
        rw [hmem]
        simp [hi]
      refine ⟨callers, by grind, by omega, ?_⟩
    · have hsum := sum_left_update hin s.caller .pushed
      simp only [hlen, hi, CallStage.left_locked, CallStage.left_pushed] at hsum ⊢
      omega
    · have hsum := sum_left_update hin s.caller .unlocked
      simp only [hlen, hi, CallStage.left_pushed, CallStage.left_unlocked] at hsum ⊢
      omega
    · have hsum := sum_left_update hin s.caller .done
      simp only [hlen, hi, CallStage.left_unlocked, CallStage.left_done] at hsum ⊢
      omega
  · refine ⟨callers, ?_, by omega, ?_⟩
    · rcases workerStep_cases hs with ⟨-, -, -, rfl⟩ | ⟨-, -, rfl⟩ | ⟨-, -, -, rfl⟩ |
        ⟨_, _, -, -, -, rfl⟩ | ⟨_, -, -, -, rfl⟩ | ⟨_, -, -, -, rfl⟩ | ⟨_, -, -, rfl⟩
      all_goals exact hmem
    · rcases workerStep_cases hs with ⟨-, hw, hsem, rfl⟩ | ⟨-, hw, rfl⟩ | ⟨-, hw, -, rfl⟩ |
        ⟨_, _, -, hw, -, rfl⟩ | ⟨_, -, hw, -, rfl⟩ | ⟨msg, -, hw, -, rfl⟩ | ⟨_, -, hw, rfl⟩
      all_goals
        simp only [hw, WorkerStage.left] at hpaid
        simp only [hlen, WorkerStage.left]
      case inr.inr.inr.inr.inr.inl => split_ifs <;> simp only <;> omega
      all_goals omega

end Effort

/-! ## Whole runs -/

/-- A command that the header allows is no error. -/
theorem sent_ne_error {msgs : ι → Msg} (hcmd : ∀ i, 0 ≤ (msgs i).cmd) (i : Option ι) :
    (sent msgs i).cmd ≠ queueCmdError := by
  cases i with
  | none =>
      show msgHandleDestory ≠ queueCmdError
      decide
  | some i =>
      intro heq
      have hpos := hcmd i
      rw [show (msgs i).cmd = queueCmdError from heq] at hpos
      exact absurd hpos (by decide)

section Runs

variable [DecidableEq ι] {msgs : ι → Msg} {as : List (Move ι)} {s : Handle ι}

/-- The invariant over a run. -/
theorem invariant_of_runs (hcmd : ∀ i, 0 ≤ (msgs i).cmd)
    (h : Runs (step msgs) (fun _ _ => True) msgHandleNew as s) :
    Ledger msgs as s ∧ Locks s ∧ ∃ callers, Effort as s callers := by
  induction h with
  | refl => exact ⟨ledger_new msgs, locks_new, ∅, effort_new⟩
  | snoc _ _ hs ih =>
      obtain ⟨hledger, hlocks, callers, heffort⟩ := ih
      exact ⟨hledger.step (sent_ne_error hcmd) hs, hlocks.step hs, heffort.step hs⟩

/-- **Nobody inside is stuck**: where nobody can move, every caller has finished, and the
worker is gone or waits for a token with the queue empty. -/
theorem Ledger.of_quiet (hledger : Ledger msgs as s) (hlocks : Locks s) (hq : Quiet msgs s)
    (hfailed : s.worker ≠ .failed) (hlive : s.worker ≠ .exited) :
    calls as = enqueued msgs as := by
  obtain ⟨queued, pending, hacc⟩ := hledger.live hlive
  have hnone : ∀ a, (∀ i, a ≠ .lock i) → a ≠ .semFail →
      callerStep msgs s a = none ∧ workerStep s a = none := by
    intro a hlock hfail
    have h := hq a hlock hfail
    simpa [MsgHandle.step, hlive] using h
  -- no caller is inside
  have hcaller : ∀ i, s.caller i ≠ .locked ∧ s.caller i ≠ .pushed ∧ s.caller i ≠ .unlocked := by
    intro i
    refine ⟨?_, ?_, ?_⟩
    · intro hi
      have h := (hnone (.push i none) (by simp) (by simp)).1
      simp [callerStep, hi, queuePushTail] at h
    · intro hi
      have h := (hnone (.unlock i) (by simp) (by simp)).1
      simp [callerStep, hi] at h
    · intro hi
      have h := (hnone (.post i) (by simp) (by simp)).1
      simp [callerStep, hi] at h
  have hpending : pending = [] := by
    rw [List.eq_nil_iff_forall_not_mem]
    intro i hi
    rcases (hacc.mem i).mp hi with hi | hi
    · exact (hcaller i).2.1 hi
    · exact (hcaller i).2.2 hi
  -- so the worker waits, and there is no token left
  have hwait : s.worker = .waiting ∧ s.sem = 0 := by
    cases hw : s.worker with
    | waiting =>
        have h := (hnone .semWait (by simp) (by simp)).2
        simpa [workerStep, hw] using h
    | woken =>
        have hmutex : s.mutex = none := by
          cases hm : s.mutex with
          | none => rfl
          | some holder =>
              cases holder with
              | caller i =>
                  rcases (hlocks.caller i).mp hm with hi | hi
                  · exact absurd hi (hcaller i).1
                  · exact absurd hi (hcaller i).2.1
              | worker =>
                  rcases hlocks.worker.mp hm with hi | ⟨msg, hi⟩
                  · simp [hw] at hi
                  · simp [hw] at hi
        have h := (hnone .workerLock (by simp) (by simp)).2
        simp [workerStep, hw, hmutex] at h
    | locked =>
        obtain ⟨queue, hpop, -⟩ := hacc.rep.popHead
        have h := (hnone .pop (by simp) (by simp)).2
        simp [workerStep, hw, hpop] at h
    | popped msg =>
        have hd := (hnone .destory (by simp) (by simp)).2
        have hu := (hnone .workerUnlock (by simp) (by simp)).2
        simp only [workerStep, hw] at hd hu
        split_ifs at hd hu
    | calling msg =>
        have h := (hnone (.callback msg) (by simp) (by simp)).2
        simp [workerStep, hw] at h
    | failed => exact absurd hw hfailed
    | exited => exact absurd hw hlive
  have hqueued : queued = [] := by
    have htokens := hacc.tokens
    rw [hwait.1, hwait.2, hpending] at htokens
    simpa [WorkerStage.tokens] using htokens
  rw [hacc.trace, hwait.1, hqueued]
  simp [WorkerStage.hand]

/-- What comes before the marker, when what comes before is known. -/
theorem beforeMarker_append {xs ys : List Msg} (h : ∀ msg ∈ xs, msg.cmd ≠ msgHandleDestory) :
    beforeMarker (xs ++ ys) = xs ++ beforeMarker ys := by
  refine List.takeWhile_append_of_pos ?_
  simpa using h

end Runs

/-- One message and then the end. -/
def shortRun : List (Move Unit) :=
  [.lock (some ()), .push (some ()) (some 1), .unlock (some ()), .lock none, .push none (some 2),
   .post (some ()), .semWait, .unlock none, .workerLock, .pop, .workerUnlock, .callback ⟨7, 0⟩,
   .post none, .semWait, .workerLock, .pop, .destory]

end CCode.MsgHandle
