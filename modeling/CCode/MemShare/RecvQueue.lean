import CCode.MemShare.Message
import Mathlib.Algebra.BigOperators.Group.Finset.Basic

/-!
# The queue of received messages

`wi_bus_recv_cb` puts a message on `recv_list` under the mutex, at the head if its flag says
so and at the tail otherwise, and posts the semaphore after it has given the mutex back. The
reader thread waits for the semaphore and then takes messages until the list is empty; it
calls the application without the mutex. So one token may be worth many messages or none.

Each of these is a move of its own, any number of `wi_bus_recv_cb` calls may be under way at
once, and a message is named by the call that received it. All allocations succeed. The
return value of `wi_sem_wait` is not looked at, so an interrupted wait only makes the reader
look at the list once more.

`QueueLedger` keeps the messages called so far, the one in hand and the list together: this
sequence only ever grows, by an insertion before the list or behind it. `recv_queue_delivery`
follows for every run.

## Main definitions

* `RecvQueue`, `QueueMove`, `RecvQueue.step` — the machine.
* `arrived`, `delivered` — what a trace puts on the list and what it calls.
* `QueueLocks`, `QueueLedger` — the invariant.
* `RecvQueue.Quiet` — nobody inside can move.
-/

namespace CCode.MemShare

open CCode.Lib

variable {ι : Type}

/-! ## The machine -/

/-- Where a call of `wi_bus_recv_cb` is. -/
inductive PutStage
  | idle | locked | pushed | unlocked | done
  deriving DecidableEq

/-- Where the reader is in `wi_bus_client_read`: waiting, at the top of the inner loop, with
the mutex, with what it has popped, in the callback, behind it, with the mutex again, and
with the record freed. -/
inductive ReadStage (ι : Type)
  | waiting | top | locked | popped (record : Option ι) | calling (i : ι) | called (i : ι)
  | freeing (i : ι) | freed
  deriving DecidableEq

/-- Who holds the mutex. -/
inductive QueueHolder (ι : Type)
  | recv (i : ι) | reader
  deriving DecidableEq

/-- `struct wi_bus_data`, as far as the messages are concerned, with its threads. The list
holds records, and a record is named by the call that made it. -/
structure RecvQueue (ι : Type) where
  sem : ℕ
  mutex : Option (QueueHolder ι)
  recvList : List ι
  recv : ι → PutStage
  reader : ReadStage ι

/-- The state after `wi_register`. -/
def RecvQueue.init : RecvQueue ι where
  sem := 0
  mutex := none
  recvList := []
  recv := fun _ => .idle
  reader := .waiting

/-- The moves of the calls and of the reader. -/
inductive QueueMove (ι : Type)
  | lock (i : ι)
  | push (i : ι)
  | unlock (i : ι)
  | post (i : ι)
  | semWait
  | semIntr
  | readLock
  | pop
  | readUnlock
  | callback (i : ι)
  | freeLock
  | free
  | freeUnlock
  deriving DecidableEq

/-- The flag and the record of each call. -/
abbrev Inbox (ι : Type) := ι → UInt32 × RecvData

/-- The message has a high priority. -/
def Inbox.high (inbox : Inbox ι) (i : ι) : Bool := (inbox i).1 &&& wiFlagPriorityHigh ≠ 0

/-- `queue_push_head` or `queue_push_tail`, by the flag. -/
def pushRecord (inbox : Inbox ι) (i : ι) (list : List ι) : List ι :=
  if inbox.high i then i :: list else list ++ [i]

/-- On the records this is what `wi_bus_recv_cb` does to the list. -/
theorem map_pushRecord (inbox : Inbox ι) (i : ι) (list : List ι) :
    (pushRecord inbox i list).map (fun j => (inbox j).2) =
      pushByFlag (inbox i).1 (inbox i).2 (list.map fun j => (inbox j).2) := by
  rw [pushRecord, pushByFlag]
  by_cases h : (inbox i).1 &&& wiFlagPriorityHigh ≠ 0
  · simp [Inbox.high, h]
  · simp [Inbox.high, h]

@[simp] theorem length_pushRecord (inbox : Inbox ι) (i : ι) (list : List ι) :
    (pushRecord inbox i list).length = list.length + 1 := by
  rw [pushRecord]
  split_ifs <;> simp

/-- `wi_bus_recv_cb`, from the mutex to the semaphore. -/
def recvStep [DecidableEq ι] (inbox : Inbox ι) (s : RecvQueue ι) :
    QueueMove ι → Option (RecvQueue ι)
  | .lock i =>
      if s.recv i = .idle ∧ s.mutex = none then
        some { s with mutex := some (.recv i), recv := Function.update s.recv i .locked }
      else none
  | .push i =>
      if s.recv i = .locked then
        some { s with
          recvList := pushRecord inbox i s.recvList
          recv := Function.update s.recv i .pushed }
      else none
  | .unlock i =>
      if s.recv i = .pushed then
        some { s with mutex := none, recv := Function.update s.recv i .unlocked }
      else none
  | .post i =>
      if s.recv i = .unlocked then
        some { s with sem := s.sem + 1, recv := Function.update s.recv i .done }
      else none
  | _ => none

/-- `wi_bus_client_read`. -/
def readStep [DecidableEq ι] (s : RecvQueue ι) : QueueMove ι → Option (RecvQueue ι)
  | .semWait =>
      if s.reader = .waiting ∧ 0 < s.sem then some { s with sem := s.sem - 1, reader := .top }
      else none
  | .semIntr => if s.reader = .waiting then some { s with reader := .top } else none
  | .readLock =>
      if s.reader = .top ∧ s.mutex = none then
        some { s with mutex := some .reader, reader := .locked }
      else none
  | .pop =>
      if s.reader = .locked then
        some { s with recvList := s.recvList.tail, reader := .popped s.recvList.head? }
      else none
  | .readUnlock =>
      match s.reader with
      | .popped (some i) => some { s with mutex := none, reader := .calling i }
      | .popped none => some { s with mutex := none, reader := .waiting }
      | _ => none
  | .callback i =>
      if s.reader = .calling i then some { s with reader := .called i } else none
  | .freeLock =>
      match s.reader with
      | .called i =>
          if s.mutex = none then some { s with mutex := some .reader, reader := .freeing i }
          else none
      | _ => none
  | .free =>
      match s.reader with
      | .freeing _ => some { s with reader := .freed }
      | _ => none
  | .freeUnlock =>
      if s.reader = .freed then some { s with mutex := none, reader := .top } else none
  | _ => none

/-- A move. -/
def RecvQueue.step [DecidableEq ι] (inbox : Inbox ι) (s : RecvQueue ι) (a : QueueMove ι) :
    Option (RecvQueue ι) :=
  (recvStep inbox s a).or (readStep s a)

/-- The messages that a trace puts on the list, in the order of arrival. -/
def arrived (as : List (QueueMove ι)) : List ι :=
  as.filterMap fun
    | .push i => some i
    | _ => none

/-- The messages that a trace delivers to the application, in this order. -/
def delivered (as : List (QueueMove ι)) : List ι :=
  as.filterMap fun
    | .callback i => some i
    | _ => none

/-- The calls that a trace begins. -/
def begunCalls (as : List (QueueMove ι)) : List ι :=
  as.filterMap fun
    | .lock i => some i
    | _ => none

/-- The interrupted waits of a trace. -/
def interrupts (as : List (QueueMove ι)) : ℕ :=
  as.countP fun
    | .semIntr => true
    | _ => false

/-- A call has put its message on the list and has not posted yet. -/
def RecvQueue.Owes (s : RecvQueue ι) (i : ι) : Prop :=
  s.recv i = .pushed ∨ s.recv i = .unlocked

/-- Nobody can move but a call that begins, and no wait is interrupted. -/
def RecvQueue.Quiet [DecidableEq ι] (inbox : Inbox ι) (s : RecvQueue ι) : Prop :=
  ∀ a, (∀ i, a ≠ .lock i) → a ≠ .semIntr → s.step inbox a = none

/-! ## What a move does -/

section Cases

variable {inbox : Inbox ι} {s s' : RecvQueue ι} {a : QueueMove ι}

/-- A move of a call. -/
theorem recvStep_cases [DecidableEq ι] (h : recvStep inbox s a = some s') :
    (∃ i, a = .lock i ∧ s.recv i = .idle ∧ s.mutex = none ∧
      s' = { s with mutex := some (.recv i), recv := Function.update s.recv i .locked }) ∨
    (∃ i, a = .push i ∧ s.recv i = .locked ∧
      s' = { s with
        recvList := pushRecord inbox i s.recvList
        recv := Function.update s.recv i .pushed }) ∨
    (∃ i, a = .unlock i ∧ s.recv i = .pushed ∧
      s' = { s with mutex := none, recv := Function.update s.recv i .unlocked }) ∨
    (∃ i, a = .post i ∧ s.recv i = .unlocked ∧
      s' = { s with sem := s.sem + 1, recv := Function.update s.recv i .done }) := by
  cases a with
  | lock i =>
      simp only [recvStep, Option.ite_none_right_eq_some, Option.some.injEq] at h
      exact .inl ⟨i, rfl, h.1.1, h.1.2, h.2.symm⟩
  | push i =>
      simp only [recvStep, Option.ite_none_right_eq_some, Option.some.injEq] at h
      exact .inr (.inl ⟨i, rfl, h.1, h.2.symm⟩)
  | unlock i =>
      simp only [recvStep, Option.ite_none_right_eq_some, Option.some.injEq] at h
      exact .inr (.inr (.inl ⟨i, rfl, h.1, h.2.symm⟩))
  | post i =>
      simp only [recvStep, Option.ite_none_right_eq_some, Option.some.injEq] at h
      exact .inr (.inr (.inr ⟨i, rfl, h.1, h.2.symm⟩))
  | _ => cases h

/-- A move of the reader. -/
theorem readStep_cases [DecidableEq ι] (h : readStep s a = some s') :
    (a = .semWait ∧ s.reader = .waiting ∧ 0 < s.sem ∧
      s' = { s with sem := s.sem - 1, reader := .top }) ∨
    (a = .semIntr ∧ s.reader = .waiting ∧ s' = { s with reader := .top }) ∨
    (a = .readLock ∧ s.reader = .top ∧ s.mutex = none ∧
      s' = { s with mutex := some .reader, reader := .locked }) ∨
    (a = .pop ∧ s.reader = .locked ∧
      s' = { s with recvList := s.recvList.tail, reader := .popped s.recvList.head? }) ∨
    (∃ i, a = .readUnlock ∧ s.reader = .popped (some i) ∧
      s' = { s with mutex := none, reader := .calling i }) ∨
    (a = .readUnlock ∧ s.reader = .popped none ∧
      s' = { s with mutex := none, reader := .waiting }) ∨
    (∃ i, a = .callback i ∧ s.reader = .calling i ∧ s' = { s with reader := .called i }) ∨
    (∃ i, a = .freeLock ∧ s.reader = .called i ∧ s.mutex = none ∧
      s' = { s with mutex := some .reader, reader := .freeing i }) ∨
    (∃ i, a = .free ∧ s.reader = .freeing i ∧ s' = { s with reader := .freed }) ∨
    (a = .freeUnlock ∧ s.reader = .freed ∧ s' = { s with mutex := none, reader := .top }) := by
  cases a with
  | semWait =>
      simp only [readStep, Option.ite_none_right_eq_some, Option.some.injEq] at h
      exact .inl ⟨rfl, h.1.1, h.1.2, h.2.symm⟩
  | semIntr =>
      simp only [readStep, Option.ite_none_right_eq_some, Option.some.injEq] at h
      exact .inr (.inl ⟨rfl, h.1, h.2.symm⟩)
  | readLock =>
      simp only [readStep, Option.ite_none_right_eq_some, Option.some.injEq] at h
      exact .inr (.inr (.inl ⟨rfl, h.1.1, h.1.2, h.2.symm⟩))
  | pop =>
      simp only [readStep, Option.ite_none_right_eq_some, Option.some.injEq] at h
      exact .inr (.inr (.inr (.inl ⟨rfl, h.1, h.2.symm⟩)))
  | readUnlock =>
      rcases hr : s.reader with _ | _ | _ | (_ | i) | _ | _ | _ | _ <;>
        simp only [readStep, hr, Option.some.injEq, reduceCtorEq] at h
      · exact .inr (.inr (.inr (.inr (.inr (.inl ⟨rfl, rfl, h.symm⟩)))))
      · exact .inr (.inr (.inr (.inr (.inl ⟨i, rfl, rfl, h.symm⟩))))
  | callback i =>
      simp only [readStep, Option.ite_none_right_eq_some, Option.some.injEq] at h
      exact .inr (.inr (.inr (.inr (.inr (.inr (.inl ⟨i, rfl, h.1, h.2.symm⟩))))))
  | freeLock =>
      rcases hr : s.reader with _ | _ | _ | _ | _ | i | _ | _ <;>
        simp only [readStep, hr, Option.ite_none_right_eq_some, Option.some.injEq,
          reduceCtorEq] at h
      exact .inr (.inr (.inr (.inr (.inr (.inr (.inr (.inl ⟨i, rfl, rfl, h.1, h.2.symm⟩)))))))
  | free =>
      rcases hr : s.reader with _ | _ | _ | _ | _ | _ | i | _ <;>
        simp only [readStep, hr, Option.some.injEq, reduceCtorEq] at h
      exact .inr (.inr (.inr (.inr (.inr (.inr (.inr (.inr (.inl ⟨i, rfl, rfl, h.symm⟩))))))))
  | freeUnlock =>
      simp only [readStep, Option.ite_none_right_eq_some, Option.some.injEq] at h
      exact .inr (.inr (.inr (.inr (.inr (.inr (.inr (.inr (.inr ⟨rfl, h.1, h.2.symm⟩))))))))
  | _ => cases h

theorem RecvQueue.step_cases [DecidableEq ι] (h : s.step inbox a = some s') :
    recvStep inbox s a = some s' ∨ readStep s a = some s' := by
  rw [RecvQueue.step] at h
  cases hr : recvStep inbox s a with
  | none =>
      rw [hr, Option.none_or] at h
      exact .inr h
  | some u =>
      rw [hr, Option.some_or] at h
      exact .inl h

end Cases

/-! ## The mutex -/

/-- The reader is between a lock and the unlock. -/
def ReadStage.inside : ReadStage ι → Bool
  | .locked | .popped _ | .freeing _ | .freed => true
  | .waiting | .top | .calling _ | .called _ => false

/-- The mutex is held by the one that is between its lock and its unlock. -/
structure QueueLocks (s : RecvQueue ι) : Prop where
  recv : ∀ i, s.mutex = some (.recv i) ↔ s.recv i = .locked ∨ s.recv i = .pushed
  reader : s.mutex = some .reader ↔ s.reader.inside = true

theorem queueLocks_init : QueueLocks (RecvQueue.init : RecvQueue ι) where
  recv := by simp [RecvQueue.init]
  reader := by simp [RecvQueue.init, ReadStage.inside]

theorem QueueLocks.step [DecidableEq ι] {inbox : Inbox ι} {s s' : RecvQueue ι} {a : QueueMove ι}
    (h : QueueLocks s) (hs : s.step inbox a = some s') : QueueLocks s' := by
  obtain ⟨hrecv, hreader⟩ := h
  rcases RecvQueue.step_cases hs with hs | hs
  · rcases recvStep_cases hs with ⟨i, -, hi, hm, rfl⟩ | ⟨i, -, hi, rfl⟩ | ⟨i, -, hi, rfl⟩ |
      ⟨i, -, hi, rfl⟩
    all_goals constructor <;> grind
  · rcases readStep_cases hs with ⟨-, hr, -, rfl⟩ | ⟨-, hr, rfl⟩ | ⟨-, hr, hm, rfl⟩ | ⟨-, hr, rfl⟩ |
      ⟨i, -, hr, rfl⟩ | ⟨-, hr, rfl⟩ | ⟨i, -, hr, rfl⟩ | ⟨i, -, hr, hm, rfl⟩ | ⟨i, -, hr, rfl⟩ |
      ⟨-, hr, rfl⟩
    all_goals constructor <;> grind [ReadStage.inside]

/-! ## The messages -/

@[simp] theorem arrived_append (as bs : List (QueueMove ι)) :
    arrived (as ++ bs) = arrived as ++ arrived bs :=
  List.filterMap_append

@[simp] theorem delivered_append (as bs : List (QueueMove ι)) :
    delivered (as ++ bs) = delivered as ++ delivered bs :=
  List.filterMap_append

/-- The message that the reader has popped and not delivered yet. -/
def ReadStage.hand : ReadStage ι → List ι
  | .popped (some i) => [i]
  | .calling i => [i]
  | _ => []

/-- All messages that have arrived, in the order in which they have been or would be
delivered. -/
def line (as : List (QueueMove ι)) (s : RecvQueue ι) : List ι :=
  delivered as ++ (s.reader.hand ++ s.recvList)

/-- What holds of a trace and the state it leads to: the line is made of the messages that
have arrived, each once, and those of low priority stand in it as they arrived; a call has
pushed if it says so; and the reader does not go to sleep on a message unless there is a
token, or a call that is about to post one. -/
structure QueueLedger (inbox : Inbox ι) (as : List (QueueMove ι)) (s : RecvQueue ι) : Prop where
  perm : (line as s).Perm (arrived as)
  nodup : (arrived as).Nodup
  mem : ∀ i, i ∈ arrived as ↔ s.recv i ≠ .idle ∧ s.recv i ≠ .locked
  low : (line as s).filter (fun i => ¬ inbox.high i) =
    (arrived as).filter fun i => ¬ inbox.high i
  empty : s.reader = .popped none → s.recvList = []
  wake : s.reader = .waiting → s.recvList ≠ [] → 0 < s.sem ∨ ∃ i, s.Owes i

theorem queueLedger_init (inbox : Inbox ι) : QueueLedger inbox [] RecvQueue.init where
  perm := .refl _
  nodup := .nil
  mem := by simp [arrived, RecvQueue.init]
  low := rfl
  empty := by simp [RecvQueue.init]
  wake := by simp [RecvQueue.init]

section Step

variable [DecidableEq ι] {inbox : Inbox ι} (as : List (QueueMove ι)) {s s' : RecvQueue ι}
  {a : QueueMove ι}

/-- A call whose move is no push leaves the line alone. -/
theorem recvStep_line (hs : recvStep inbox s a = some s') :
    (∃ i, a = .push i ∧ s.recv i = .locked ∧
      line (as ++ [a]) s' = delivered as ++ (s.reader.hand ++ pushRecord inbox i s.recvList)) ∨
    (arrived (as ++ [a]) = arrived as ∧ line (as ++ [a]) s' = line as s) := by
  rcases recvStep_cases hs with ⟨i, rfl, -, -, rfl⟩ | ⟨i, rfl, hi, rfl⟩ | ⟨i, rfl, -, rfl⟩ |
    ⟨i, rfl, -, rfl⟩
  · exact .inr (by simp [arrived, delivered, line])
  · exact .inl ⟨i, rfl, hi, by simp [delivered, line]⟩
  · exact .inr (by simp [arrived, delivered, line])
  · exact .inr (by simp [arrived, delivered, line])

/-- The reader only takes what is first in the line. -/
theorem readStep_line (hs : readStep s a = some s') :
    arrived (as ++ [a]) = arrived as ∧ line (as ++ [a]) s' = line as s := by
  rcases readStep_cases hs with ⟨rfl, hr, -, rfl⟩ | ⟨rfl, hr, rfl⟩ | ⟨rfl, hr, -, rfl⟩ |
    ⟨rfl, hr, rfl⟩ | ⟨i, rfl, hr, rfl⟩ | ⟨rfl, hr, rfl⟩ | ⟨i, rfl, hr, rfl⟩ | ⟨i, rfl, hr, -, rfl⟩ |
    ⟨i, rfl, hr, rfl⟩ | ⟨rfl, hr, rfl⟩
  case inr.inr.inr.inl =>
    refine ⟨by simp [arrived], ?_⟩
    cases hlist : s.recvList <;> simp [delivered, line, ReadStage.hand, hr, hlist]
  all_goals simp [arrived, delivered, line, ReadStage.hand, hr]

/-- **The line only grows**: messages that are in it keep their order. -/
theorem line_sublist (hs : s.step inbox a = some s') :
    (line as s).Sublist (line (as ++ [a]) s') := by
  rcases RecvQueue.step_cases hs with hs | hs
  · rcases recvStep_line as hs with ⟨i, -, -, hline⟩ | ⟨-, hline⟩
    · rw [hline, line, pushRecord]
      refine List.Sublist.append_left (List.Sublist.append_left ?_ _) _
      split_ifs
      · exact List.sublist_cons_self i _
      · exact List.sublist_append_left _ _
    · rw [hline]
  · rw [(readStep_line as hs).2]

variable {as}

/-- A push puts the message into the line, behind all that are in it if its priority is
low. -/
theorem QueueLedger.push (h : QueueLedger inbox as s) (hlocks : QueueLocks s) {i : ι}
    (hi : s.recv i = .locked) :
    QueueLedger inbox (as ++ [.push i])
      { s with
        recvList := pushRecord inbox i s.recvList
        recv := Function.update s.recv i .pushed } := by
  obtain ⟨hperm, hnodup, hmem, hlow, hempty, -⟩ := h
  have hnot : i ∉ arrived as := by
    rw [hmem]
    simp [hi]
  have harr : arrived (as ++ [.push i]) = arrived as ++ [i] := by simp [arrived]
  have hdel : delivered (as ++ [.push i]) = delivered as := by simp [delivered]
  have hins : (pushRecord inbox i s.recvList).Perm (i :: s.recvList) := by
    rw [pushRecord]
    split_ifs
    · exact .refl _
    · exact List.perm_append_singleton i s.recvList
  refine ⟨?_, ?_, ?_, ?_, ?_, fun _ _ => .inr ⟨i, .inl (Function.update_self ..)⟩⟩
  · rw [line, harr, hdel]
    have hmiddle : (delivered as ++ (s.reader.hand ++ i :: s.recvList)).Perm (i :: line as s) := by
      rw [line, ← List.append_assoc, ← List.append_assoc]
      exact List.perm_middle
    exact ((hins.append_left _).append_left _).trans
      (hmiddle.trans ((hperm.cons i).trans (List.perm_append_singleton i _).symm))
  · rw [harr]
    simpa [List.nodup_append, hnodup] using fun j hj (heq : j = i) => hnot (heq ▸ hj)
  · intro j
    rw [harr, List.mem_append, List.mem_singleton, hmem]
    by_cases hj : j = i
    · subst hj
      simp
    · simp [hj]
  · rw [harr, List.filter_append (arrived as), ← hlow]
    simp only [line, hdel, pushRecord]
    by_cases hhigh : inbox.high i = true
    · simp [hhigh]
    · simp [hhigh]
  · -- the reader cannot be inside as well
    intro hr
    have hm := (hlocks.recv i).mpr (.inl hi)
    have hm' := hlocks.reader.mpr (by rw [show s.reader = .popped none from hr]; rfl)
    rw [hm] at hm'
    cases hm'

/-- **The ledger is kept by every move.** -/
theorem QueueLedger.step (h : QueueLedger inbox as s) (hlocks : QueueLocks s)
    (hs : s.step inbox a = some s') : QueueLedger inbox (as ++ [a]) s' := by
  obtain ⟨hperm, hnodup, hmem, hlow, hempty, hwake⟩ := id h
  rcases RecvQueue.step_cases hs with hs | hs
  · rcases recvStep_line as hs with ⟨i, rfl, hi, -⟩ | ⟨harr, hline⟩
    · obtain rfl : _ = s' := by simpa [recvStep, hi] using hs
      exact h.push hlocks hi
    · refine ⟨by rwa [hline, harr], harr ▸ hnodup, ?_, by rw [hline, harr, hlow], ?_, ?_⟩
      all_goals
        rcases recvStep_cases hs with ⟨i, rfl, hi, -, rfl⟩ | ⟨i, rfl, hi, rfl⟩ | ⟨i, rfl, hi, rfl⟩ |
          ⟨i, rfl, hi, rfl⟩
        case inr.inl => simp [arrived] at harr
      · grind
      · grind
      · grind
      · exact hempty
      · exact hempty
      · exact hempty
      · intro hr hne
        refine (hwake hr hne).imp_right ?_
        rintro ⟨j, hj⟩
        have hji : j ≠ i := by
          rintro rfl
          simp [RecvQueue.Owes, hi] at hj
        exact ⟨j, by simpa [RecvQueue.Owes, hji] using hj⟩
      · intro _ _
        exact .inr ⟨i, .inr (Function.update_self ..)⟩
      · intro _ _
        exact .inl (Nat.succ_pos _)
  · obtain ⟨harr, hline⟩ := readStep_line as hs
    refine ⟨by rwa [hline, harr], harr ▸ hnodup, ?_, by rw [hline, harr, hlow], ?_, ?_⟩
    all_goals
      rcases readStep_cases hs with ⟨rfl, hr, -, rfl⟩ | ⟨rfl, hr, rfl⟩ | ⟨rfl, hr, -, rfl⟩ |
        ⟨rfl, hr, rfl⟩ | ⟨i, rfl, hr, rfl⟩ | ⟨rfl, hr, rfl⟩ | ⟨i, rfl, hr, rfl⟩ |
        ⟨i, rfl, hr, -, rfl⟩ | ⟨i, rfl, hr, rfl⟩ | ⟨rfl, hr, rfl⟩
    all_goals grind [List.head?_eq_none_iff]

end Step

/-! ## The number of moves -/

/-- The moves that a call has left and those that its message and its token give the
reader: seven for the message as long as it is not on the list, four for the token. -/
def PutStage.left : PutStage → ℕ
  | .idle => 15
  | .locked => 14
  | .pushed => 6
  | .unlocked => 5
  | .done => 0

theorem PutStage.left_idle : PutStage.idle.left = 15 := rfl
theorem PutStage.left_locked : PutStage.locked.left = 14 := rfl
theorem PutStage.left_pushed : PutStage.pushed.left = 6 := rfl
theorem PutStage.left_unlocked : PutStage.unlocked.left = 5 := rfl
theorem PutStage.left_done : PutStage.done.left = 0 := rfl

/-- The moves that the reader has left before it waits again, if the list stays empty. -/
def ReadStage.left : ReadStage ι → ℕ
  | .waiting => 0
  | .top => 3
  | .locked => 2
  | .popped none => 1
  | .popped (some _) => 8
  | .calling _ => 7
  | .called _ => 6
  | .freeing _ => 5
  | .freed => 4

/-- The moves so far and those that are still paid for. -/
structure QueueEffort (as : List (QueueMove ι)) (s : RecvQueue ι) (calls : Finset ι) : Prop where
  mem : ∀ i, i ∈ calls ↔ s.recv i ≠ .idle
  card : calls.card ≤ (begunCalls as).length
  paid : as.length + s.reader.left + 4 * s.sem + 7 * s.recvList.length +
    ∑ i ∈ calls, (s.recv i).left ≤ 15 * calls.card + 4 * interrupts as

theorem queueEffort_init : QueueEffort [] (RecvQueue.init : RecvQueue ι) ∅ where
  mem := by simp [RecvQueue.init]
  card := by simp
  paid := by simp [RecvQueue.init, ReadStage.left, interrupts]

section Effort

variable [DecidableEq ι] {inbox : Inbox ι} {as : List (QueueMove ι)} {s s' : RecvQueue ι}
  {a : QueueMove ι} {calls : Finset ι}

/-- The sum when one of the calls moves on. -/
theorem sum_putLeft_update {i : ι} (hi : i ∈ calls) (f : ι → PutStage) (x : PutStage) :
    ∑ j ∈ calls, (Function.update f i x j).left + (f i).left =
      ∑ j ∈ calls, (f j).left + x.left := by
  rw [← Finset.add_sum_erase calls _ hi, ← Finset.add_sum_erase calls (fun j => (f j).left) hi,
    Function.update_self]
  have hrest : ∑ j ∈ calls.erase i, (Function.update f i x j).left =
      ∑ j ∈ calls.erase i, (f j).left := by
    refine Finset.sum_congr rfl ?_
    intro j hj
    rw [Function.update_of_ne (Finset.ne_of_mem_erase hj)]
  omega

/-- Every move is paid for. -/
theorem QueueEffort.step (h : QueueEffort as s calls) (hs : s.step inbox a = some s') :
    ∃ calls', QueueEffort (as ++ [a]) s' calls' := by
  obtain ⟨hmem, hcard, hpaid⟩ := h
  have hbegun : (begunCalls (as ++ [a])).length =
      (begunCalls as).length + (begunCalls [a]).length := by simp [begunCalls]
  have hintr : interrupts (as ++ [a]) = interrupts as + interrupts [a] := by simp [interrupts]
  have hlen : (as ++ [a]).length = as.length + 1 := by simp
  rcases RecvQueue.step_cases hs with hs | hs
  · rcases recvStep_cases hs with ⟨i, rfl, hi, hm, rfl⟩ | ⟨i, rfl, hi, rfl⟩ | ⟨i, rfl, hi, rfl⟩ |
      ⟨i, rfl, hi, rfl⟩
    · have hnot : i ∉ calls := by
        rw [hmem]
        simp [hi]
      have hsum := sum_putLeft_update (Finset.mem_insert_self i calls) s.recv .locked
      have hold := Finset.sum_insert (f := fun j => (s.recv j).left) hnot
      have hinsert := Finset.card_insert_of_notMem hnot
      rw [hi] at hsum hold
      refine ⟨insert i calls, by grind, ?_, ?_⟩
      · rw [hbegun]
        exact hinsert.le.trans (Nat.add_le_add_right hcard 1)
      · simp only [hlen, hintr, PutStage.left_idle, PutStage.left_locked] at hsum hold ⊢
        omega
    all_goals
      have hin : i ∈ calls := by
        rw [hmem]
        simp [hi]
      refine ⟨calls, by grind, by omega, ?_⟩
    · have hsum := sum_putLeft_update hin s.recv .pushed
      simp only [hlen, hintr, hi, PutStage.left_locked, PutStage.left_pushed, length_pushRecord]
        at hsum ⊢
      omega
    · have hsum := sum_putLeft_update hin s.recv .unlocked
      simp only [hlen, hintr, hi, PutStage.left_pushed, PutStage.left_unlocked] at hsum ⊢
      omega
    · have hsum := sum_putLeft_update hin s.recv .done
      simp only [hlen, hintr, hi, PutStage.left_unlocked, PutStage.left_done] at hsum ⊢
      omega
  · refine ⟨calls, ?_, by omega, ?_⟩
    · rcases readStep_cases hs with ⟨-, -, -, rfl⟩ | ⟨-, -, rfl⟩ | ⟨-, -, -, rfl⟩ | ⟨-, -, rfl⟩ |
        ⟨_, -, -, rfl⟩ | ⟨-, -, rfl⟩ | ⟨_, -, -, rfl⟩ | ⟨_, -, -, -, rfl⟩ | ⟨_, -, -, rfl⟩ |
        ⟨-, -, rfl⟩
      all_goals exact hmem
    · rcases readStep_cases hs with ⟨rfl, hr, hsem, rfl⟩ | ⟨rfl, hr, rfl⟩ | ⟨rfl, hr, -, rfl⟩ |
        ⟨rfl, hr, rfl⟩ | ⟨_, rfl, hr, rfl⟩ | ⟨rfl, hr, rfl⟩ | ⟨_, rfl, hr, rfl⟩ |
        ⟨_, rfl, hr, -, rfl⟩ | ⟨_, rfl, hr, rfl⟩ | ⟨rfl, hr, rfl⟩
      case inr.inr.inr.inl =>
        simp only [hr, ReadStage.left] at hpaid
        cases hlist : s.recvList <;>
          simp only [hlist, hlen, hintr, ReadStage.left, List.head?_nil, List.head?_cons,
            List.tail_nil, List.tail_cons, List.length_nil, List.length_cons] at hpaid ⊢ <;>
          omega
      case inr.inl =>
        have hone : interrupts [(.semIntr : QueueMove ι)] = 1 := rfl
        simp only [hr, hlen, hintr, hone, ReadStage.left] at hpaid ⊢
        omega
      all_goals
        simp only [hr, hlen, hintr, ReadStage.left] at hpaid ⊢
        omega

end Effort

/-! ## Whole runs -/

/-- Of two messages in order in a line without repetition, the first has been delivered
before the second, if the second has been. -/
theorem pair_sublist_of_append {xs ys : List ι} {h l : ι} (hnodup : (xs ++ ys).Nodup)
    (hsub : [h, l].Sublist (xs ++ ys)) (hl : l ∈ xs) : [h, l].Sublist xs := by
  obtain ⟨ps, qs, heq, hps, hqs⟩ := List.sublist_append_iff.mp hsub
  rcases List.eq_nil_or_concat qs with rfl | ⟨qs', x, rfl⟩
  · rwa [heq, List.append_nil]
  · -- the second one would be among those that are still to come
    rw [List.concat_eq_append, ← List.append_assoc] at heq
    obtain rfl : l = x := by
      have hlast := congrArg List.getLast? heq
      simpa using hlast
    have hys : l ∈ ys := hqs.subset (by simp)
    exact absurd rfl ((List.nodup_append.mp hnodup).2.2 l hl l hys)

section Runs

variable [DecidableEq ι] {inbox : Inbox ι} {as : List (QueueMove ι)} {s : RecvQueue ι}

/-- The invariant over a run. -/
theorem queueInvariant_of_runs
    (h : Runs (RecvQueue.step inbox) (fun _ _ => True) .init as s) :
    QueueLocks s ∧ QueueLedger inbox as s ∧ ∃ calls, QueueEffort as s calls := by
  induction h with
  | refl => exact ⟨queueLocks_init, queueLedger_init inbox, ∅, queueEffort_init⟩
  | snoc _ _ hs ih =>
      obtain ⟨hlocks, hledger, calls, heffort⟩ := ih
      exact ⟨hlocks.step hs, hledger.step hlocks hs, heffort.step hs⟩

/-- **Nobody inside is stuck**: where nobody can move, every call has posted and the reader
waits without a token. -/
theorem RecvQueue.Quiet.waiting (hq : s.Quiet inbox) (hlocks : QueueLocks s) :
    s.reader = .waiting ∧ s.sem = 0 ∧ ∀ i, s.recv i = .idle ∨ s.recv i = .done := by
  have hnone : ∀ a, (∀ i, a ≠ .lock i) → a ≠ .semIntr →
      recvStep inbox s a = none ∧ readStep s a = none := by
    intro a hlock hintr
    have h := hq a hlock hintr
    rwa [RecvQueue.step, Option.or_eq_none_iff] at h
  have hrecv : ∀ i, s.recv i = .idle ∨ s.recv i = .done := by
    intro i
    cases hi : s.recv i with
    | idle => exact .inl rfl
    | locked =>
        have h := (hnone (.push i) (by simp) (by simp)).1
        simp [recvStep, hi] at h
    | pushed =>
        have h := (hnone (.unlock i) (by simp) (by simp)).1
        simp [recvStep, hi] at h
    | unlocked =>
        have h := (hnone (.post i) (by simp) (by simp)).1
        simp [recvStep, hi] at h
    | done => exact .inr rfl
  -- so the mutex is free, unless the reader has it
  have hmutex : s.reader.inside = false → s.mutex = none := by
    intro hout
    cases hm : s.mutex with
    | none => rfl
    | some holder =>
        cases holder with
        | recv i =>
            rcases (hlocks.recv i).mp hm with hi | hi
            · rcases hrecv i with h | h <;> rw [hi] at h <;> cases h
            · rcases hrecv i with h | h <;> rw [hi] at h <;> cases h
        | reader =>
            rw [hlocks.reader.mp hm] at hout
            cases hout
  cases hr : s.reader with
  | waiting =>
      have h := (hnone .semWait (by simp) (by simp)).2
      exact ⟨rfl, by simpa [readStep, hr] using h, hrecv⟩
  | top =>
      have h := (hnone .readLock (by simp) (by simp)).2
      simp [readStep, hr, hmutex (by rw [hr]; rfl)] at h
  | locked =>
      have h := (hnone .pop (by simp) (by simp)).2
      simp [readStep, hr] at h
  | popped record =>
      have h := (hnone .readUnlock (by simp) (by simp)).2
      cases record <;> simp [readStep, hr] at h
  | calling i =>
      have h := (hnone (.callback i) (by simp) (by simp)).2
      simp [readStep, hr] at h
  | called i =>
      have h := (hnone .freeLock (by simp) (by simp)).2
      simp [readStep, hr, hmutex (by rw [hr]; rfl)] at h
  | freeing i =>
      have h := (hnone .free (by simp) (by simp)).2
      simp [readStep, hr] at h
  | freed =>
      have h := (hnone .freeUnlock (by simp) (by simp)).2
      simp [readStep, hr] at h

/-- When nobody inside can move, all messages have been delivered. -/
theorem QueueLedger.delivered_of_quiet (h : QueueLedger inbox as s) (hlocks : QueueLocks s)
    (hq : s.Quiet inbox) : (delivered as).Perm (arrived as) := by
  obtain ⟨hr, hsem, hrecv⟩ := hq.waiting hlocks
  have hlist : s.recvList = [] := by
    by_contra hne
    rcases h.wake hr hne with hpos | ⟨i, hi | hi⟩
    · omega
    · rcases hrecv i with h' | h' <;> rw [hi] at h' <;> cases h'
    · rcases hrecv i with h' | h' <;> rw [hi] at h' <;> cases h'
  have hperm := h.perm
  rw [line, hr, hlist] at hperm
  simpa [ReadStage.hand] using hperm

/-- The line of a run goes on from that of its beginning. -/
theorem line_sublist_of_runs (as : List (QueueMove ι)) {bs : List (QueueMove ι)} {t : RecvQueue ι}
    (h : Runs (RecvQueue.step inbox) (fun _ _ => True) s bs t) :
    (line as s).Sublist (line (as ++ bs) t) := by
  induction h with
  | refl => rw [List.append_nil]
  | snoc _ _ hs ih =>
      rw [← List.append_assoc]
      exact ih.trans (line_sublist _ hs)

/-- **Delivery.** For any calls of `wi_bus_recv_cb` and every interleaving with the reader: no
message is delivered twice, and none that has not arrived; those of low priority are delivered
in the order of their arrival; one of high priority is delivered before everything that is on
the list when it arrives; if the reader waits without a token, the list is empty or a call
that has put its message there has yet to post; and when nobody inside can move, which is so
after a bounded number of moves, every message has been delivered. -/
theorem recv_queue_delivery (h : Runs (RecvQueue.step inbox) (fun _ _ => True) .init as s) :
    (delivered as).Nodup ∧ (∀ i ∈ delivered as, i ∈ arrived as) ∧
    (delivered as).filter (fun i => ¬ inbox.high i) <+:
      (arrived as).filter (fun i => ¬ inbox.high i) ∧
    (∀ i s', s.step inbox (.push i) = some s' → inbox.high i → ∀ l ∈ s.recvList, ∀ bs t,
      Runs (RecvQueue.step inbox) (fun _ _ => True) s' bs t →
        l ∈ delivered (as ++ .push i :: bs) → [i, l].Sublist (delivered (as ++ .push i :: bs))) ∧
    (s.reader = .waiting → s.sem = 0 → s.recvList = [] ∨ ∃ i, s.Owes i) ∧
    (s.Quiet inbox → ∀ i, s.recv i ≠ .idle → i ∈ delivered as) ∧
    as.length ≤ 15 * (begunCalls as).length + 4 * interrupts as := by
  obtain ⟨hlocks, hledger, calls, heffort⟩ := queueInvariant_of_runs h
  have hline : (line as s).Nodup := hledger.perm.nodup_iff.mpr hledger.nodup
  refine ⟨(List.nodup_append.mp hline).1, ?_, ?_, ?_, ?_, ?_, ?_⟩
  · intro i hi
    exact hledger.perm.subset (List.mem_append_left _ hi)
  · rw [← hledger.low, line, List.filter_append]
    exact List.prefix_append _ _
  · intro i s' hs hhigh l hl bs t hrun hdel
    have hpush : line (as ++ [.push i]) s' =
        delivered as ++ (s.reader.hand ++ i :: s.recvList) := by
      rcases RecvQueue.step_cases hs with hs | hs
      · rcases recvStep_line as hs with ⟨j, hj, -, hline⟩ | ⟨harr, -⟩
        · obtain rfl := QueueMove.push.inj hj
          rw [hline, pushRecord, if_pos hhigh]
        · simp [arrived] at harr
      · cases hs
    have hall := (h.snoc trivial hs).append hrun
    rw [List.append_assoc, List.singleton_append] at hall
    obtain ⟨-, hledger', -⟩ := queueInvariant_of_runs hall
    have hsub : [i, l].Sublist (line (as ++ .push i :: bs) t) := by
      have hgrow := line_sublist_of_runs (as ++ [.push i]) hrun
      rw [hpush, List.append_assoc, List.singleton_append] at hgrow
      refine List.Sublist.trans ?_ hgrow
      refine List.Sublist.trans ?_ (List.sublist_append_right _ _)
      refine List.Sublist.trans ?_ (List.sublist_append_right _ _)
      exact List.Sublist.cons_cons i (List.singleton_sublist.mpr hl)
    exact pair_sublist_of_append (hledger'.perm.nodup_iff.mpr hledger'.nodup) hsub hdel
  · intro hr hsem
    by_contra hno
    push Not at hno
    rcases hledger.wake hr hno.1 with hpos | ⟨i, hi⟩
    · omega
    · exact hno.2 i hi
  · intro hq i hi
    have hdone : s.recv i = .done := ((hq.waiting hlocks).2.2 i).resolve_left hi
    refine (hledger.delivered_of_quiet hlocks hq).symm.subset ((hledger.mem i).mpr ?_)
    simp [hdone]
  · have hcard := heffort.card
    have hpaid := heffort.paid
    omega

end Runs

/-- A message of low priority and one of high priority that overtakes it. -/
def lowAndHigh : Inbox Bool := fun high =>
  (if high then wiFlagPriorityHigh else 1, ⟨Vector.replicate 8 0, [], 0⟩)

/-- Both arrive before the reader looks at the list. -/
def overtakingRun : List (QueueMove Bool) :=
  [.lock false, .push false, .unlock false, .post false, .lock true, .push true, .semWait,
   .unlock true, .readLock, .pop, .readUnlock, .callback true, .post true, .freeLock, .free,
   .freeUnlock, .readLock, .pop, .readUnlock, .callback false]

theorem recv_queue_delivery_overtaking :
    ∃ s, Runs (RecvQueue.step lowAndHigh) (fun _ _ => True) .init overtakingRun s ∧
      (delivered overtakingRun).Nodup ∧ delivered overtakingRun = [true, false] := by
  have hrun : Runs (RecvQueue.step lowAndHigh) (fun _ _ => True) .init overtakingRun
      ((overtakingRun.foldlM (RecvQueue.step lowAndHigh) .init).getD .init) :=
    Runs.of_foldlM rfl (fun _ _ _ => trivial)
  exact ⟨_, hrun, (recv_queue_delivery hrun).1, rfl⟩

/-- Between its push and its post a call leaves a message on the list of a reader that waits
without a token. -/
theorem recv_queue_waits_on_message :
    ∃ s, Runs (RecvQueue.step lowAndHigh) (fun _ _ => True) .init
        [.lock false, .push false, .unlock false] s ∧
      s.reader = .waiting ∧ s.sem = 0 ∧ s.recvList = [false] :=
  ⟨_, .snoc (.snoc (.snoc .refl trivial rfl) trivial rfl) trivial rfl, rfl, rfl, rfl⟩

end CCode.MemShare
