import CCode.Lib.Chain

/-!
# The message queue

The linked list of `msg_handle.c` with its two ends. `queue_pop_head` and `queue_push_tail`
are `none` where they follow a pointer to a node that is not live; `Rep` says that this
does not happen, and that the two are the operations of a FIFO list, through the
transitions between no, one and several entries.

## Main definitions

* `Msg`, `MsgQueue` — a message, and the queue.
* `queuePopHead`, `queuePushTail` — the operations.
* `Rep` — the list that a queue stands for.
-/

namespace CCode.MsgHandle

open CCode.Lib

/-- A command and the address of its data. -/
structure Msg where
  cmd : Int
  data : ℕ
  deriving DecidableEq

/-- `QUEUE_CMD_ERROR`. -/
abbrev queueCmdError : Int := -255

/-- `MSG_HANDLE_DESTORY`. -/
abbrev msgHandleDestory : Int := -1

/-- `struct msg_queue`, with the live entries. -/
structure MsgQueue where
  heap : Cells Msg
  head : Option ℕ
  tail : Option ℕ
  entries : UInt32

/-- `msg_queue_new`. -/
def msgQueueNew : MsgQueue := ⟨fun _ => none, none, none, 0⟩

/-- `queue_pop_head`: the command and the data, `QUEUE_CMD_ERROR` and null if there is
nothing. -/
def queuePopHead (q : MsgQueue) : Option (MsgQueue × Msg) :=
  match q.head with
  | none => some (q, ⟨queueCmdError, 0⟩)
  | some p => do
      let entry ← q.heap p
      let q := match entry.next with
        | none => { q with head := none, tail := none }
        | some next => { q with head := some next }
      some ({ q with heap := Function.update q.heap p none, entries := q.entries - 1 }, entry.val)

/-- `queue_push_tail`, with the address that `mem_calloc` returned for the entry, `none` for
null. -/
def queuePushTail (q : MsgQueue) (msg : Msg) (alloc : Option ℕ) : Option MsgQueue :=
  match alloc with
  | none => some q
  | some p => do
      let heap := Function.update q.heap p (some ⟨msg, none⟩)
      let heap ← match q.tail with
        | none => some heap
        | some t => do
            let last ← heap t
            some (Function.update heap t (some { last with next := some p }))
      some { heap, head := some (q.head.getD p), tail := some p, entries := q.entries + 1 }

/-- The messages in the queue, first to last. -/
def Rep (q : MsgQueue) (msgs : List Msg) : Prop :=
  ∃ cells, Chain q.heap q.head cells ∧ q.tail = cells.getLast?.map Prod.fst ∧
    cells.map Prod.snd = msgs

theorem rep_msgQueueNew : Rep msgQueueNew [] := ⟨[], .nil, rfl, rfl⟩

/-- The head is popped; an empty queue stays as it is. -/
theorem Rep.popHead {q : MsgQueue} {msgs : List Msg} (h : Rep q msgs) :
    ∃ q', queuePopHead q = some (q', msgs.head?.getD ⟨queueCmdError, 0⟩) ∧ Rep q' msgs.tail := by
  obtain ⟨heap, head, tail, entries⟩ := q
  obtain ⟨cells, hchain, htail, rfl⟩ := h
  cases hchain with
  | nil => exact ⟨_, rfl, [], .nil, htail, rfl⟩
  | @cons p msg next rest hp hnot hrest =>
      have hpop : queuePopHead ⟨heap, some p, tail, entries⟩ =
          some ({ heap := Function.update heap p none, head := next,
                  tail := if next = none then none else tail, entries := entries - 1 }, msg) := by
        simp only at hp
        cases next <;> simp [queuePopHead, hp]
      refine ⟨_, hpop, rest, hrest.frame hnot none, ?_, rfl⟩
      -- the tail is that of the rest, null for an empty one
      have hnext := hrest.head_eq
      cases rest with
      | nil =>
          rw [show next = none from hnext, if_pos rfl]
          rfl
      | cons x rest =>
          rw [hnext, if_neg (by simp)]
          rw [htail]
          simp

/-- A new entry goes to the tail, if there is memory for it. -/
theorem Rep.pushTail {q : MsgQueue} {msgs : List Msg} (h : Rep q msgs) (msg : Msg)
    {alloc : Option ℕ} (halloc : ∀ p, alloc = some p → q.heap p = none) :
    ∃ q', queuePushTail q msg alloc = some q' ∧
      Rep q' (msgs ++ alloc.toList.map fun _ => msg) := by
  obtain ⟨heap, head, tail, entries⟩ := q
  cases alloc with
  | none => exact ⟨_, rfl, by simpa using h⟩
  | some p =>
      have hfresh := halloc p rfl
      obtain ⟨cells, hchain, htail, rfl⟩ := h
      rcases List.eq_nil_or_concat cells with rfl | ⟨ys, ⟨t, last⟩, rfl⟩
      · -- the first entry is the head and the tail
        have hhead := hchain.head_eq
        simp only [List.head?_nil, Option.map_none, List.getLast?_nil] at hhead htail
        subst hhead htail
        exact ⟨_, rfl, [(p, msg)], .cons (Function.update_self _ _ _) (by simp) .nil, rfl, rfl⟩
      · -- the last entry is linked to the new one
        rw [List.concat_eq_append] at hchain htail ⊢
        have hlast := hchain.last_eq
        have hne : t ≠ p := by
          rintro rfl
          rw [hfresh] at hlast
          cases hlast
        have ht : Function.update heap p (some ⟨msg, none⟩) t = some ⟨last, none⟩ := by
          rw [Function.update_of_ne hne]
          exact hlast
        simp only [List.getLast?_concat, Option.map_some] at htail
        have hpush : queuePushTail ⟨heap, head, tail, entries⟩ msg (some p) = some
            { heap := Function.update (Function.update heap p (some ⟨msg, none⟩)) t
                (some ⟨last, some p⟩),
              head := some (head.getD p), tail := some p, entries := entries + 1 } := by
          simp [queuePushTail, htail, ht]
        refine ⟨_, hpush, ys ++ [(t, last), (p, msg)], ?_, ?_, by simp⟩
        · have hhead : some (head.getD p) = head := by
            have hhead := hchain.head_eq
            cases ys with
            | nil =>
                simp only at hhead
                rw [hhead]
                rfl
            | cons y ys =>
                simp only at hhead
                rw [hhead]
                rfl
          simp only [hhead]
          exact hchain.snoc hfresh
        · rw [show ys ++ [(t, last), (p, msg)] = (ys ++ [(t, last)]) ++ [(p, msg)] by simp,
            List.getLast?_concat]
          rfl

end CCode.MsgHandle
