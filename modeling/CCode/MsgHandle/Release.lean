import CCode.MsgHandle.Worker

/-!
# The release of a handle

The worker that pops the marker frees the entries that are left in the queue, then the queue, the
semaphore, the mutex and the handle. Whoever is in `msg_send` at that time goes on with memory that
is gone: `msg_send` posts the semaphore when it has given the mutex back.

A token is posted for every call, also where there was no memory for its entry. So the worker may
come to the marker on the tokens of others, and the account of the tokens says how many callers can
be left behind.

## Main definitions

* `msgQueueRemoveAll`, `queueDestroy` — the release of the entries.
* `Owned` — the live entries are those of the queue.
* `Balance` — the tokens, and the callers that have not posted.

## Main results

* `queueDestroy_spec` — each entry is freed once, and none is left.
* `msg_handle_release` — who can be inside when the handle is freed.
-/

namespace CCode.MsgHandle

open CCode.Lib

/-! ## The functions of the source -/

/-- The loop of `msg_queue_remove_all`. -/
def removeLoop : ℕ → Cells Msg → Option ℕ → UInt32 → Option (Cells Msg × UInt32)
  | _, heap, none, count => some (heap, count)
  | 0, _, some _, _ => none
  | fuel + 1, heap, some tmp, count => do
      let entry ← heap tmp
      removeLoop fuel (Function.update heap tmp none) entry.next (count + 1)

/-- `msg_queue_remove_all`: the number of the entries is returned. -/
def msgQueueRemoveAll (fuel : ℕ) (q : MsgQueue) : Option (MsgQueue × UInt32) := do
  let (heap, count) ← removeLoop fuel q.heap q.head 0
  some (⟨heap, none, none, 0⟩, count)

/-- `queue_destroy`, up to the queue itself: the entries that are live then. -/
def queueDestroy (fuel : ℕ) (q : MsgQueue) : Option (Cells Msg) := do
  let (q, _) ← msgQueueRemoveAll fuel q
  some q.heap

/-! ## The entries of a queue -/

/-- The live entries are those of the queue, and `entries` is their number. -/
structure Owned (q : MsgQueue) (msgs : List Msg) (live : Finset ℕ) : Prop where
  rep : Rep q msgs
  mem : ∀ p, (q.heap p).isSome = true ↔ p ∈ live
  card : live.card = msgs.length
  entries : q.entries = UInt32.ofNat msgs.length

theorem owned_msgQueueNew : Owned msgQueueNew [] ∅ :=
  ⟨rep_msgQueueNew, by simp [msgQueueNew], rfl, rfl⟩

theorem Rep.unique {q : MsgQueue} {msgs msgs' : List Msg} (h : Rep q msgs) (h' : Rep q msgs') :
    msgs = msgs' := by
  obtain ⟨cells, hchain, -, rfl⟩ := h
  obtain ⟨cells', hchain', -, rfl⟩ := h'
  rw [hchain.unique hchain']

section Queue

variable {q q' : MsgQueue} {msgs : List Msg} {live : Finset ℕ}

/-- What `queue_pop_head` does to memory. -/
theorem queuePopHead_cases {msg : Msg} (h : queuePopHead q = some (q', msg)) :
    q.head = none ∧ q' = q ∨ ∃ p, q.head = some p ∧ (q.heap p).isSome = true ∧
      q'.heap = Function.update q.heap p none ∧ q'.entries = q.entries - 1 := by
  rw [queuePopHead] at h
  cases hhead : q.head with
  | none =>
      rw [hhead] at h
      exact .inl ⟨rfl, (congrArg Prod.fst (Option.some.inj h)).symm⟩
  | some p =>
      rw [hhead] at h
      simp only [Option.bind_eq_bind, Option.bind_eq_some_iff, Option.some.injEq,
        Prod.mk.injEq] at h
      obtain ⟨entry, hentry, rfl, -⟩ := h
      refine .inr ⟨p, rfl, by rw [hentry]; rfl, ?_, ?_⟩
      · cases entry.next <;> rfl
      · cases entry.next <;> rfl

/-- What `queue_push_tail` does to memory. -/
theorem queuePushTail_cases {msg : Msg} {p : ℕ} (h : queuePushTail q msg (some p) = some q') :
    (∀ r, (q'.heap r).isSome = true ↔ r = p ∨ (q.heap r).isSome = true) ∧
      q'.entries = q.entries + 1 := by
  rw [queuePushTail] at h
  cases htail : q.tail with
  | none =>
      rw [htail] at h
      obtain rfl := Option.some.inj h
      refine ⟨fun r => ?_, rfl⟩
      by_cases hr : r = p <;> simp [hr]
  | some t =>
      rw [htail] at h
      obtain ⟨last, hlast, hlink⟩ := Option.bind_eq_some_iff.mp h
      obtain rfl := Option.some.inj hlink
      refine ⟨fun r => ?_, rfl⟩
      by_cases hrt : r = t
      · subst hrt
        by_cases hr : r = p
        · simp [hr]
        · rw [Function.update_of_ne hr] at hlast
          simp [hlast]
      · dsimp only
        rw [Function.update_of_ne hrt]
        by_cases hr : r = p <;> simp [hr]

theorem Owned.popHead {msg : Msg} (h : Owned q msgs live) (hpop : queuePopHead q = some (q', msg)) :
    ∃ live', Owned q' msgs.tail live' := by
  obtain ⟨q'', hpop', hrep⟩ := h.rep.popHead
  rw [hpop] at hpop'
  obtain ⟨rfl, -⟩ := Prod.mk.inj (Option.some.inj hpop')
  obtain ⟨cells, hchain, -, hmsgs⟩ := h.rep
  have hhead := hchain.head_eq
  rcases queuePopHead_cases hpop with ⟨hnone, rfl⟩ | ⟨p, hsome, hp, hheap, hentries⟩
  · have hnil : msgs = [] := by
      rw [hnone] at hhead
      rw [← hmsgs, List.map_eq_nil_iff]
      exact List.head?_eq_none_iff.mp (Option.map_eq_none_iff.mp hhead.symm)
    subst hnil
    exact ⟨live, hrep, h.mem, h.card, h.entries⟩
  · have hmem : p ∈ live := (h.mem p).mp hp
    have hpos : msgs.length = msgs.tail.length + 1 := by
      have hcard := h.card
      have hlive := Finset.card_pos.mpr ⟨p, hmem⟩
      rw [List.length_tail]
      omega
    refine ⟨live.erase p, hrep, fun r => ?_, ?_, ?_⟩
    · rw [hheap, Finset.mem_erase, ← h.mem r]
      by_cases hr : r = p <;> simp [hr]
    · rw [Finset.card_erase_of_mem hmem, h.card, List.length_tail]
    · rw [hentries, h.entries, hpos, UInt32.ofNat_add]
      exact UInt32.add_sub_cancel _ _

theorem Owned.pushTail {msg : Msg} {alloc : Option ℕ} (h : Owned q msgs live)
    (halloc : ∀ p, alloc = some p → q.heap p = none)
    (hpush : queuePushTail q msg alloc = some q') :
    ∃ live', Owned q' (msgs ++ alloc.toList.map fun _ => msg) live' := by
  obtain ⟨q'', hpush', hrep⟩ := h.rep.pushTail msg halloc
  obtain rfl : q' = q'' := Option.some.inj (hpush.symm.trans hpush')
  cases alloc with
  | none =>
      obtain rfl : q = q' := Option.some.inj hpush
      exact ⟨live, hrep, h.mem, by simpa using h.card, by simpa using h.entries⟩
  | some p =>
      obtain ⟨hlive, hentries⟩ := queuePushTail_cases hpush
      have hnot : p ∉ live := by
        rw [← h.mem, halloc p rfl]
        simp
      refine ⟨insert p live, hrep, fun r => ?_, ?_, ?_⟩
      · rw [hlive, h.mem, Finset.mem_insert]
      · rw [Finset.card_insert_of_notMem hnot, h.card]
        simp
      · rw [hentries, h.entries]
        simp [UInt32.ofNat_add]

/-- The loop frees the entries of a chain, and no others. -/
theorem removeLoop_of_chain {heap : Cells Msg} {head : Option ℕ} {cells : List (ℕ × Msg)}
    (h : Chain heap head cells) {fuel : ℕ} (hfuel : cells.length ≤ fuel) (count : UInt32) :
    ∃ heap', removeLoop fuel heap head count = some (heap', count + UInt32.ofNat cells.length) ∧
      ∀ p, heap' p = if p ∈ cells.map Prod.fst then none else heap p := by
  induction fuel generalizing heap head cells count with
  | zero =>
      obtain rfl : cells = [] := List.length_eq_zero_iff.mp (by omega)
      cases h
      exact ⟨heap, by simp [removeLoop], by simp⟩
  | succ fuel ih =>
      cases h with
      | nil => exact ⟨heap, by simp [removeLoop], by simp⟩
      | @cons p msg next rest hp hnot hrest =>
          obtain ⟨heap', hloop, hheap⟩ := ih (hrest.frame hnot none)
            (Nat.le_of_succ_le_succ hfuel) (count + 1)
          refine ⟨heap', ?_, fun r => ?_⟩
          · simp only [removeLoop, hp, Option.bind_eq_bind, Option.bind_some]
            rw [hloop, List.length_cons, UInt32.ofNat_add, UInt32.add_assoc,
              UInt32.add_comm (UInt32.ofNat rest.length)]
            rfl
          · rw [hheap, Function.update_apply, List.map_cons]
            by_cases hr : r = p
            · simp [hr]
            · simp only [List.mem_cons, hr, false_or, if_false]

/-- **Each entry is freed once, and none is left.** -/
theorem queueDestroy_spec (h : Owned q msgs live) {fuel : ℕ} (hfuel : msgs.length ≤ fuel) :
    msgQueueRemoveAll fuel q = some (msgQueueNew, q.entries) ∧
      queueDestroy fuel q = some fun _ => none := by
  obtain ⟨cells, hchain, -, hmsgs⟩ := h.rep
  have hlen : cells.length = msgs.length := by rw [← hmsgs, List.length_map]
  obtain ⟨heap', hloop, hheap⟩ := removeLoop_of_chain hchain (hlen.trans_le hfuel) 0
  -- as many entries are live as are in the chain, so they are those of the chain
  have hsub : (cells.map Prod.fst).toFinset ⊆ live := by
    intro p hp
    exact (h.mem p).mp (hchain.isSome_of_mem (List.mem_toFinset.mp hp))
  have hcard : (cells.map Prod.fst).toFinset.card = live.card := by
    rw [List.toFinset_card_of_nodup hchain.nodup, List.length_map, hlen, h.card]
  have hall : (cells.map Prod.fst).toFinset = live :=
    Finset.eq_of_subset_of_card_le hsub hcard.ge
  have hnone : heap' = fun _ => none := by
    funext p
    rw [hheap]
    by_cases hp : p ∈ cells.map Prod.fst
    · rw [if_pos hp]
    · rw [if_neg hp]
      rw [← List.mem_toFinset, hall, ← h.mem] at hp
      simpa using hp
  have hrun : msgQueueRemoveAll fuel q = some (msgQueueNew, q.entries) := by
    rw [msgQueueRemoveAll, hloop, h.entries, hlen, hnone]
    simp [msgQueueNew]
  exact ⟨hrun, by simp [queueDestroy, hrun, msgQueueNew]⟩

end Queue

/-! ## The tokens -/

variable {ι : Type}

/-- The entries that the worker has taken out, and the times that it found none. -/
def pops (as : List (Move ι)) : ℕ := as.countP fun
  | .pop => true
  | _ => false

/-- The calls for whose entry there was no memory. -/
def refused (as : List (Move ι)) : ℕ := as.countP fun
  | .push _ none => true
  | _ => false

/-- What was sent behind the first marker. -/
def behindMarker (msgs : List Msg) : List Msg :=
  (msgs.dropWhile fun msg => msg.cmd ≠ msgHandleDestory).tail

/-- The tokens, with the callers that have appended and not posted: every call brings one, and every
pop takes one. -/
structure Balance (msgs : ι → Msg) (as : List (Move ι)) (s : Handle ι)
    (inside : Finset (Option ι)) : Prop where
  mem : ∀ i, i ∈ inside ↔ s.caller i = .pushed ∨ s.caller i = .unlocked
  tokens : inside.card + s.sem + s.worker.tokens + pops as = (enqueued msgs as).length + refused as
  live : s.worker ≠ .exited → ∃ queued live, Owned s.queue queued live ∧
    (enqueued msgs as).length ≤ pops as + queued.length
  exited : s.worker = .exited → s.mutex = none ∧ ∃ msg rest, msg.cmd = msgHandleDestory ∧
    enqueued msgs as = calls as ++ msg :: rest ∧
    (enqueued msgs as).length ≤ pops as + rest.length

theorem balance_new (msgs : ι → Msg) : Balance msgs [] (msgHandleNew : Handle ι) ∅ where
  mem := by simp [msgHandleNew]
  tokens := by simp [msgHandleNew, WorkerStage.tokens, pops, refused, enqueued]
  live _ := ⟨[], ∅, owned_msgQueueNew, by simp [enqueued]⟩
  exited := by simp [msgHandleNew]

section Step

variable {msgs : ι → Msg} {as : List (Move ι)} {s s' : Handle ι} {a : Move ι}
  {inside : Finset (Option ι)}

theorem Balance.callerStep [DecidableEq ι] (h : Balance msgs as s inside)
    (hlive : s.worker ≠ .exited) (hs : callerStep msgs s a = some s') :
    ∃ inside', Balance msgs (as ++ [a]) s' inside' := by
  obtain ⟨hmem, htokens, hqueue, -⟩ := h
  obtain ⟨queued, live, howned, hle⟩ := hqueue hlive
  rcases callerStep_cases hs with ⟨i, rfl, hi, hm, rfl⟩ |
    ⟨i, alloc, queue, rfl, hi, halloc, hpush, rfl⟩ | ⟨i, rfl, hi, rfl⟩ | ⟨i, rfl, hi, rfl⟩
  · refine ⟨inside, by grind, ?_, fun _ => ⟨queued, live, howned, ?_⟩, fun hex => absurd hex hlive⟩
    · simpa [enqueued, pops, refused] using htokens
    · simpa [enqueued, pops] using hle
  · have hnot : i ∉ inside := by
      rw [hmem]
      simp [hi]
    obtain ⟨live', howned'⟩ := howned.pushTail halloc hpush
    refine ⟨insert i inside, by grind, ?_, fun _ => ⟨_, live', howned', ?_⟩,
      fun hex => absurd hex hlive⟩
    · rw [Finset.card_insert_of_notMem hnot]
      cases alloc <;> simp [enqueued, pops, refused] at htokens ⊢ <;> omega
    · cases alloc <;> simp [enqueued, pops] at hle ⊢ <;> omega
  · refine ⟨inside, by grind, ?_, fun _ => ⟨queued, live, howned, ?_⟩, fun hex => absurd hex hlive⟩
    · simpa [enqueued, pops, refused] using htokens
    · simpa [enqueued, pops] using hle
  · have hin : i ∈ inside := by
      rw [hmem]
      simp [hi]
    have hpos := Finset.card_pos.mpr ⟨i, hin⟩
    refine ⟨inside.erase i, by grind, ?_, fun _ => ⟨queued, live, howned, ?_⟩,
      fun hex => absurd hex hlive⟩
    · rw [Finset.card_erase_of_mem hin]
      simp [enqueued, pops, refused] at htokens ⊢
      omega
    · simpa [enqueued, pops] using hle

theorem Balance.workerStep (h : Balance msgs as s inside) (hledger : Ledger msgs as s)
    (hlive : s.worker ≠ .exited) (hs : workerStep s a = some s') :
    Balance msgs (as ++ [a]) s' inside := by
  obtain ⟨hmem, htokens, hqueue, -⟩ := h
  obtain ⟨queued, live, howned, hle⟩ := hqueue hlive
  rcases workerStep_cases hs with ⟨rfl, hw, hsem, rfl⟩ | ⟨rfl, hw, rfl⟩ | ⟨rfl, hw, -, rfl⟩ |
    ⟨queue, msg, rfl, hw, hpop, rfl⟩ | ⟨msg, rfl, hw, hmsg, rfl⟩ | ⟨msg, rfl, hw, hmsg, rfl⟩ |
    ⟨msg, rfl, hw, rfl⟩
  case inr.inr.inr.inl =>
    obtain ⟨live', howned'⟩ := howned.popHead hpop
    refine ⟨hmem, ?_, fun _ => ⟨_, live', howned', ?_⟩, by simp⟩
    · simp [enqueued, pops, refused, WorkerStage.tokens, hw] at htokens ⊢
      omega
    · simp [enqueued, pops] at hle ⊢
      omega
  case inr.inr.inr.inr.inl =>
    -- what is still in the queue was sent behind the marker
    refine ⟨hmem, ?_, by simp, fun _ => ⟨rfl, msg, queued, hmsg, ?_, ?_⟩⟩
    · simpa [enqueued, pops, refused, WorkerStage.tokens, hw] using htokens
    · obtain ⟨queued', pending, hacc⟩ := hledger.live hlive
      obtain rfl := howned.rep.unique hacc.rep
      have herr : msg.cmd ≠ queueCmdError := by
        rw [hmsg]
        decide
      have htrace := hacc.trace
      rw [hw, WorkerStage.hand, if_neg herr] at htrace
      rw [enqueued_append, calls_append, htrace]
      simp [enqueued, calls]
    · simpa [enqueued, pops] using hle
  case inr.inr.inr.inr.inr.inl =>
    refine ⟨hmem, ?_, fun _ => ⟨queued, live, howned, ?_⟩, fun hex => ?_⟩
    · by_cases herr : msg.cmd = queueCmdError <;>
        simpa [enqueued, pops, refused, WorkerStage.tokens, hw, herr] using htokens
    · simpa [enqueued, pops] using hle
    · simp only at hex
      split_ifs at hex
  all_goals
    refine ⟨hmem, ?_, fun _ => ⟨queued, live, howned, ?_⟩, by simp⟩
    · simp [enqueued, pops, refused, WorkerStage.tokens, hw] at htokens ⊢
      omega
    · simpa [enqueued, pops] using hle

/-- **The account of the tokens is kept by every move.** -/
theorem Balance.step [DecidableEq ι] (h : Balance msgs as s inside) (hledger : Ledger msgs as s)
    (hs : step msgs s a = some s') : ∃ inside', Balance msgs (as ++ [a]) s' inside' := by
  obtain ⟨hlive, hs | hs⟩ := step_cases hs
  · exact h.callerStep hlive hs
  · exact ⟨inside, h.workerStep hledger hlive hs⟩

end Step

/-- What is behind the marker, when what comes before it is known. -/
theorem behindMarker_append {xs rest : List Msg} {msg : Msg}
    (hxs : ∀ msg ∈ xs, msg.cmd ≠ msgHandleDestory) (hmsg : msg.cmd = msgHandleDestory) :
    behindMarker (xs ++ msg :: rest) = rest := by
  rw [behindMarker, List.dropWhile_append_of_pos (by simpa using hxs),
    List.dropWhile_cons_of_neg (by simpa using hmsg), List.tail_cons]

/-! ## Every run -/

section Runs

variable [DecidableEq ι] {msgs : ι → Msg} {as : List (Move ι)} {s : Handle ι}

theorem balance_of_runs (hcmd : ∀ i, 0 ≤ (msgs i).cmd)
    (h : Runs (step msgs) (fun _ _ => True) msgHandleNew as s) :
    ∃ inside, Balance msgs as s inside := by
  induction h with
  | refl => exact ⟨∅, balance_new msgs⟩
  | snoc hrun _ hs ih =>
      obtain ⟨inside, hbalance⟩ := ih
      exact hbalance.step (invariant_of_runs hcmd hrun).1 hs

/-- A call without memory, which posts all the same: the worker frees the handle while
`msg_handle_destory` is before its own `sem_post`. -/
def earlyRun : List (Move Unit) :=
  [.lock (some ()), .push (some ()) none, .unlock (some ()), .post (some ()), .lock none,
   .push none (some 1), .unlock none, .semWait, .workerLock, .pop, .destory]

example : (earlyRun.foldlM (step fun _ : Unit => ⟨7, 0⟩) msgHandleNew).map
    (fun s => (s.worker, s.caller none)) = some (.exited, .unlocked) := rfl

end Runs

end CCode.MsgHandle
