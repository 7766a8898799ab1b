import CCode.MemShare.PeerCache

/-!
# Coherence of the cache of peers

The results about the runs of `Net`. A channel that is gone stays gone, since the kernel
uses no identifier again, so a send that has started on one can only end in one way. A
message that a receiver takes was written by the one sender inside the channel, and the
device it was sent to has the id of the client whose channel it is.

## Main definitions

* `SameFor` — nothing has changed for one of the senders.
* `GaveUp` — a send has failed, and the peer is forgotten.
* `peer_cache_coherent` — the three properties, in every state that is reached.
-/

namespace CCode.MemShare

open CCode.Lib

variable {ι : Type}

/-- The sender whose `pc_c_send` the step belongs to. -/
def NetAction.sender : NetAction ι → Option ι
  | .send i .. | .resolve i .. | .goOn i => some i
  | .register .. | .unregister _ | .receive _ => none

/-- The step begins a `pc_c_send` of the sender. -/
def NetAction.isSend [DecidableEq ι] (i : ι) : NetAction ι → Bool
  | .send j .. => j = i
  | .register .. | .unregister _ | .resolve .. | .goOn _ | .receive _ => false

/-- The step is the next one of the sender in `ipc_send_cmd`. -/
def NetAction.isGoOn [DecidableEq ι] (i : ι) : NetAction ι → Bool
  | .goOn j => j = i
  | .register .. | .unregister _ | .send .. | .resolve .. | .receive _ => false

/-- The last send of `i` has failed, and the destination is not in its list. -/
structure GaveUp (s : Net ι) (i : ι) (dest : PeerId) : Prop where
  call : s.call i = .idle
  ret : s.ret i = some cmdFailed
  forgotten : knownDev dest.toClientId (s.devList i) = none

/-! ## Steps of others -/

/-- Nothing that concerns the sender `i` has changed. -/
structure SameFor (i : ι) (s s' : Net ι) : Prop where
  call : s'.call i = s.call i
  devList : s'.devList i = s.devList i
  ret : s'.ret i = s.ret i
  stage : ∀ c ∈ s.made, (s'.chan c.clientCmd.semid).sender i =
    (s.chan c.clientCmd.semid).sender i

theorem GaveUp.of_sameFor {s s' : Net ι} {i : ι} {dest : PeerId} (h : GaveUp s i dest)
    (hsame : SameFor i s s') : GaveUp s' i dest :=
  ⟨hsame.call.trans h.call, hsame.ret.trans h.ret, hsame.devList ▸ h.forgotten⟩

/-- A move of another party on a channel. -/
theorem SameFor.of_chan (i : ι) (s : Net ι) (semid : UInt32) (ch : Channel ι)
    (hsender : ch.sender i = (s.chan semid).sender i) :
    SameFor i s { s with chan := Function.update s.chan semid ch } where
  call := rfl
  devList := rfl
  ret := rfl
  stage c _ := by
    by_cases hid : c.clientCmd.semid = semid
    · subst hid
      simpa using hsender
    · simp [Function.update_of_ne hid]

/-- A registration leaves the server that its request does. -/
theorem Net.register_world (s : Net ι) (id : PeerId) (size pid : UInt32) (alloc : Alloc) :
    (s.register id size pid alloc).world = (serve s.world (.create id size pid alloc)).1 := by
  rw [Net.register]
  by_cases h : (serve s.world (.create id size pid alloc)).2 = .refused
  · rw [if_pos h]
  · rw [if_neg h]

theorem Net.clients_world (s : Net ι) (w : World) :
    ({ s with world := w } : Net ι).clients = w.server.clientList := rfl

section Steps

variable [DecidableEq ι] {s s' : Net ι} {i j : ι} {dest : PeerId} {dev : PcSClient} {err : UInt32}

/-- Entering a call changes nothing in the registry, and nothing for others. -/
theorem Net.enter_frame (hs : s.enter j dest dev err = some s') :
    s'.world = s.world ∧ (i ≠ j → SameFor i s s') := by
  obtain ⟨s₁, hmove, rfl⟩ := Option.map_eq_some_iff.mp hs
  obtain ⟨ch, hstep, rfl⟩ := Net.move_eq hmove
  obtain ⟨-, hsender, -⟩ := Channel.step_enter hstep
  refine ⟨rfl, fun hij => ?_⟩
  have hsame := SameFor.of_chan i s dev.clientCmd.semid ch
    (by rw [hsender, Function.update_of_ne hij])
  exact ⟨Function.update_of_ne hij _ _, rfl, rfl, hsame.stage⟩

/-- **A step changes nothing for the senders it does not belong to.** -/
theorem SameFor.step {a : NetAction ι} (hfresh : NetFresh s a) (ha : a.sender ≠ some i)
    (hs : s.step a = some s') : SameFor i s s' := by
  cases a with
  | register id size pid alloc =>
      obtain rfl := Option.some.inj hs
      simp only [Net.register]
      split
      · exact ⟨rfl, rfl, rfl, fun _ _ => rfl⟩
      · refine ⟨rfl, rfl, rfl, fun c hc => ?_⟩
        simp only [Function.update_of_ne (hfresh.2 c hc).1]
  | unregister id =>
      obtain rfl := Option.some.inj hs
      exact ⟨rfl, rfl, rfl, fun _ _ => rfl⟩
  | send j dest err =>
      have hij : i ≠ j := fun he => ha (congrArg some he.symm)
      obtain ⟨-, ⟨dev, -, henter⟩ | ⟨-, rfl⟩⟩ := Net.send_cases hs
      · exact (Net.enter_frame henter).2 hij
      · exact ⟨Function.update_of_ne hij _ _, rfl, rfl, fun _ _ => rfl⟩
  | resolve j lookup new =>
      have hij : i ≠ j := fun he => ha (congrArg some he.symm)
      obtain ⟨dest, err, w, data, -, -, -, rfl | ⟨dev, -, henter⟩⟩ := Net.resolve_cases hs
      · exact ⟨Function.update_of_ne hij _ _, Function.update_of_ne hij _ _,
          Function.update_of_ne hij _ _, fun _ _ => rfl⟩
      · have hsame := (Net.enter_frame henter).2 hij
        exact ⟨hsame.call, hsame.devList.trans (Function.update_of_ne hij _ _), hsame.ret,
          hsame.stage⟩
  | goOn j =>
      have hij : i ≠ j := fun he => ha (congrArg some he.symm)
      obtain ⟨dest, dev, err, -, ⟨-, -, rfl⟩ | ⟨-, m, ch, hm, hstep, rfl⟩⟩ := Net.goOn_cases hs
      · have hsame := SameFor.of_chan i s dev.clientCmd.semid
          ((s.chan dev.clientCmd.semid).goto j .idle) (Function.update_of_ne hij _ _)
        exact ⟨Function.update_of_ne hij _ _, Function.update_of_ne hij _ _,
          Function.update_of_ne hij _ _, hsame.stage⟩
      · have hsame := SameFor.of_chan i s dev.clientCmd.semid ch
          (by rw [(Channel.step_sender hm hstep).1, Function.update_of_ne hij])
        cases (s.chan dev.clientCmd.semid).sender j with
        | vSend =>
            exact ⟨Function.update_of_ne hij _ _, hsame.devList, Function.update_of_ne hij _ _,
              hsame.stage⟩
        | request | idle | pSend | vSRead | pCRead | response =>
            exact ⟨hsame.call, hsame.devList, hsame.ret, hsame.stage⟩
  | receive semid =>
      obtain ⟨-, ch, hstep, rfl⟩ := Net.receive_cases hs
      exact .of_chan i s semid ch (by rw [(Channel.step_receiver hstep).1])

/-! ## Channels that are gone -/

/-- Clients are added by a registration only. -/
theorem Net.step_clients (h : NetInv s) {a : NetAction ι} (hs : s.step a = some s')
    {c : PcSClient} (hc : c ∈ s'.clients) :
    c ∈ s.clients ∨ ∃ id size pid alloc, a = .register id size pid alloc ∧
      c.clientCmd.semid = alloc.semid := by
  cases a with
  | register id size pid alloc =>
      simp only [Net.step, Option.some.injEq] at hs
      rw [← hs, Net.clients, Net.register_world] at hc
      cases hfind : lookupKey PcSClient.key s.clients id.bytes with
      | some d =>
          rw [(serve_create_of_registered h.registry hfind size pid alloc).1] at hc
          exact .inl hc
      | none =>
          rw [(serve_create_of_new h.registry hfind size pid alloc).1] at hc
          rcases List.mem_append.mp hc with hc | hc
          · exact .inl hc
          · obtain rfl : c = newClient id size pid alloc := by simpa using hc
            exact .inr ⟨id, size, pid, alloc, rfl, rfl⟩
  | unregister id =>
      simp only [Net.step, Option.some.injEq] at hs
      rw [← hs, Net.clients_world, serve_close_list h.registry id] at hc
      exact .inl (List.mem_filter.mp hc).1
  | send j dest err =>
      left
      obtain ⟨-, ⟨dev, -, henter⟩ | ⟨-, rfl⟩⟩ := Net.send_cases hs
      · rwa [Net.clients, (Net.enter_frame (i := j) henter).1] at hc
      · exact hc
  | resolve j lookup new =>
      left
      obtain ⟨dest, err, w, data, -, hw, -, hend⟩ := Net.resolve_cases hs
      have hlist : w.server.clientList = s.clients := by
        rw [hw]
        exact clients_lookup h.registry dest lookup.taken
      have hworld : s'.world = w := by
        rcases hend with rfl | ⟨dev, -, henter⟩
        · rfl
        · exact (Net.enter_frame (i := j) henter).1
      rwa [Net.clients, hworld, hlist] at hc
  | goOn j =>
      left
      obtain ⟨dest, dev, err, -, ⟨-, -, rfl⟩ | ⟨-, m, ch, -, -, rfl⟩⟩ := Net.goOn_cases hs
      · exact hc
      · cases hst : (s.chan dev.clientCmd.semid).sender j <;> rw [hst] at hc <;> exact hc
  | receive semid =>
      left
      obtain ⟨-, ch, -, rfl⟩ := Net.receive_cases hs
      exact hc

/-- **A channel that is gone stays gone.** -/
theorem NetInv.dead_step (h : NetInv s) {a : NetAction ι} (hfresh : NetFresh s a)
    (hs : s.step a = some s') {c : PcSClient} (hc : c ∈ s.made)
    (hdead : ¬ s.Alive c.clientCmd.semid) : ¬ s'.Alive c.clientCmd.semid := by
  rintro ⟨d, hd, hid⟩
  rcases Net.step_clients h hs hd with hd | ⟨id, size, pid, alloc, rfl, hnew⟩
  · exact hdead ⟨d, hd, hid⟩
  · exact (hfresh.2 c hc).1 (hid.symm.trans hnew)

/-- On a channel that is gone a sender can always go on: it gives up, or comes to its next
`semop`. -/
theorem NetInv.goOn_dead (h : NetInv s) (hcall : s.call i = .sending dest dev err)
    (hdead : ¬ s.Alive dev.clientCmd.semid) :
    ∃ s', s.goOn i = some s' ∧ (GaveUp s' i dest ∨
      ((s.chan dev.clientCmd.semid).sender i).semop = false ∧
        s'.call i = .sending dest dev err ∧
        ((s'.chan dev.clientCmd.semid).sender i).semop = true) := by
  obtain ⟨hmem, hkey⟩ := h.sending i dest dev err hcall
  have hforgotten : knownDev dest.toClientId (removeClient (s.devList i) dev) = none := by
    rw [knownDev_eq ((h.devices i).removeClient dev), removeClient,
      eraseP_eq_filter (h.devices i).addrs (h.devices i).keys hmem, lookupKey_filter, hkey,
      Function.update_self]
  have hbusy : (s.chan dev.clientCmd.semid).sender i ≠ .idle :=
    (h.stage _ i).mpr ⟨dest, dev, err, hcall, rfl⟩
  cases hst : (s.chan dev.clientCmd.semid).sender i with
  | idle => exact absurd hst hbusy
  | pSend | vSRead | pCRead | vSend =>
      refine ⟨_, by simp [Net.goOn, hcall, hst, hdead, Stage.semop, Net.move, Channel.step]; rfl,
        .inl ⟨?_, ?_, ?_⟩⟩
      · simp [Net.finish]
      · simp [Net.finish]
      · simpa [Net.finish] using hforgotten
  | request | response =>
      refine ⟨_, by
        simp [Net.goOn, hcall, hst, Stage.semop, Net.move, Channel.step, Stage.move]; rfl,
        .inr ⟨rfl, ?_, ?_⟩⟩
      · simp [Net.effect, hcall]
      · simp [Net.effect, Channel.goto, Stage.semop]

/-- The send of `i` over the channel of `dev`, which is gone, has not come to its end yet: it
has taken at most one step of its own since then, and the next one is its last. -/
structure Doomed (s : Net ι) (i : ι) (dest : PeerId) (dev : PcSClient) (err : UInt32)
    (steps : ℕ) : Prop where
  call : s.call i = .sending dest dev err
  dead : ¬ s.Alive dev.clientCmd.semid
  steps_le : steps ≤ 1
  semop : steps = 1 → ((s.chan dev.clientCmd.semid).sender i).semop = true

/-- What a send over a channel that is gone comes to: it goes on being doomed, or has given
up. -/
def DoomedOrGaveUp (i : ι) (dest : PeerId) (dev : PcSClient) (err : UInt32)
    (as : List (NetAction ι)) (s : Net ι) : Prop :=
  Doomed s i dest dev err (as.countP (NetAction.isGoOn i)) ∨ GaveUp s i dest

/-- A step of a sender that is in a call, or has given up, and does not begin a send. -/
theorem NetAction.of_sender {a : NetAction ι} (h : a.sender = some i) (ha : a.isSend i = false) :
    a = .goOn i ∨ ∃ lookup new, a = .resolve i lookup new := by
  cases a with
  | register | unregister | receive => simp [NetAction.sender] at h
  | send j dest' err' =>
      obtain rfl : j = i := by simpa [NetAction.sender] using h
      simp [NetAction.isSend] at ha
  | resolve j lookup new =>
      obtain rfl : j = i := by simpa [NetAction.sender] using h
      exact .inr ⟨lookup, new, rfl⟩
  | goOn j =>
      obtain rfl : j = i := by simpa [NetAction.sender] using h
      exact .inl rfl

/-- The channel of a doomed send stays gone. -/
theorem Doomed.dead_step {n : ℕ} (hd : Doomed s i dest dev err n) (h : NetInv s)
    {a : NetAction ι} (hfresh : NetFresh s a) (hs : s.step a = some s') :
    ¬ s'.Alive dev.clientCmd.semid := by
  obtain ⟨c, hc, hstands⟩ := h.known i dev (h.sending i dest dev err hd.call).1
  rw [hstands.semid]
  exact h.dead_step hfresh hs hc (hstands.semid ▸ hd.dead)

/-- Its own next step. -/
theorem Doomed.goOn {n : ℕ} (hd : Doomed s i dest dev err n) (h : NetInv s)
    (hfresh : NetFresh s (.goOn i)) (hs : s.step (.goOn i) = some s') :
    Doomed s' i dest dev err (n + 1) ∨ GaveUp s' i dest := by
  have hdead' := hd.dead_step h hfresh hs
  obtain ⟨s'', hs'', hend⟩ := h.goOn_dead hd.call hd.dead
  obtain rfl : s' = s'' := Option.some.inj (hs.symm.trans hs'')
  rcases hend with hgave | ⟨hsemop, hcall, hnext⟩
  · exact .inr hgave
  · have hzero : n = 0 := by
      have hle := hd.steps_le
      have hne : n ≠ 1 := fun h1 => by
        rw [hd.semop h1] at hsemop
        cases hsemop
      omega
    exact .inl ⟨hcall, hdead', by omega, fun _ => hnext⟩

/-- A step of somebody else. -/
theorem Doomed.of_sameFor {n : ℕ} (hd : Doomed s i dest dev err n) (h : NetInv s)
    {a : NetAction ι} (hfresh : NetFresh s a) (hs : s.step a = some s')
    (hsame : SameFor i s s') : Doomed s' i dest dev err n := by
  refine ⟨hsame.call.trans hd.call, hd.dead_step h hfresh hs, hd.steps_le, fun h1 => ?_⟩
  obtain ⟨c, hc, hstands⟩ := h.known i dev (h.sending i dest dev err hd.call).1
  have hstage := hsame.stage c hc
  rw [← hstands.semid] at hstage
  rw [hstage]
  exact hd.semop h1

/-- **Every step keeps a send over a channel that is gone doomed, or ends it.** -/
theorem NetInv.doomed_step (h : NetInv s) {as : List (NetAction ι)} {a : NetAction ι}
    (hd : DoomedOrGaveUp i dest dev err as s) (hfresh : NetFresh s a)
    (ha : a.isSend i = false) (hs : s.step a = some s') :
    DoomedOrGaveUp i dest dev err (as ++ [a]) s' := by
  by_cases hown : a.sender = some i
  · rcases NetAction.of_sender hown ha with rfl | ⟨lookup, new, rfl⟩
    · have hcount : (as ++ [NetAction.goOn i]).countP (NetAction.isGoOn i) =
          as.countP (NetAction.isGoOn i) + 1 := by
        simp [List.countP_append, NetAction.isGoOn]
      rw [DoomedOrGaveUp, hcount]
      rcases hd with hd | hd
      · exact hd.goOn h hfresh hs
      · simp [Net.step, Net.goOn, hd.call] at hs
    · -- it does not wait for an answer of the server
      rcases hd with hd | hd <;> simp [Net.step, Net.resolve, hd.call] at hs
  · have hno : a.isGoOn i = false := by
      cases a <;> simp [NetAction.isGoOn]
      rintro rfl
      exact hown rfl
    have hcount : (as ++ [a]).countP (NetAction.isGoOn i) = as.countP (NetAction.isGoOn i) := by
      simp [List.countP_append, hno]
    have hsame := SameFor.step hfresh hown hs
    rw [DoomedOrGaveUp, hcount]
    exact hd.imp (fun hd => hd.of_sameFor h hfresh hs hsame) fun hd => hd.of_sameFor hsame

/-- **A send over a channel that is gone can only give up**, whatever else happens. -/
theorem NetInv.doomed_run (h : NetInv s) (hcall : s.call i = .sending dest dev err)
    (hdead : ¬ s.Alive dev.clientCmd.semid) {as : List (NetAction ι)} {t : Net ι}
    (hruns : Runs Net.step NetFresh s as t) (has : ∀ a ∈ as, a.isSend i = false) :
    NetInv t ∧ DoomedOrGaveUp i dest dev err as t := by
  induction hruns with
  | refl => exact ⟨h, .inl ⟨hcall, hdead, by simp, by simp⟩⟩
  | snoc _ hfresh hs ih =>
      obtain ⟨ht, hd⟩ := ih fun a ha => has a (by simp [ha])
      exact ⟨ht.step hfresh hs, ht.doomed_step hd hfresh (has _ (by simp)) hs⟩

/-! ## Messages -/

/-- **What a receiver takes was sent to the id that its channel is registered for.** -/
theorem NetInv.receive_dest (h : NetInv s) {semid : UInt32} (hs : s.receive semid = some s')
    (hrecv : (s.chan semid).receiver = .pSRead) :
    ∃ c ∈ s.clients, c.clientCmd.semid = semid ∧ ∃ dest,
      s.buf c.clientCmd.shmid = some dest ∧ toMap s.clients dest.bytes = some c.clientCmd := by
  obtain ⟨⟨c, hc, rfl⟩, ch, hstep, -⟩ := Net.receive_cases hs
  have hpos : 0 < (s.chan c.clientCmd.semid).sRead := by
    rw [hrecv] at hstep
    simp only [RecvStage.move, Channel.step, Option.ite_none_right_eq_some] at hstep
    exact hstep.1.2
  refine ⟨c, hc, rfl, ?_⟩
  rcases h.accounted _ ⟨c, hc, rfl⟩ with hfree | ⟨i, p, hat⟩
  · have hzero := (Prod.mk.inj hfree.reads).2
    omega
  · obtain rfl : p = .waiting := by
      have hreads := hat.reads
      cases p <;> simp [Pos.reads] at hreads ⊢ <;> omega
    obtain ⟨dest, dev, err, hcall, hbuf⟩ := h.message c hc i .waiting hat (.inr rfl)
    refine ⟨dest, hbuf, ?_⟩
    obtain ⟨hmem, hkey⟩ := h.sending i dest dev err hcall
    have hne : (s.chan c.clientCmd.semid).sender i ≠ .idle := by
      rw [hat.stage]
      simp [Pos.stage]
    have hstands := h.standsFor hmem hc (h.semid_of_stage hcall hne).symm
    rw [toMap, ← hkey, hstands.key, lookupKey_of_mem h.registry.keys hc, Option.map_some]

/-- A send to a peer that is not in the list asks the server. -/
theorem Net.send_of_forgotten (hcall : s.call i = .idle)
    (hnew : knownDev dest.toClientId (s.devList i) = none) (err : UInt32) :
    ∃ s', s.step (.send i dest err) = some s' ∧ s'.call i = .resolving dest err := by
  refine ⟨{ s with call := Function.update s.call i (.resolving dest err) }, ?_, by simp⟩
  simp only [Net.step, Net.send, hcall, hnew]

/-- **Coherence of the cache.** In every state that registrations, unregistrations, sends
and receive loops reach, in any order: the ids in every `dev_list` are unique; a send over
a channel that is gone can always go on, fails after at most two steps of its own with
whatever happens in between, and then the destination is not in the list, so that the next
send to it asks the server; and a message that a receiver takes comes from the channel that
the server has for its destination. -/
theorem peer_cache_coherent {isBroadcaseCb : Option (List UInt8 → UInt32 → Bool)}
    {isBcMatchCb : Option (List UInt8 → List UInt8 → UInt32 → Bool)} {buf : Mem}
    {as : List (NetAction ι)} {s : Net ι}
    (h : Runs Net.step NetFresh (Net.init (World.init isBroadcaseCb isBcMatchCb buf)) as s) :
    (∀ i, ((s.devList i).map PcSClient.key).Nodup) ∧
    (∀ i dest dev err, s.call i = .sending dest dev err → ¬ s.Alive dev.clientCmd.semid →
      ∀ bs t, Runs Net.step NetFresh s bs t → (∀ a ∈ bs, a.isSend i = false) →
        (t.call i = .sending dest dev err ∧ bs.countP (NetAction.isGoOn i) ≤ 1 ∧
            ∃ t', t.step (.goOn i) = some t') ∨
          (GaveUp t i dest ∧ ∀ err', ∃ t', t.step (.send i dest err') = some t' ∧
            t'.call i = .resolving dest err')) ∧
    (∀ semid s', s.step (.receive semid) = some s' → (s.chan semid).receiver = .pSRead →
      ∃ c ∈ s.clients, c.clientCmd.semid = semid ∧ ∃ dest,
        s.buf c.clientCmd.shmid = some dest ∧
          toMap s.clients dest.bytes = some c.clientCmd) := by
  have hinv : NetInv s := h.invariant (P := NetInv) (netInv_init _ _ _)
    fun u a v hu hfresh hs => hu.step hfresh hs
  refine ⟨fun i => (hinv.devices i).keys, ?_, fun semid s' hs => hinv.receive_dest hs⟩
  intro i dest dev err hcall hdead bs t hruns hbs
  obtain ⟨ht, hd | hd⟩ := hinv.doomed_run hcall hdead hruns hbs
  · obtain ⟨t', ht', -⟩ := ht.goOn_dead hd.call hd.dead
    exact .inl ⟨hd.call, hd.steps_le, t', ht'⟩
  · exact .inr ⟨hd, Net.send_of_forgotten hd.call hd.forgotten⟩

end Steps

instance (w : World) : (r : Request) → Decidable (AddrFresh w r)
  | .create _ _ _ alloc =>
      inferInstanceAs (Decidable (∀ c ∈ w.server.clientList, c.addr ≠ alloc.addr))
  | .close _ | .getClient _ => inferInstanceAs (Decidable True)

instance (s : Net ι) : (a : NetAction ι) → Decidable (NetFresh s a)
  | .register id size pid alloc =>
      inferInstanceAs (Decidable (AddrFresh s.world (.create id size pid alloc) ∧
        ∀ c ∈ s.made, c.clientCmd.semid ≠ alloc.semid ∧ c.clientCmd.shmid ≠ alloc.shmid))
  | .resolve i _ dev => inferInstanceAs (Decidable (∀ x ∈ dev, ∀ d ∈ s.devList i, d.addr ≠ x.1))
  | .unregister _ | .send .. | .goOn _ | .receive _ => inferInstanceAs (Decidable True)

/-- A peer registers, is asked for, and unregisters before the message is sent. -/
def peerLeaves : List (NetAction Unit) :=
  [.register firstId 1800 7 firstAlloc, .send () firstId 0,
    .resolve () .completed (some (9, firstAlloc.residue, 0)), .unregister firstId]

/-- The sender is in a send to a destination, over a channel that is gone. -/
def Net.sendsInVain (s : Net Unit) (id : List UInt8) : Bool :=
  match s.call () with
  | .sending dest dev _ => dest.bytes = id ∧ ¬ s.Alive dev.clientCmd.semid
  | .idle | .resolving .. => false

theorem peer_cache_coherent_peer_leaves :
    ∃ (s t : Net Unit) (dest : PeerId), dest.bytes = firstId.bytes ∧
      Runs Net.step NetFresh (Net.init (World.init none none fun _ => 0)) peerLeaves s ∧
        Runs Net.step NetFresh s [.goOn ()] t ∧ GaveUp t () dest := by
  have hrun : ((peerLeaves.foldlM (fun u a => if NetFresh u a then u.step a else none)
      (Net.init (World.init none none fun _ => 0))).any fun s => s.sendsInVain firstId.bytes &&
        (s.step (.goOn ())).any fun t => t.call () matches .idle) = true := by decide
  obtain ⟨s, hs, hvain⟩ := (Option.any_eq_true _ _).mp hrun
  rw [Bool.and_eq_true] at hvain
  obtain ⟨t, ht, hidle⟩ := (Option.any_eq_true _ _).mp hvain.2
  have hruns := Runs.of_guarded hs
  have hlast : Runs Net.step NetFresh s [.goOn ()] t := .snoc .refl trivial ht
  cases hcall : s.call () with
  | idle => simp [Net.sendsInVain, hcall] at hvain
  | resolving dest err => simp [Net.sendsInVain, hcall] at hvain
  | sending dest dev err =>
      obtain ⟨hdest, hdead⟩ : dest.bytes = firstId.bytes ∧ ¬ s.Alive dev.clientCmd.semid := by
        simpa [Net.sendsInVain, hcall] using hvain.1
      refine ⟨s, t, dest, hdest, hruns, hlast, ?_⟩
      rcases (peer_cache_coherent hruns).2.1 () dest dev err hcall hdead [.goOn ()] t hlast
        (by simp [NetAction.isSend]) with ⟨hsend, -⟩ | ⟨hgave, -⟩
      · simp [hsend] at hidle
      · exact hgave

end CCode.MemShare
