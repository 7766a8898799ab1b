import CCode.Lib.Transition
import CCode.Rb.Query

/-!
# Runs of a tree

A program creates a tree, inserts and deletes. It keeps the addresses that `RBTreeInsert` has
returned to it, and may delete each of them once. Memory for a new node comes from
`rb_malloc`: it may fail, and it does not give out what is in use; the address of a node that
was deleted may come back.

In every state that is reached so the nodes are those of a red-black tree, and the tree holds
exactly the nodes that the program has, each with its own key and info.

## Main definitions

* `St`, `Op`, `exec` — the program's view, and a call.
* `Refines` — the tree holds what the program has.

## Main results

* `exec_mono` — the bound on the rounds of a loop does not matter once it is large enough.
* `exec_refines` — a call keeps the relation.
-/

namespace CCode.Rb

open CCode.Lib BinTree RbTree

variable {K I : Type} {compare : K → K → Int}

/-! ## More rounds -/

section More

variable {t t' : RbTree K I} {fuel fuel' : ℕ}

theorem treeInsertHelp_mono {z : ℕ} (h : treeInsertHelp compare fuel t z = some t')
    (hle : fuel ≤ fuel') : treeInsertHelp compare fuel' t z = some t' := by
  simp only [treeInsertHelp, Option.bind_eq_bind, Option.bind_eq_some_iff] at h ⊢
  obtain ⟨s, hs, hrest⟩ := h
  exact ⟨s, whileFuel_mono hs hle, hrest⟩

theorem rbTreeInsert_mono {key : K} {info : I} {alloc : Option ℕ} {r : RbTree K I × Option ℕ}
    (h : rbTreeInsert compare fuel t key info alloc = some r) (hle : fuel ≤ fuel') :
    rbTreeInsert compare fuel' t key info alloc = some r := by
  cases alloc with
  | none => exact h
  | some x =>
      simp only [rbTreeInsert, Option.bind_eq_bind, Option.bind_eq_some_iff] at h ⊢
      obtain ⟨t₁, ht₁, s, hs, hrest⟩ := h
      exact ⟨t₁, treeInsertHelp_mono ht₁ hle, s, whileFuel_mono hs hle, hrest⟩

theorem treeSuccessor_mono {x y : ℕ} (h : treeSuccessor fuel t x = some y) (hle : fuel ≤ fuel') :
    treeSuccessor fuel' t x = some y := by
  rw [treeSuccessor] at h ⊢
  split_ifs at h ⊢
  · exact whileFuel_mono h hle
  · simp only [Option.bind_eq_bind, Option.bind_eq_some_iff] at h ⊢
    obtain ⟨s, hs, hrest⟩ := h
    exact ⟨s, whileFuel_mono hs hle, hrest⟩

theorem rbDeleteFixUp_mono {x : ℕ} (h : rbDeleteFixUp fuel t x = some t') (hle : fuel ≤ fuel') :
    rbDeleteFixUp fuel' t x = some t' := by
  simp only [rbDeleteFixUp, Option.bind_eq_bind, Option.bind_eq_some_iff] at h ⊢
  obtain ⟨s, hs, hrest⟩ := h
  exact ⟨s, whileFuel_mono hs hle, hrest⟩

theorem rbExactQuery_mono {key : K} {r : Option ℕ}
    (h : rbExactQuery compare fuel t key = some r) (hle : fuel ≤ fuel') :
    rbExactQuery compare fuel' t key = some r := by
  simp only [rbExactQuery, Option.bind_eq_bind, Option.bind_eq_some_iff] at h ⊢
  obtain ⟨x, hx, hrest⟩ := h
  exact ⟨x, whileFuel_mono hx hle, hrest⟩

theorem rbDelete_mono {z : ℕ} (h : rbDelete fuel t z = some t') (hle : fuel ≤ fuel') :
    rbDelete fuel' t z = some t' := by
  obtain ⟨y, x, t₁, hy, hx, hfix, hend⟩ := rbDelete_eq_some_iff.mp h
  refine rbDelete_eq_some_iff.mpr ⟨y, x, t₁, ?_, hx, ?_, hend⟩
  · split_ifs at hy ⊢
    · exact hy
    · exact treeSuccessor_mono hy hle
  · split_ifs at hfix ⊢
    · exact rbDeleteFixUp_mono hfix hle
    · exact hfix

end More

/-! ## The program -/

/-- A tree, and the nodes that a program has: those that were returned to it and that it has not
deleted, with the key and the info that it has passed. -/
structure St (K I : Type) where
  tree : RbTree K I
  live : List (ℕ × K × I)

/-- A call, with what `rb_malloc` returns in it. -/
inductive Op (K I : Type)
  | insert (key : K) (info : I) (alloc : Option ℕ)
  | delete (z : ℕ)

/-- The call, and what the program learns from it. -/
def exec (compare : K → K → Int) (fuel : ℕ) (s : St K I) : Op K I → Option (St K I)
  | .insert key info alloc =>
      (rbTreeInsert compare fuel s.tree key info alloc).map fun r =>
        ⟨r.1, match r.2 with
          | none => s.live
          | some x => (x, key, info) :: s.live⟩
  | .delete z =>
      (rbDelete fuel s.tree z).map fun t => ⟨t, s.live.filter fun e => e.1 ≠ z⟩

/-- No loop has more rounds than there are nodes. -/
def step (compare : K → K → Int) (s : St K I) (op : Op K I) : Option (St K I) :=
  exec compare s.live.length s op

/-- `rb_malloc` does not give out what is in use, and only a live node is deleted. -/
def Allowed (s : St K I) : Op K I → Prop
  | .insert _ _ none => True
  | .insert _ _ (some x) => x ≠ s.tree.nil ∧ x ≠ s.tree.root ∧ ∀ e ∈ s.live, e.1 ≠ x
  | .delete z => ∃ e ∈ s.live, e.1 = z

instance (s : St K I) (op : Op K I) : Decidable (Allowed s op) :=
  match op with
  | .insert _ _ none => inferInstanceAs (Decidable True)
  | .insert _ _ (some x) =>
      inferInstanceAs (Decidable (x ≠ s.tree.nil ∧ x ≠ s.tree.root ∧ ∀ e ∈ s.live, e.1 ≠ x))
  | .delete z => inferInstanceAs (Decidable (∃ e ∈ s.live, e.1 = z))

/-- What a call does to the nodes that the program has. Where no memory was there, nothing at all
is changed. -/
def Effect (s s' : St K I) : Op K I → Prop
  | .insert _ _ none => s' = s
  | .insert key info (some x) => s'.live = (x, key, info) :: s.live
  | .delete z => s'.live = s.live.filter fun e => e.1 ≠ z

/-- A larger bound gives the same result. -/
theorem exec_mono {s s' : St K I} {op : Op K I} {fuel fuel' : ℕ}
    (h : exec compare fuel s op = some s') (hle : fuel ≤ fuel') :
    exec compare fuel' s op = some s' := by
  cases op with
  | insert key info alloc =>
      simp only [exec, Option.map_eq_some_iff] at h ⊢
      obtain ⟨r, hr, hs⟩ := h
      exact ⟨r, rbTreeInsert_mono hr hle, hs⟩
  | delete z =>
      simp only [exec, Option.map_eq_some_iff] at h ⊢
      obtain ⟨t, ht, hs⟩ := h
      exact ⟨t, rbDelete_mono ht hle, hs⟩

/-! ## Refinement -/

/-- The nodes at the addresses, with what is stored there. -/
def contents (t : RbTree K I) (L : List ℕ) : List (ℕ × K × I) :=
  L.map fun p => (p, t.key p, t.info p)

/-- **The tree holds what the program has**, as a red-black tree. -/
def Refines (compare : K → K → Int) (s : St K I) (T : BinTree ℕ) : Prop :=
  RbInv compare s.tree T ∧ (contents s.tree T.toList).Perm s.live

section Refines

variable {s s' : St K I} {T : BinTree ℕ}

theorem Refines.length_eq (h : Refines compare s T) : T.toList.length = s.live.length := by
  rw [← h.2.length_eq, contents, List.length_map]

theorem Refines.mem_iff (h : Refines compare s T) {p : ℕ} :
    p ∈ T.toList ↔ ∃ e ∈ s.live, e.1 = p := by
  simp [← h.2.mem_iff, contents]

/-- The entry of a node is what is stored there. -/
theorem Refines.mem_live (h : Refines compare s T) {e : ℕ × K × I} (he : e ∈ s.live) :
    e.1 ∈ T.toList ∧ e = (e.1, s.tree.key e.1, s.tree.info e.1) := by
  have hmem := h.2.mem_iff.mpr he
  simp only [contents, List.mem_map] at hmem
  obtain ⟨p, hp, rfl⟩ := hmem
  exact ⟨hp, rfl⟩

theorem contents_congr {t t' : RbTree K I} {L : List ℕ}
    (h : ∀ p ∈ L, t'.key p = t.key p ∧ t'.info p = t.info p) : contents t' L = contents t L := by
  refine List.map_congr_left fun p hp => ?_
  rw [(h p hp).1, (h p hp).2]

/-- A new tree is empty. -/
theorem refines_create (mem : RbTree K I) {nil root : ℕ} (hne : nil ≠ root) :
    Refines compare ⟨rbTreeCreate mem nil root, []⟩ .leaf := by
  refine ⟨⟨?_, ⟨0, rfl⟩, rfl, .nil⟩, .refl _⟩
  constructor
  · exact List.nodup_nil
  · exact List.not_mem_nil
  · exact List.not_mem_nil
  · exact hne.symm
  · simp [rbTreeCreate]
  · simp [rbTreeCreate]
  · exact trivial
  · show (rbTreeCreate mem nil root).child .left root = nil
    simp [rbTreeCreate]

/-- A node is added. -/
theorem exec_insert_refines (hc : IsCompare compare) (h : Refines compare s T) (key : K) (info : I)
    {x : ℕ} (hok : Allowed s (.insert key info (some x))) :
    ∃ s' T', step compare s (.insert key info (some x)) = some s' ∧ Refines compare s' T' ∧
      s'.live = (x, key, info) :: s.live := by
  obtain ⟨hnil, hroot, hnew⟩ := hok
  have hx : x ∉ T.toList := by
    rw [h.mem_iff]
    rintro ⟨e, he, heq⟩
    exact hnew e he heq
  obtain ⟨t', T', pre, post, hrun, hinv, hT, hT', hkey, hinfo, -⟩ :=
    rbTreeInsert_spec hc h.1 key info hx hroot hnil h.length_eq.le
  refine ⟨⟨t', (x, key, info) :: s.live⟩, T', ?_, ⟨hinv, ?_⟩, rfl⟩
  · simp only [step, exec, hrun, Option.map_some]
  · have hold : contents t' (pre ++ post) = contents s.tree T.toList := by
      rw [hT]
      refine contents_congr fun p hp => ?_
      have hne : p ≠ x := fun heq => hx (by rw [hT, ← heq]; exact hp)
      rw [hkey, hinfo, Function.update_of_ne hne, Function.update_of_ne hne]
      exact ⟨rfl, rfl⟩
    have hnew : (x, t'.key x, t'.info x) = (x, key, info) := by
      rw [hkey, hinfo, Function.update_self, Function.update_self]
    have hmoved : (contents t' (pre ++ x :: post)).Perm
        ((x, t'.key x, t'.info x) :: contents t' (pre ++ post)) :=
      List.perm_middle.map fun p => (p, t'.key p, t'.info p)
    rw [hold, hnew] at hmoved
    dsimp only
    rw [hT']
    exact hmoved.trans (h.2.cons _)

/-- A node is removed. -/
theorem exec_delete_refines (h : Refines compare s T) {z : ℕ} (hok : Allowed s (.delete z)) :
    ∃ s' T', step compare s (.delete z) = some s' ∧ Refines compare s' T' ∧
      s'.live = s.live.filter fun e => e.1 ≠ z := by
  obtain ⟨t', T', A, B, hrun, hinv, hT, hT', hpay⟩ :=
    rbDelete_spec h.1 (h.mem_iff.mpr hok) h.length_eq.le
  refine ⟨⟨t', s.live.filter fun e => e.1 ≠ z⟩, T', ?_, ⟨hinv, ?_⟩, rfl⟩
  · simp only [step, exec, hrun, Option.map_some]
  · have hsame : contents t' (A ++ B) = contents s.tree (A ++ B) :=
      contents_congr fun p _ => by rw [hpay.key, hpay.info]; exact ⟨rfl, rfl⟩
    have hnodup : (A ++ z :: B).Nodup := by
      rw [← hT]
      simpa [TreeCtx.entries] using h.1.rep.nodup
    -- the address occurs once
    have hfilter : (contents s.tree T.toList).filter (fun e => e.1 ≠ z)
        = contents s.tree (A ++ B) := by
      simp only [contents, List.filter_map, hT]
      congr 1
      simp only [List.nodup_append, List.nodup_cons, List.mem_cons, ne_eq] at hnodup
      rw [List.filter_append, List.filter_cons_of_neg (by simp), List.filter_eq_self.mpr,
        List.filter_eq_self.mpr]
      · intro p hp
        simp only [Function.comp_apply, decide_eq_true_eq]
        grind
      · intro p hp
        simp only [Function.comp_apply, decide_eq_true_eq]
        grind
    dsimp only
    rw [hT', hsame, ← hfilter]
    exact h.2.filter _

/-- **A call** returns, keeps the relation, and has its effect. -/
theorem step_refines (hc : IsCompare compare) (h : Refines compare s T) {op : Op K I}
    (hok : Allowed s op) :
    ∃ s' T', step compare s op = some s' ∧ Refines compare s' T' ∧ Effect s s' op := by
  cases op with
  | delete z => exact exec_delete_refines h hok
  | insert key info alloc =>
      cases alloc with
      | none => exact ⟨s, T, rfl, h, rfl⟩
      | some x => exact exec_insert_refines hc h key info hok

/-- **A run** keeps the relation. -/
theorem Refines.of_runs (hc : IsCompare compare) {s₀ : St K I} {T₀ : BinTree ℕ}
    (h₀ : Refines compare s₀ T₀) {ops : List (Op K I)}
    (h : Runs (step compare) Allowed s₀ ops s) : ∃ T, Refines compare s T := by
  refine h.invariant (P := fun s => ∃ T, Refines compare s T) ⟨T₀, h₀⟩ ?_
  rintro u op v ⟨T, hT⟩ hok hstep
  obtain ⟨s', T', hs', hrefines, -⟩ := step_refines hc hT hok
  obtain rfl : s' = v := Option.some.inj (hs'.symm.trans hstep)
  exact ⟨T', hrefines⟩

/-- A call does what it does with every bound that is large enough. -/
theorem Refines.returns (hc : IsCompare compare) (h : Refines compare s T) {op : Op K I}
    (hok : Allowed s op) :
    ∃ s', (∀ fuel ≥ s.live.length, exec compare fuel s op = some s') ∧ Effect s s' op := by
  obtain ⟨s', -, hs', -, heffect⟩ := step_refines hc h hok
  exact ⟨s', fun fuel hfuel => exec_mono hs' hfuel, heffect⟩

end Refines

/-! ## The comparison of `main.c` -/

/-- `CompFunc`. -/
def compFunc (a b : Int) : Int :=
  if a > b then 1 else if a < b then -1 else 0

theorem isCompare_compFunc : IsCompare compFunc := by
  refine ⟨?_, ?_, ?_⟩
  · intro a b
    simp only [compFunc]
    split_ifs <;> simp
  · intro a b
    simp only [compFunc]
    split_ifs <;> omega
  · intro a b c hab hbc hac
    simp only [compFunc] at hab hbc hac
    split_ifs at hab hbc hac <;> omega

/-- Equal keys, memory that is not there, and the address of a deleted node that comes back. -/
def someCalls : List (Op Int ℕ) :=
  [.insert 5 0 (some 3), .insert 5 1 (some 4), .insert 7 2 none, .insert 9 3 (some 5), .delete 3,
    .insert 2 4 (some 3)]

/-- A new tree with its sentinels at 1 and 2. -/
def emptyTree : St Int ℕ :=
  ⟨rbTreeCreate ⟨fun _ => 0, fun _ => 0, fun _ => true, fun _ _ => 0, fun _ => 0, 0, 0⟩ 1 2, []⟩

theorem someCalls_returns :
    (someCalls.foldlM (fun s op => if Allowed s op then step compFunc s op else none)
      emptyTree).isSome = true := by
  decide +kernel

/-! ## Every run -/

/-- Children and parents agree on the addresses of a list, and on the root. -/
def LinksAgree (t : RbTree K I) (L : List ℕ) : Prop :=
  (∀ p ∈ L, ∀ d, t.child d p ≠ t.nil → t.child d p ∈ L ∧ t.parent (t.child d p) = p) ∧
    ∀ p ∈ L, t.parent p = t.root ∧ t.child .left t.root = p ∨
      t.parent p ∈ L ∧ ∃ d, t.child d (t.parent p) = p

section Every

variable {mem : RbTree K I} {nil root : ℕ} {ops : List (Op K I)} {s : St K I}

/-- **In every state of every run the nodes are those of a red-black tree** with a black root and a
black `nil`, linked both ways, in the order of the keys; and the next call returns. -/
theorem redBlack_runs (hc : IsCompare compare) (hne : nil ≠ root)
    (h : Runs (step compare) Allowed ⟨rbTreeCreate mem nil root, []⟩ ops s) :
    (∃ T n, Rep s.tree [] T ∧ T.RB n ∧ LinksAgree s.tree T.toList ∧
      SortedKeys compare s.tree.key T.toList ∧ (∀ p, p ∈ T.toList ↔ ∃ e ∈ s.live, e.1 = p) ∧
      ∀ p ∈ T.toList, s.tree.red p = true → ∀ d, s.tree.red (s.tree.child d p) = false) ∧
    s.tree.red (s.tree.child .left s.tree.root) = false ∧ s.tree.red s.tree.nil = false ∧
    ∀ op, Allowed s op → ∃ s', ∀ fuel ≥ s.live.length, exec compare fuel s op = some s' := by
  obtain ⟨T, hT⟩ := Refines.of_runs hc (refines_create mem hne) h
  have hinv := hT.1
  obtain ⟨n, hn⟩ := hinv.rb
  refine ⟨⟨T, n, hinv.rep, hn, ⟨?_, ?_⟩, hinv.sorted, fun p => hT.mem_iff, ?_⟩, ?_,
    hinv.rep.nil_black, ?_⟩
  · intro p hp d hne'
    exact hinv.parent_child hp hne'
  · intro p hp
    exact hinv.child_parent hp
  · intro p hp hred d
    exact hinv.black_children hp hred d
  · have htop : s.tree.child .left s.tree.root = ptr s.tree T := hinv.rep.clinks
    rw [htop, hinv.rep.red_ptr, hinv.black]
  · intro op hok
    obtain ⟨s', hs', -⟩ := hT.returns hc hok
    exact ⟨s', hs'⟩

theorem redBlack_runs_someCalls :
    ∃ s, Runs (step compFunc) Allowed emptyTree someCalls s ∧
      s.tree.red (s.tree.child .left s.tree.root) = false ∧ s.tree.red s.tree.nil = false := by
  obtain ⟨s, hs⟩ := Option.isSome_iff_exists.mp someCalls_returns
  have hrun := Runs.of_guarded hs
  obtain ⟨-, hroot, hnil, -⟩ := redBlack_runs isCompare_compFunc (by decide) hrun
  exact ⟨s, hrun, hroot, hnil⟩

/-- **In every state of every run the tree holds the nodes that the program has**, each with its own
key and info. They are visited in order, a search finds one of them if there is one, and the next
call has its effect. -/
theorem refines_runs (hc : IsCompare compare) (hne : nil ≠ root)
    (h : Runs (step compare) Allowed ⟨rbTreeCreate mem nil root, []⟩ ops s) :
    (∃ L, (contents s.tree L).Perm s.live ∧ L.Nodup ∧ SortedKeys compare s.tree.key L ∧
      ∀ fuel ≥ s.live.length, rbInorderTree fuel s.tree = some L) ∧
    (∀ key, ∃ r, (∀ fuel ≥ s.live.length, rbExactQuery compare fuel s.tree key = some r) ∧
      (∀ x, r = some x → ∃ e ∈ s.live, e.1 = x ∧ compare e.2.1 key = 0) ∧
      (r.isSome = true ↔ ∃ e ∈ s.live, compare e.2.1 key = 0)) ∧
    ∀ op, Allowed s op →
      ∃ s', (∀ fuel ≥ s.live.length, exec compare fuel s op = some s') ∧ Effect s s' op := by
  obtain ⟨T, hT⟩ := Refines.of_runs hc (refines_create mem hne) h
  refine ⟨⟨T.toList, hT.2, ?_, hT.1.sorted, ?_⟩, ?_, fun op hok => hT.returns hc hok⟩
  · simpa [TreeCtx.entries] using hT.1.rep.nodup
  · intro fuel hfuel
    exact rbInorderTree_spec hT.1.rep (hT.length_eq.trans_le hfuel)
  · intro key
    obtain ⟨r, hr, hsome, hnone⟩ := rbExactQuery_spec hc hT.1 key hT.length_eq.le
    have hfound : ∀ x, r = some x → ∃ e ∈ s.live, e.1 = x ∧ compare e.2.1 key = 0 := by
      intro x hx
      obtain ⟨hmem, hcmp⟩ := hsome x hx
      obtain ⟨e, he, rfl⟩ := hT.mem_iff.mp hmem
      refine ⟨e, he, rfl, ?_⟩
      rw [(hT.mem_live he).2]
      exact hcmp
    refine ⟨r, fun fuel hfuel => rbExactQuery_mono hr hfuel, hfound, ?_, ?_⟩
    · intro hr'
      obtain ⟨x, hx⟩ := Option.isSome_iff_exists.mp hr'
      obtain ⟨e, he, -, hcmp⟩ := hfound x hx
      exact ⟨e, he, hcmp⟩
    · rintro ⟨e, he, hcmp⟩
      by_contra hr'
      obtain ⟨hmem, heq⟩ := hT.mem_live he
      rw [heq] at hcmp
      exact hnone (by simpa using hr') e.1 hmem hcmp

theorem refines_runs_someCalls :
    ∃ s, Runs (step compFunc) Allowed emptyTree someCalls s ∧
      ∃ L, (contents s.tree L).Perm s.live ∧ L.Nodup ∧ SortedKeys compFunc s.tree.key L := by
  obtain ⟨s, hs⟩ := Option.isSome_iff_exists.mp someCalls_returns
  have hrun := Runs.of_guarded hs
  obtain ⟨⟨L, hL, hnodup, hsorted, -⟩, -⟩ := refines_runs isCompare_compFunc (by decide) hrun
  exact ⟨s, hrun, L, hL, hnodup, hsorted⟩

end Every

end CCode.Rb
