import CCode.Rb.Runs

/-!
# The life of a tree

`RBTreeCreate` takes three blocks of memory and `RBTreeInsert` one for each node. `RBDelete` and
`RBTreeDestroy` hand the key and the info of a node to the two functions that the program gave for
it, and release the node. Each block is released once, and so are key and info.

A node is read before its own `rb_free`, and no memory is given out while a tree is destroyed; so a
result says also that no node is read when it is gone.

## Main definitions

* `World` — the blocks in use, and what was destroyed.
* `rbTreeCreateIn`, `rbDeleteIn`, `rbTreeDestroy` — the functions, with their memory.
* `Life`, `lifeStep` — a program with a tree.

## Main results

* `treeDestHelper_eq` — the nodes are destroyed children first.
* `LifeInv.step` — a call keeps the account of the blocks, the keys and the infos.
-/

namespace CCode.Rb

open CCode.Lib BinTree RbTree

variable {K I : Type} {compare : K → K → Int}

/-- The blocks in use, and what `DestroyKey` and `DestroyInfo` were called with, the last call
first. -/
structure World (K I : Type) where
  inUse : Finset ℕ
  keys : List K
  infos : List I

namespace World

/-- What `rb_malloc` does when it returns `p`. -/
def alloc (w : World K I) (p : ℕ) : World K I := { w with inUse := insert p w.inUse }

/-- `rb_free`, of a block that is in use. -/
def rbFree (w : World K I) (p : ℕ) : Option (World K I) :=
  if p ∈ w.inUse then some { w with inUse := w.inUse.erase p } else none

/-- `DestroyKey` and `DestroyInfo`. -/
def destroy (w : World K I) (key : K) (info : I) : World K I :=
  { w with keys := key :: w.keys, infos := info :: w.infos }

end World

/-- `RBTreeCreate`, with what the three calls of `rb_malloc` return. -/
def rbTreeCreateIn (mem : RbTree K I) (w : World K I) :
    Option ℕ → Option ℕ → Option ℕ → Option (World K I × Option (ℕ × RbTree K I))
  | none, _, _ => some (w, none)
  | some tree, none, _ => do
      let w ← (w.alloc tree).rbFree tree
      some (w, none)
  | some tree, some nil, none => do
      let w ← ((w.alloc tree).alloc nil).rbFree nil
      let w ← w.rbFree tree
      some (w, none)
  | some tree, some nil, some root =>
      some (((w.alloc tree).alloc nil).alloc root, some (tree, rbTreeCreate mem nil root))

/-- `RBDelete`. Key and info are those of `z` in either branch, and nothing before has changed
them. -/
def rbDeleteIn (fuel : ℕ) (t : RbTree K I) (z : ℕ) (w : World K I) :
    Option (RbTree K I × World K I) := do
  let t' ← rbDelete fuel t z
  let w ← (w.destroy (t.key z) (t.info z)).rbFree z
  some (t', w)

/-- The end of `TreeDestHelper`. -/
def destroyNode (t : RbTree K I) (w : World K I) (x : ℕ) : Option (World K I) :=
  (w.destroy (t.key x) (t.info x)).rbFree x

/-- `TreeDestHelper`. -/
def treeDestHelper (t : RbTree K I) : ℕ → ℕ → World K I → Option (World K I)
  | 0, x, w => if x ≠ t.nil then none else some w
  | fuel + 1, x, w =>
      if x ≠ t.nil then do
        let w ← treeDestHelper t fuel (t.child .left x) w
        let w ← treeDestHelper t fuel (t.child .right x) w
        destroyNode t w x
      else some w

/-- `RBTreeDestroy`; the block of the tree itself is at `tree`. -/
def rbTreeDestroy (fuel : ℕ) (t : RbTree K I) (tree : ℕ) (w : World K I) :
    Option (World K I) := do
  let w ← treeDestHelper t fuel (t.child .left t.root) w
  let w ← w.rbFree t.root
  let w ← w.rbFree t.nil
  w.rbFree tree

/-! ## A tree without an owner -/

/-- Where memory is refused, what was taken before is given back. -/
theorem rbTreeCreateIn_of_refused {mem : RbTree K I} {w : World K I} {tree nil root : Option ℕ}
    (hnone : tree = none ∨ nil = none ∨ root = none) (htree : ∀ p ∈ tree, p ∉ w.inUse)
    (hnil : ∀ p ∈ nil, p ∉ w.inUse ∧ p ∉ tree) :
    rbTreeCreateIn mem w tree nil root = some (w, none) := by
  cases tree with
  | none => rfl
  | some tree =>
      have htree' : tree ∉ w.inUse := htree tree rfl
      cases nil with
      | none => simp [rbTreeCreateIn, World.alloc, World.rbFree, htree']
      | some nil =>
          obtain ⟨hnil', hne⟩ := hnil nil rfl
          have hne' : nil ≠ tree := fun h => hne (by rw [h]; rfl)
          cases root with
          | none => simp [rbTreeCreateIn, World.alloc, World.rbFree, htree', hnil', hne']
          | some root => simp at hnone

/-! ## Children first -/

/-- The nodes in the order in which they are destroyed. -/
def postorder : BinTree ℕ → List ℕ
  | .leaf => []
  | .node _ l x r => postorder l ++ postorder r ++ [x]

theorem postorder_perm (T : BinTree ℕ) : (postorder T).Perm T.toList := by
  induction T with
  | leaf => exact .refl _
  | node c l x r ihl ihr =>
      have hmoved : (postorder l ++ postorder r ++ [x]).Perm (postorder l ++ x :: postorder r) := by
        rw [List.append_assoc]
        exact (List.perm_append_singleton x _).append_left _
      exact hmoved.trans (ihl.append (ihr.cons x))

/-- **The nodes are destroyed children first.** The recursion is that of the tree. -/
theorem treeDestHelper_eq {t : RbTree K I} {T : BinTree ℕ} {q fuel : ℕ} (h : Links t q T)
    (hnil : t.nil ∉ T.toList) (hfuel : T.toList.length ≤ fuel) (w : World K I) :
    treeDestHelper t fuel (ptr t T) w = (postorder T).foldlM (destroyNode t) w := by
  induction T generalizing q fuel w with
  | leaf => cases fuel <;> simp [treeDestHelper, ptr, postorder]
  | node c l x r ihl ihr =>
      obtain ⟨-, -, hl, hr, hll, hlr⟩ := h
      simp only [toList, List.mem_append, List.mem_cons, not_or] at hnil
      simp only [toList, List.length_append, List.length_cons] at hfuel
      obtain ⟨k, rfl⟩ : ∃ k, fuel = k + 1 := ⟨fuel - 1, by omega⟩
      have hptr : ptr t (.node c l x r) = x := rfl
      rw [hptr, treeDestHelper, if_pos (Ne.symm hnil.2.1), hl, hr, postorder, List.foldlM_append,
        List.foldlM_append, ihl hll hnil.1 (by omega)]
      simp only [ihr hlr hnil.2.2 (show r.toList.length ≤ k by omega), List.foldlM_cons,
        List.foldlM_nil, bind_pure, bind_assoc]

/-- Different nodes that are in use can be destroyed, and are then gone. -/
theorem foldlM_destroyNode {t : RbTree K I} {L : List ℕ} {w : World K I} (hnd : L.Nodup)
    (hin : ∀ p ∈ L, p ∈ w.inUse) :
    L.foldlM (destroyNode t) w = some ⟨w.inUse \ L.toFinset, (L.map t.key).reverse ++ w.keys,
      (L.map t.info).reverse ++ w.infos⟩ := by
  induction L generalizing w with
  | nil => simp
  | cons p L ih =>
      obtain ⟨hp, hnd⟩ := List.nodup_cons.mp hnd
      have hfree : destroyNode t w p
          = some ⟨w.inUse.erase p, t.key p :: w.keys, t.info p :: w.infos⟩ :=
        if_pos (hin p (by simp))
      have hrest : ∀ q ∈ L, q ∈ w.inUse.erase p := by
        intro q hq
        have hne : q ≠ p := fun h => hp (h ▸ hq)
        exact Finset.mem_erase.mpr ⟨hne, hin q (by simp [hq])⟩
      have hgone : w.inUse.erase p \ L.toFinset = w.inUse \ (p :: L).toFinset := by
        ext q
        simp only [Finset.mem_sdiff, Finset.mem_erase, List.mem_toFinset, List.mem_cons]
        tauto
      rw [List.foldlM_cons, hfree]
      simp only [Option.bind_eq_bind, Option.bind_some]
      rw [ih hnd hrest, hgone]
      simp

/-! ## The sentinels stay -/

theorem step_sentinels (hc : IsCompare compare) {s s' : St K I} {T : BinTree ℕ}
    (h : Refines compare s T) {op : Op K I} (hok : Allowed s op)
    (hstep : step compare s op = some s') :
    s'.tree.root = s.tree.root ∧ s'.tree.nil = s.tree.nil := by
  cases op with
  | delete z =>
      obtain ⟨t', T', A, B, hrun, -, -, -, hpay⟩ :=
        rbDelete_spec h.1 (h.mem_iff.mpr hok) h.length_eq.le
      simp only [step, exec, hrun, Option.map_some, Option.some.injEq] at hstep
      rw [← hstep]
      exact ⟨hpay.root, hpay.nil⟩
  | insert key info alloc =>
      cases alloc with
      | none =>
          obtain rfl : s = s' := by simpa [step, exec, rbTreeInsert] using hstep
          exact ⟨rfl, rfl⟩
      | some x =>
          obtain ⟨hnil, hroot, hnew⟩ := hok
          have hx : x ∉ T.toList := by
            rw [h.mem_iff]
            rintro ⟨e, he, heq⟩
            exact hnew e he heq
          obtain ⟨t', T', pre, post, hrun, -, -, -, -, -, hroot', hnil'⟩ :=
            rbTreeInsert_spec hc h.1 key info hx hroot hnil h.length_eq.le
          simp only [step, exec, hrun, Option.map_some, Option.some.injEq] at hstep
          rw [← hstep]
          exact ⟨hroot', hnil'⟩

/-! ## A program with a tree -/

/-- What a program has, and the memory of it. -/
structure Life (K I : Type) where
  st : St K I
  world : World K I

/-- A new tree, with its three blocks. -/
def created (mem : RbTree K I) (w : World K I) (tree nil root : ℕ) : Life K I :=
  ⟨⟨rbTreeCreate mem nil root, []⟩, ((w.alloc tree).alloc nil).alloc root⟩

/-- The call, with its memory. -/
def lifeExec (compare : K → K → Int) (fuel : ℕ) (s : Life K I) : Op K I → Option (Life K I)
  | .insert key info alloc => do
      let st ← exec compare fuel s.st (.insert key info alloc)
      some ⟨st, match alloc with
        | none => s.world
        | some x => s.world.alloc x⟩
  | .delete z => do
      let (t, w) ← rbDeleteIn fuel s.st.tree z s.world
      some ⟨⟨t, s.st.live.filter fun e => e.1 ≠ z⟩, w⟩

/-- No loop has more rounds than there are nodes. -/
def lifeStep (compare : K → K → Int) (s : Life K I) (op : Op K I) : Option (Life K I) :=
  lifeExec compare s.st.live.length s op

/-- `rb_malloc` does not give out what is in use, and only a live node is deleted. -/
def LifeAllowed (s : Life K I) : Op K I → Prop
  | .insert _ _ none => True
  | .insert _ _ (some x) => x ∉ s.world.inUse
  | .delete z => ∃ e ∈ s.st.live, e.1 = z

instance (s : Life K I) (op : Op K I) : Decidable (LifeAllowed s op) :=
  match op with
  | .insert _ _ none => inferInstanceAs (Decidable True)
  | .insert _ _ (some x) => inferInstanceAs (Decidable (x ∉ s.world.inUse))
  | .delete z => inferInstanceAs (Decidable (∃ e ∈ s.st.live, e.1 = z))

/-- The key and the info that the tree takes over: those of a call that finds no memory stay with
the program. -/
def Op.granted : Op K I → List (K × I)
  | .insert _ _ none => []
  | .insert key info (some _) => [(key, info)]
  | .delete _ => []

/-- The blocks of a tree. -/
def blocks (tree : ℕ) (s : St K I) : List ℕ :=
  tree :: s.tree.nil :: s.tree.root :: s.live.map Prod.fst

/-- **The account of a tree**: its blocks are in use beside those that were before it, and what it
has taken over is either destroyed or still in it. -/
structure LifeInv (compare : K → K → Int) (w₀ : World K I) (tree : ℕ) (taken : List (K × I))
    (s : Life K I) : Prop where
  refines : ∃ T, Refines compare s.st T
  nodup : (blocks tree s.st).Nodup
  fresh : ∀ p ∈ blocks tree s.st, p ∉ w₀.inUse
  inUse : ∀ p, p ∈ s.world.inUse ↔ p ∈ w₀.inUse ∨ p ∈ blocks tree s.st
  destroyed : ∃ D, (D ++ s.st.live.map Prod.snd).Perm taken ∧
    s.world.keys = D.map Prod.fst ++ w₀.keys ∧ s.world.infos = D.map Prod.snd ++ w₀.infos

/-- An entry with an address of its own is the only one that is filtered out. -/
theorem perm_cons_filter {L : List (ℕ × K × I)} (hnd : (L.map Prod.fst).Nodup) {e : ℕ × K × I}
    (he : e ∈ L) : L.Perm (e :: L.filter fun e' => e'.1 ≠ e.1) := by
  induction L with
  | nil => cases he
  | cons a L ih =>
      obtain ⟨ha, hnd⟩ := List.nodup_cons.mp hnd
      rcases List.mem_cons.mp he with rfl | he
      · have hrest : L.filter (fun e' => e'.1 ≠ e.1) = L := by
          refine List.filter_eq_self.mpr fun e' he' => ?_
          have hne : e'.1 ≠ e.1 := fun heq => ha (heq ▸ List.mem_map_of_mem he')
          simpa using hne
        rw [List.filter_cons_of_neg (by simp), hrest]
      · have hne : a.1 ≠ e.1 := fun heq => ha (heq ▸ List.mem_map_of_mem he)
        rw [List.filter_cons_of_pos (by simpa using hne)]
        exact ((ih hnd he).cons a).trans (.swap _ _ _)

section Life

variable {w₀ : World K I} {tree : ℕ} {taken : List (K × I)} {s : Life K I}

/-- A new tree owns its three blocks. -/
theorem lifeInv_created (mem : RbTree K I) {nil root : ℕ} (hnd : [tree, nil, root].Nodup)
    (hfresh : ∀ p ∈ [tree, nil, root], p ∉ w₀.inUse) :
    LifeInv compare w₀ tree [] (created mem w₀ tree nil root) := by
  have hblocks : blocks tree (created mem w₀ tree nil root).st = [tree, nil, root] := rfl
  refine ⟨⟨.leaf, refines_create mem ?_⟩, hblocks ▸ hnd, hblocks ▸ hfresh, ?_, [], .refl _, rfl,
    rfl⟩
  · intro heq
    simp [heq] at hnd
  · intro p
    rw [hblocks]
    simp only [created, World.alloc, Finset.mem_insert, List.mem_cons, List.not_mem_nil]
    tauto

/-- A node is added. -/
theorem LifeInv.insert (hc : IsCompare compare) (h : LifeInv compare w₀ tree taken s) (key : K)
    (info : I) {x : ℕ} (hx : x ∉ s.world.inUse) :
    ∃ s', lifeStep compare s (.insert key info (some x)) = some s' ∧
      LifeInv compare w₀ tree (taken ++ [(key, info)]) s' := by
  obtain ⟨T, hT⟩ := h.refines
  rw [h.inUse, not_or] at hx
  obtain ⟨hbefore, hown⟩ := hx
  have hok : Allowed s.st (.insert key info (some x)) := by
    simp only [blocks, List.mem_cons, List.mem_map, not_or] at hown
    exact ⟨hown.2.1, hown.2.2.1, fun e he heq => hown.2.2.2 ⟨e, he, heq⟩⟩
  obtain ⟨st, T', hstep, hT', hlive⟩ := exec_insert_refines hc hT key info hok
  obtain ⟨hroot, hnil⟩ := step_sentinels hc hT hok hstep
  have hblocks : (blocks tree st).Perm (x :: blocks tree s.st) := by
    rw [blocks, blocks, hlive, hroot, hnil]
    exact @List.perm_middle _ x [tree, s.st.tree.nil, s.st.tree.root] (s.st.live.map Prod.fst)
  refine ⟨⟨st, s.world.alloc x⟩, ?_, ⟨T', hT'⟩, ?_, ?_, ?_, ?_⟩
  · have hrun : exec compare s.st.live.length s.st (.insert key info (some x)) = some st := hstep
    simp only [lifeStep, lifeExec, hrun, Option.bind_eq_bind, Option.bind_some]
  · exact hblocks.nodup_iff.mpr (List.nodup_cons.mpr ⟨hown, h.nodup⟩)
  · intro p hp
    rcases List.mem_cons.mp (hblocks.mem_iff.mp hp) with rfl | hp
    · exact hbefore
    · exact h.fresh p hp
  · intro p
    rw [hblocks.mem_iff, List.mem_cons]
    simp only [World.alloc, Finset.mem_insert, h.inUse]
    tauto
  · obtain ⟨D, hperm, hkeys, hinfos⟩ := h.destroyed
    refine ⟨D, ?_, hkeys, hinfos⟩
    rw [hlive, List.map_cons]
    exact List.perm_middle.trans ((hperm.cons _).trans (List.perm_append_singleton _ _).symm)

/-- A node is removed, with what it holds. -/
theorem LifeInv.delete (hc : IsCompare compare) (h : LifeInv compare w₀ tree taken s) {z : ℕ}
    (hz : ∃ e ∈ s.st.live, e.1 = z) :
    ∃ s', lifeStep compare s (.delete z) = some s' ∧ LifeInv compare w₀ tree taken s' := by
  obtain ⟨T, hT⟩ := h.refines
  obtain ⟨st, T', hstep, hT', hlive⟩ := exec_delete_refines hT hz
  have hok : Allowed s.st (.delete z) := hz
  obtain ⟨hroot, hnil⟩ := step_sentinels hc hT hok hstep
  obtain ⟨e, he, rfl⟩ := hz
  have hmem : e.1 ∈ blocks tree s.st := by
    simp only [blocks, List.mem_cons, List.mem_map]
    exact .inr (.inr (.inr ⟨e, he, rfl⟩))
  have hin : e.1 ∈ s.world.inUse := (h.inUse _).mpr (.inr hmem)
  have hnd : (s.st.live.map Prod.fst).Nodup :=
    (List.nodup_cons.mp (List.nodup_cons.mp (List.nodup_cons.mp h.nodup).2).2).2
  have hkept : s.st.live.Perm (e :: st.live) := hlive ▸ perm_cons_filter hnd he
  have hblocks : (blocks tree s.st).Perm (e.1 :: blocks tree st) := by
    have hmap : (s.st.live.map Prod.fst).Perm (e.1 :: st.live.map Prod.fst) := hkept.map Prod.fst
    rw [blocks, blocks, hroot, hnil]
    exact (hmap.append_left [tree, s.st.tree.nil, s.st.tree.root]).trans List.perm_middle
  have hnd' : (e.1 :: blocks tree st).Nodup := hblocks.nodup_iff.mp h.nodup
  refine ⟨⟨st, { (s.world.destroy (s.st.tree.key e.1) (s.st.tree.info e.1)) with
    inUse := s.world.inUse.erase e.1 }⟩, ?_, ⟨T', hT'⟩, (List.nodup_cons.mp hnd').2, ?_, ?_, ?_⟩
  · have hrun : exec compare s.st.live.length s.st (.delete e.1) = some st := hstep
    simp only [exec, Option.map_eq_some_iff] at hrun
    obtain ⟨t', ht', rfl⟩ := hrun
    have hfree : (s.world.destroy (s.st.tree.key e.1) (s.st.tree.info e.1)).rbFree e.1 = some _ :=
      if_pos hin
    simp only [lifeStep, lifeExec, rbDeleteIn, ht', hfree, Option.bind_eq_bind, Option.bind_some]
    rfl
  · intro p hp
    exact h.fresh p (hblocks.mem_iff.mpr (by simp [hp]))
  · intro p
    have hnot : e.1 ∉ blocks tree st := (List.nodup_cons.mp hnd').1
    have hold : e.1 ∉ w₀.inUse := h.fresh _ hmem
    simp only [Finset.mem_erase, h.inUse, hblocks.mem_iff, List.mem_cons]
    constructor
    · rintro ⟨hne, hp | rfl | hp⟩
      · exact .inl hp
      · exact absurd rfl hne
      · exact .inr hp
    · rintro (hp | hp)
      · exact ⟨fun heq => hold (heq ▸ hp), .inl hp⟩
      · exact ⟨fun heq => hnot (heq ▸ hp), .inr (.inr hp)⟩
  · obtain ⟨D, hperm, hkeys, hinfos⟩ := h.destroyed
    have hpay : e.2 = (s.st.tree.key e.1, s.st.tree.info e.1) :=
      congrArg Prod.snd (hT.mem_live he).2
    refine ⟨e.2 :: D, ?_, ?_, ?_⟩
    · have hmap : (s.st.live.map Prod.snd).Perm (e.2 :: st.live.map Prod.snd) :=
        hkept.map Prod.snd
      exact (List.perm_middle.symm.trans (hmap.symm.append_left D)).trans hperm
    · rw [hpay, List.map_cons, List.cons_append, ← hkeys]
      rfl
    · rw [hpay, List.map_cons, List.cons_append, ← hinfos]
      rfl

/-- **A call keeps the account.** -/
theorem LifeInv.step (hc : IsCompare compare) (h : LifeInv compare w₀ tree taken s) {op : Op K I}
    (hok : LifeAllowed s op) :
    ∃ s', lifeStep compare s op = some s' ∧ LifeInv compare w₀ tree (taken ++ op.granted) s' := by
  cases op with
  | delete z =>
      rw [Op.granted, List.append_nil]
      exact h.delete hc hok
  | insert key info alloc =>
      cases alloc with
      | none =>
          rw [Op.granted, List.append_nil]
          exact ⟨s, rfl, h⟩
      | some x => exact h.insert hc key info hok

/-- **A run keeps the account.** -/
theorem LifeInv.of_runs (hc : IsCompare compare) {s₀ : Life K I} {taken : List (K × I)}
    (h₀ : LifeInv compare w₀ tree taken s₀) {ops : List (Op K I)}
    (h : Runs (lifeStep compare) LifeAllowed s₀ ops s) :
    LifeInv compare w₀ tree (taken ++ ops.flatMap Op.granted) s := by
  induction h with
  | refl => simpa using h₀
  | @snoc ops op u v _ hok hstep ih =>
      obtain ⟨s', hs', hinv⟩ := ih.step hc hok
      obtain rfl : s' = v := Option.some.inj (hs'.symm.trans hstep)
      simpa using hinv

/-- A larger bound gives the same result. -/
theorem lifeExec_mono {s' : Life K I} {op : Op K I} {fuel fuel' : ℕ}
    (h : lifeExec compare fuel s op = some s') (hle : fuel ≤ fuel') :
    lifeExec compare fuel' s op = some s' := by
  cases op with
  | insert key info alloc =>
      simp only [lifeExec, Option.bind_eq_bind, Option.bind_eq_some_iff] at h ⊢
      obtain ⟨st, hst, hs⟩ := h
      exact ⟨st, exec_mono hst hle, hs⟩
  | delete z =>
      simp only [lifeExec, rbDeleteIn, Option.bind_eq_bind, Option.bind_eq_some_iff] at h ⊢
      obtain ⟨r, ⟨t, ht, hr⟩, hs⟩ := h
      exact ⟨r, ⟨t, rbDelete_mono ht hle, hr⟩, hs⟩

/-- **The end of a tree**: what is still in it is destroyed, and its blocks are released. -/
theorem LifeInv.end (h : LifeInv compare w₀ tree taken s) :
    ∃ D : List (K × I), (∀ fuel ≥ s.st.live.length, rbTreeDestroy fuel s.st.tree tree s.world
        = some ⟨w₀.inUse, D.map Prod.fst ++ w₀.keys, D.map Prod.snd ++ w₀.infos⟩) ∧
      D.Perm taken := by
  obtain ⟨T, hT⟩ := h.refines
  obtain ⟨D, hperm, hkeys, hinfos⟩ := h.destroyed
  have hrep := hT.1.rep
  have htop : s.st.tree.child .left s.st.tree.root = ptr s.st.tree T := hrep.clinks
  have hnil : s.st.tree.nil ∉ T.toList := fun hmem => hrep.nil_notMem (by simpa using Or.inl hmem)
  have hpost := postorder_perm T
  have hnodes : ∀ p, p ∈ postorder T ↔ p ∈ s.st.live.map Prod.fst := by
    intro p
    rw [hpost.mem_iff, hT.mem_iff]
    simp
  have hin : ∀ p ∈ postorder T, p ∈ s.world.inUse := by
    intro p hp
    refine (h.inUse p).mpr (.inr ?_)
    simp only [blocks, List.mem_cons]
    exact .inr (.inr (.inr ((hnodes p).mp hp)))
  have hnd : (postorder T).Nodup := by
    rw [hpost.nodup_iff]
    simpa [TreeCtx.entries] using hrep.nodup
  have hdest := foldlM_destroyNode (t := s.st.tree) hnd hin
  have hblocks := h.nodup
  simp only [blocks, List.nodup_cons, List.mem_cons, not_or] at hblocks
  obtain ⟨⟨htn, htr, htl⟩, ⟨hnr, hnl⟩, hrl, -⟩ := hblocks
  have hroot : s.st.tree.root ∈ s.world.inUse \ (postorder T).toFinset := by
    simp only [Finset.mem_sdiff, List.mem_toFinset, hnodes, h.inUse, blocks, List.mem_cons]
    tauto
  have hsent : s.st.tree.nil ∈ (s.world.inUse \ (postorder T).toFinset).erase s.st.tree.root := by
    simp only [Finset.mem_erase, Finset.mem_sdiff, List.mem_toFinset, hnodes, h.inUse, blocks,
      List.mem_cons]
    tauto
  have hself : tree ∈
      ((s.world.inUse \ (postorder T).toFinset).erase s.st.tree.root).erase s.st.tree.nil := by
    simp only [Finset.mem_erase, Finset.mem_sdiff, List.mem_toFinset, hnodes, h.inUse, blocks,
      List.mem_cons]
    tauto
  -- what is left is what was there before the tree
  have hleft : (((s.world.inUse \ (postorder T).toFinset).erase s.st.tree.root).erase
      s.st.tree.nil).erase tree = w₀.inUse := by
    ext p
    have hfresh := h.fresh p
    simp only [blocks, List.mem_cons] at hfresh
    simp only [Finset.mem_erase, Finset.mem_sdiff, List.mem_toFinset, hnodes, h.inUse, blocks,
      List.mem_cons]
    tauto
  have hlive : ((postorder T).map fun p => (s.st.tree.key p, s.st.tree.info p)).Perm
      (s.st.live.map Prod.snd) := by
    have hmap : ((contents s.st.tree T.toList).map Prod.snd).Perm (s.st.live.map Prod.snd) :=
      hT.2.map Prod.snd
    rw [contents, List.map_map] at hmap
    exact (hpost.map _).trans hmap
  refine ⟨((postorder T).map fun p => (s.st.tree.key p, s.st.tree.info p)).reverse ++ D, ?_, ?_⟩
  · intro fuel hfuel
    rw [rbTreeDestroy, htop, treeDestHelper_eq hrep.links hnil (hT.length_eq.trans_le hfuel), hdest]
    simp only [Option.bind_eq_bind, Option.bind_some, World.rbFree, if_pos hroot, if_pos hsent,
      if_pos hself, hleft, hkeys, hinfos, List.map_append, List.map_reverse, List.map_map,
      List.append_assoc]
    rfl
  · exact ((List.reverse_perm _).append_right D).trans
      ((List.perm_append_comm.trans (hlive.append_left D)).trans hperm)

end Life

/-! ## Every life -/

theorem someCalls_lives :
    (someCalls.foldlM (fun s op => if LifeAllowed s op then lifeStep compFunc s op else none)
      (created emptyTree.tree ⟨{9}, [], []⟩ 8 1 2)).isSome = true := by
  decide +kernel

/-- **In every run of calls between `RBTreeCreate` and `RBTreeDestroy`** the tree holds or has
destroyed what it has taken over, each key and info once, and the next call does not fail.
`RBTreeDestroy` then destroys the rest and leaves the blocks that were in use before the tree. -/
theorem life_runs (hc : IsCompare compare) {mem t : RbTree K I} {w₀ w : World K I}
    {tree nil root : ℕ} (hnd : [tree, nil, root].Nodup)
    (hfresh : ∀ p ∈ [tree, nil, root], p ∉ w₀.inUse)
    (hcreate : rbTreeCreateIn mem w₀ (some tree) (some nil) (some root) = some (w, some (tree, t)))
    {ops : List (Op K I)} {s : Life K I}
    (h : Runs (lifeStep compare) LifeAllowed ⟨⟨t, []⟩, w⟩ ops s) :
    (∃ D : List (K × I), (D ++ s.st.live.map Prod.snd).Perm (ops.flatMap Op.granted) ∧
      s.world.keys = D.map Prod.fst ++ w₀.keys ∧ s.world.infos = D.map Prod.snd ++ w₀.infos) ∧
    (∀ op, LifeAllowed s op →
      ∃ s', ∀ fuel ≥ s.st.live.length, lifeExec compare fuel s op = some s') ∧
    ∃ D : List (K × I), (∀ fuel ≥ s.st.live.length, rbTreeDestroy fuel s.st.tree tree s.world
        = some ⟨w₀.inUse, D.map Prod.fst ++ w₀.keys, D.map Prod.snd ++ w₀.infos⟩) ∧
      D.Perm (ops.flatMap Op.granted) := by
  simp only [rbTreeCreateIn, Option.some.injEq, Prod.mk.injEq, true_and] at hcreate
  obtain ⟨rfl, rfl⟩ := hcreate
  have hinv := LifeInv.of_runs hc (lifeInv_created mem hnd hfresh) h
  rw [List.nil_append] at hinv
  refine ⟨hinv.destroyed, ?_, hinv.end⟩
  intro op hok
  obtain ⟨s', hs', -⟩ := hinv.step hc hok
  exact ⟨s', fun fuel hfuel => lifeExec_mono hs' hfuel⟩

theorem life_runs_someCalls :
    ∃ s, Runs (lifeStep compFunc) LifeAllowed (created emptyTree.tree ⟨{9}, [], []⟩ 8 1 2) someCalls
        s ∧
      ∃ D : List (Int × ℕ), D.Perm (someCalls.flatMap Op.granted) ∧
        rbTreeDestroy s.st.live.length s.st.tree 8 s.world
          = some ⟨{9}, D.map Prod.fst ++ [], D.map Prod.snd ++ []⟩ := by
  obtain ⟨s, hs⟩ := Option.isSome_iff_exists.mp someCalls_lives
  have hrun := Runs.of_guarded hs
  obtain ⟨-, -, D, hD, hperm⟩ := life_runs isCompare_compFunc (by decide) (by decide) rfl hrun
  exact ⟨s, hrun, D, hperm, hD _ le_rfl⟩

end CCode.Rb
