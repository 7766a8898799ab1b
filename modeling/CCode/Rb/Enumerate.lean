import CCode.Rb.Runs

/-!
# The nodes in a range

`RBEnumerate` goes down to the last node that is not above `high`, and from there through
predecessors, until a node is below `low` or there is none. `TreePredecessor` finds the node
right before another by the links alone: the last one of the left subtree, or the first one on the
way up that is left to the right. It leaves the tree over the sentinel `root`, whose left child is
the root of the tree.

## Main results

* `treePredecessor_spec` — the last of the nodes before a node.
* `rbEnumerate_spec` — the nodes in the range, from the last one back.
* `enumerate_runs` — in every state of every run.
-/

namespace CCode.Rb

open CCode.Lib BinTree RbTree

variable {K I : Type} {t : RbTree K I} {compare : K → K → Int} {T : BinTree ℕ}

/-! ## The node before -/

/-- The address at the end of a list, `nil` where it is empty. -/
def lastOr (t : RbTree K I) (L : List ℕ) : ℕ := L.getLastD t.nil

@[simp] theorem lastOr_nil : lastOr t [] = t.nil := rfl

@[simp] theorem lastOr_concat (L : List ℕ) (x : ℕ) : lastOr t (L ++ [x]) = x := by
  simp [lastOr]

theorem lastOr_append (A : List ℕ) {B : List ℕ} (h : B ≠ []) : lastOr t (A ++ B) = lastOr t B := by
  simp [lastOr, List.getLast?_append_of_ne_nil A h]

theorem toList_ne_nil (h : T ≠ .leaf) : T.toList ≠ [] := by
  cases T with
  | leaf => exact absurd rfl h
  | node c l x r => simp [toList]

/-- To the right as long as there is a right child. -/
theorem Links.rightmost {q fuel : ℕ} (h : Links t q T) (hnil : t.nil ∉ T.toList) (hne : T ≠ .leaf)
    (hfuel : T.toList.length ≤ fuel) :
    whileFuel (fun y => t.child .right y ≠ t.nil) (fun y => t.child .right y) fuel (ptr t T)
      = some (lastOr t T.toList) := by
  induction T generalizing q fuel with
  | leaf => exact absurd rfl hne
  | node c l x r ihl ihr =>
      obtain ⟨-, -, -, hr, -, hlr⟩ := h
      have hptr : ptr t (.node c l x r) = x := rfl
      simp only [toList, List.mem_append, List.mem_cons, not_or] at hnil
      simp only [toList, List.length_append, List.length_cons] at hfuel
      obtain ⟨k, rfl⟩ : ∃ k, fuel = k + 1 := ⟨fuel - 1, by omega⟩
      rw [hptr, whileFuel, hr]
      by_cases hleaf : r = .leaf
      · subst hleaf
        simp [toList]
      · have hmem := (ptr_mem t r).resolve_left hleaf
        have hgo : ptr t r ≠ t.nil := fun heq => hnil.2.2 (heq ▸ hmem)
        rw [if_pos (decide_eq_true hgo), ihr hlr hnil.2.2 hleaf (show r.toList.length ≤ k by omega),
          toList, List.append_cons, lastOr_append _ (toList_ne_nil hleaf)]

/-- Up, as long as from the left: to the last node before the focus. -/
theorem Rep.predecessorUp {ctx : TreeCtx ℕ} {fuel : ℕ} (h : Rep t ctx T) (hne : T ≠ .leaf)
    (hfuel : ctx.length < fuel) :
    Rb.predecessorUp t fuel (ptr t T) (up t ctx) = some (lastOr t ctx.pre) := by
  induction ctx generalizing T fuel with
  | nil =>
      obtain ⟨k, rfl⟩ : ∃ k, fuel = k + 1 := ⟨fuel - 1, by simp at hfuel; omega⟩
      have htop : ptr t T = t.child .left (up t []) := h.clinks.symm
      rw [Rb.predecessorUp, if_pos htop, up, if_pos rfl, TreeCtx.pre, lastOr_nil]
  | cons f ctx ih =>
      obtain ⟨d, c, x, s⟩ := f
      obtain ⟨k, rfl⟩ : ∃ k, fuel = k + 1 := ⟨fuel - 1, by simp at hfuel; omega⟩
      obtain ⟨-, hpar, hd, hflip⟩ := h.frame_fields
      have hup : up t (⟨d, c, x, s⟩ :: ctx) = x := rfl
      rw [Rb.predecessorUp, hup]
      cases d with
      | left =>
          have hroot : x ≠ t.root := by
            rintro rfl
            exact h.root_notMem (by simp [TreeCtx.entries])
          have hrest := ih h.out (by simp [join]) (show ctx.length < k by simpa using hfuel)
          rw [ptr_join] at hrest
          rw [if_pos hd.symm, if_neg hroot, hpar, hrest]
          simp [TreeCtx.pre]
      | right =>
          -- the focus has another address than the left subtree
          have hother : ptr t T ≠ t.child .left x := by
            rw [show t.child .left x = ptr t s from hflip]
            exact h.ptr_ne (.inl hne)
          rw [if_neg hother]
          simp only [TreeCtx.pre, ← List.append_assoc, lastOr_concat]

/-- **The predecessor** is the last node before. -/
theorem treePredecessor_spec {ctx : TreeCtx ℕ} {c : Bool} {l r : BinTree ℕ} {z fuel : ℕ}
    (h : Rep t ctx (.node c l z r)) (hfuel : (plug ctx (.node c l z r)).toList.length ≤ fuel) :
    treePredecessor fuel t z = some (lastOr t (ctx.pre ++ l.toList)) := by
  have hl : t.child .left z = ptr t l := h.links.2.2.1
  have hpar : t.parent z = up t ctx := h.links.2.1
  have hleft : Rep t (⟨.left, c, z, r⟩ :: ctx) l := Rep.down (d := .left) h
  rw [(toList_plug_perm ctx _).length_eq, List.length_append] at hfuel
  have hlen := ctx.length_le
  simp only [toList, List.length_append, List.length_cons] at hfuel
  rw [treePredecessor, hl, hpar]
  by_cases hleaf : l = .leaf
  · subst hleaf
    rw [if_neg (not_not.mpr ptr_leaf.symm)]
    simpa [toList, ptr] using h.predecessorUp (by simp) (show ctx.length < fuel by omega)
  · have hne : t.nil ≠ ptr t l := fun heq => hleaf (hleft.ptr_eq_nil.mp heq.symm)
    rw [if_pos hne, lastOr_append _ (toList_ne_nil hleaf)]
    refine hleft.links.rightmost ?_ hleaf (by omega)
    exact fun hmem => hleft.nil_notMem (List.mem_append_left _ hmem)

/-- The predecessor by the list of the nodes. -/
theorem RbInv.predecessor {A B : List ℕ} {z fuel : ℕ} (h : RbInv compare t T)
    (hT : T.toList = A ++ z :: B) (hfuel : T.toList.length ≤ fuel) :
    treePredecessor fuel t z = some (lastOr t A) := by
  obtain ⟨ctx, c, l, r, rfl⟩ := exists_plug (show z ∈ T.toList by simp [hT])
  have hrep : Rep t ctx (.node c l z r) := rep_plug_iff.mpr h.rep
  have hnodup : (A ++ z :: B).Nodup := by
    rw [← hT]
    simpa [TreeCtx.entries] using h.rep.nodup
  -- `z` occurs once, so what is before it is the same in both lists
  have hA : ctx.pre ++ l.toList = A := by
    have heq : ctx.pre ++ l.toList ++ z :: (r.toList ++ ctx.post) = A ++ z :: B := by
      rw [← hT, toList_plug]
      simp [toList]
    simp only [List.nodup_append, List.nodup_cons, List.mem_cons, ne_eq] at hnodup
    refine ((List.append_cons_inj_of_notMem ?_ ?_).mp heq.symm).1.symm
    · exact fun hmem => hnodup.2.2 z hmem z (.inl rfl) rfl
    · exact hnodup.2.1.1
  rw [treePredecessor_spec hrep hfuel, hA]

/-! ## From the last node back -/

/-- **The second loop** calls back for the nodes before a place that are not below `low`, from the
last one. -/
theorem RbInv.enumerateDown {A B : List ℕ} {low : K} {rounds fuel : ℕ} (hc : IsCompare compare)
    (h : RbInv compare t T) (hT : T.toList = A ++ B) (hfuel : T.toList.length ≤ fuel)
    (hrounds : A.length ≤ rounds) :
    Rb.enumerateDown compare fuel t low rounds (lastOr t A)
      = some (A.reverse.filter fun p => compare low (t.key p) ≠ 1) := by
  induction A using List.reverseRecOn generalizing B rounds with
  | nil => cases rounds <;> simp [Rb.enumerateDown]
  | append_singleton A z ih =>
      have hT' : T.toList = A ++ z :: B := by rw [hT, ← List.append_cons]
      obtain ⟨k, rfl⟩ : ∃ k, rounds = k + 1 := ⟨rounds - 1, by simp at hrounds; omega⟩
      have hz : z ≠ t.nil := by
        rintro rfl
        exact h.rep.nil_notMem (by simp [hT'])
      rw [lastOr_concat, Rb.enumerateDown, List.reverse_concat]
      by_cases hlow : compare low (t.key z) = 1
      · -- everything before `z` is below `low` too
        have hsorted := h.sorted
        rw [SortedKeys, hT, List.append_assoc, List.pairwise_append] at hsorted
        have hbelow : ∀ p ∈ z :: A.reverse, compare low (t.key p) = 1 := by
          intro p hp
          rcases List.mem_cons.mp hp with rfl | hp
          · exact hlow
          · exact hc.lt_of_le_of_lt (hsorted.2.2 p (List.mem_reverse.mp hp) z (by simp)) hlow
        rw [if_neg fun hgo => hgo.2 hlow, List.filter_eq_nil_iff.mpr]
        intro p hp
        simp [hbelow p hp]
      · rw [if_pos ⟨hz, hlow⟩, h.predecessor hT' hfuel, Option.bind_eq_bind, Option.bind_some,
          ih hT' (by simpa using hrounds)]
        simp [hlow]

/-- The search for the last node not above `high` goes below `S`; everything before that is not
above, everything behind is, and `lastBest` is the node right before. -/
def FloorInv (compare : K → K → Int) (t : RbTree K I) (high : K) (T : BinTree ℕ) (n : ℕ)
    (s : ℕ × ℕ) : Prop :=
  ∃ ctx S, S.toList.length = n ∧ plug ctx S = T ∧ s = (ptr t S, lastOr t ctx.pre) ∧
    (∀ p ∈ ctx.pre, compare (t.key p) high ≠ 1) ∧ ∀ p ∈ ctx.post, compare (t.key p) high = 1

/-- A step down. -/
theorem floor_step {high : K} {n : ℕ} {s : ℕ × ℕ} (hc : IsCompare compare) (h : RbInv compare t T)
    (hinv : FloorInv compare t high T n s) (hcond : s.1 ≠ t.nil) :
    ∃ m < n, FloorInv compare t high T m
      (if compare (t.key s.1) high = 1 then (t.child .left s.1, s.2)
        else (t.child .right s.1, s.1)) := by
  obtain ⟨ctx, S, rfl, rfl, rfl, hpre, hpost⟩ := hinv
  cases S with
  | leaf => exact absurd rfl hcond
  | node c l x r =>
      have hlinks := (rep_plug_iff.mpr h.rep).links
      have hptr : ptr t (.node c l x r) = x := rfl
      simp only [hptr]
      by_cases hcmp : compare (t.key x) high = 1
      · rw [if_pos hcmp]
        refine ⟨l.toList.length, by simp [toList], ⟨.left, c, x, r⟩ :: ctx, l, rfl, rfl, ?_, ?_,
          hc.post_left h.sorted hpost hcmp⟩
        · rw [hlinks.2.2.1]
          simp [TreeCtx.pre]
        · simpa [TreeCtx.pre] using hpre
      · rw [if_neg hcmp]
        refine ⟨r.toList.length, by simp [toList]; omega, ⟨.right, c, x, l⟩ :: ctx, r, rfl, rfl, ?_,
          hc.pre_right h.sorted hpre hcmp, ?_⟩
        · rw [hlinks.2.2.2.1, TreeCtx.pre, ← List.append_assoc, lastOr_concat]
        · simpa [TreeCtx.post] using hpost

/-- The key is in the range. -/
def InRange (compare : K → K → Int) (low high k : K) : Prop :=
  compare low k ≠ 1 ∧ compare k high ≠ 1

instance (low high k : K) : Decidable (InRange compare low high k) :=
  inferInstanceAs (Decidable (_ ∧ _))

/-- **The nodes in the range**, from the last one back. -/
theorem rbEnumerate_spec {low high : K} {fuel : ℕ} (hc : IsCompare compare) (h : RbInv compare t T)
    (hfuel : T.toList.length ≤ fuel) :
    rbEnumerate compare fuel t low high
      = some (T.toList.reverse.filter fun p => InRange compare low high (t.key p)) := by
  have hstart : FloorInv compare t high T T.toList.length (t.child .left t.root, t.nil) :=
    ⟨[], T, rfl, rfl, Prod.ext h.rep.clinks rfl, by simp [TreeCtx.pre], by simp [TreeCtx.post]⟩
  obtain ⟨m, s, hloop, ⟨ctx, S, -, hplug, rfl, hpre, hpost⟩, hend⟩ :=
    whileFuel_rule (fun n s hinv hcond => floor_step hc h hinv (of_decide_eq_true hcond)) hstart
      hfuel
  have hrep : Rep t ctx S := rep_plug_iff.mpr (hplug ▸ h.rep)
  obtain rfl : S = .leaf := hrep.ptr_eq_nil.mp (not_not.mp (of_decide_eq_false hend))
  have hT : T.toList = ctx.pre ++ ctx.post := by
    rw [← hplug, toList_plug]
    simp [toList]
  have hlen : ctx.pre.length ≤ fuel := by
    rw [hT, List.length_append] at hfuel
    omega
  simp only [rbEnumerate, hloop, Option.bind_eq_bind, Option.bind_some]
  -- what is behind is above `high`, what is before is not
  have hpost' : ctx.post.reverse.filter (fun p => InRange compare low high (t.key p)) = [] := by
    refine List.filter_eq_nil_iff.mpr fun p hp => ?_
    simp [InRange, hpost p (List.mem_reverse.mp hp)]
  have hpre' : ctx.pre.reverse.filter (fun p => compare low (t.key p) ≠ 1)
      = ctx.pre.reverse.filter fun p => InRange compare low high (t.key p) := by
    refine List.filter_congr fun p hp => ?_
    simp [InRange, hpre p (List.mem_reverse.mp hp)]
  rw [h.enumerateDown hc hT hfuel hlen, hT, List.reverse_append, List.filter_append, hpost', hpre',
    List.nil_append]

/-! ## Every run -/

section Every

variable {mem : RbTree K I} {nil root : ℕ} {ops : List (Op K I)} {s : St K I}

/-- **In every state of every run `RBEnumerate` returns**, and calls back once for every node that
the program has with its key in the range, and for no other, from the largest key down. -/
theorem enumerate_runs (hc : IsCompare compare) (hne : nil ≠ root)
    (h : Runs (step compare) Allowed ⟨rbTreeCreate mem nil root, []⟩ ops s) (low high : K) :
    ∃ L, (∀ fuel ≥ s.live.length, rbEnumerate compare fuel s.tree low high = some L) ∧ L.Nodup ∧
      (contents s.tree L).Perm (s.live.filter fun e => InRange compare low high e.2.1) ∧
      L.Pairwise fun p q => compare (s.tree.key q) (s.tree.key p) ≠ 1 := by
  obtain ⟨T, hT⟩ := Refines.of_runs hc (refines_create mem hne) h
  refine ⟨_, fun fuel hfuel => rbEnumerate_spec hc hT.1 (hT.length_eq.trans_le hfuel), ?_, ?_, ?_⟩
  · have hnodup : T.toList.Nodup := by simpa [TreeCtx.entries] using hT.1.rep.nodup
    exact (List.nodup_reverse.mpr hnodup).filter _
  · have hperm := (hT.2.filter fun e => decide (InRange compare low high e.2.1))
    rw [contents, List.filter_map] at hperm
    refine List.Perm.trans ?_ hperm
    exact ((List.reverse_perm _).filter _).map _
  · exact (List.pairwise_reverse.mpr hT.1.sorted).filter _

theorem enumerate_runs_someCalls :
    ∃ s, Runs (step compFunc) Allowed emptyTree someCalls s ∧
      ∃ L, rbEnumerate compFunc s.live.length s.tree 2 5 = some L ∧ L.Nodup := by
  obtain ⟨s, hs⟩ := Option.isSome_iff_exists.mp someCalls_returns
  have hrun := Runs.of_guarded hs
  obtain ⟨L, hL, hnodup, -⟩ := enumerate_runs isCompare_compFunc (by decide) hrun 2 5
  exact ⟨s, hrun, L, hL _ le_rfl, hnodup⟩

end Every

end CCode.Rb
