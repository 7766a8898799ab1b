import CCode.Rb.Delete

/-!
# Queries

What the invariant says about single nodes, and what the functions that only read a tree
return.

## Main results

* `RbInv.black_children`, `RbInv.parent_child`, `RbInv.child_parent` — colours and links.
* `rbInorderTree_spec` — the nodes are visited in order.
* `rbExactQuery_spec` — a node with the key is found if there is one.
-/

namespace CCode.Rb

open CCode.Lib BinTree RbTree

variable {K I : Type} {t : RbTree K I} {compare : K → K → Int} {T : BinTree ℕ}

/-! ## Single nodes -/

section Nodes

variable {p : ℕ}

/-- The place of a node. -/
theorem RbInv.exists_rep (h : RbInv compare t T) (hp : p ∈ T.toList) (d : Dir) :
    ∃ ctx c a b n, T = plug ctx (join d c a p b) ∧ Rep t ctx (join d c a p b) ∧
      (join d c a p b).RB n := by
  obtain ⟨ctx, c, l, r, rfl⟩ := exists_plug hp
  obtain ⟨a, b, hab⟩ := exists_join d c l p r
  rw [hab] at h
  obtain ⟨m, hm⟩ := h.rb
  obtain ⟨n, hn, -⟩ := ctxRB_of_plug hm h.black
  exact ⟨ctx, c, a, b, n, by rw [hab], rep_plug_iff.mpr h.rep, hn⟩

/-- The children of a red node are black. -/
theorem RbInv.black_children (h : RbInv compare t T) (hp : p ∈ T.toList) (hred : t.red p = true)
    (d : Dir) : t.red (t.child d p) = false := by
  obtain ⟨ctx, c, a, b, n, -, hrep, hn⟩ := h.exists_rep hp d
  obtain ⟨hc, -, hd, -⟩ := hrep.fields
  obtain rfl : c = true := hc.symm.trans hred
  rw [hd, hrep.down.red_ptr]
  exact (rb_join_red.mp hn).2.2.1

/-- A child of a node is a node, and has it as its parent. -/
theorem RbInv.parent_child (h : RbInv compare t T) (hp : p ∈ T.toList) {d : Dir}
    (hne : t.child d p ≠ t.nil) : t.child d p ∈ T.toList ∧ t.parent (t.child d p) = p := by
  obtain ⟨ctx, c, a, b, n, rfl, hrep, -⟩ := h.exists_rep hp d
  obtain ⟨-, -, hd, -⟩ := hrep.fields
  rw [hd] at hne ⊢
  have hleaf : a ≠ .leaf := fun heq => hne (hrep.down.ptr_eq_nil.mpr heq)
  constructor
  · rw [toList_plug, List.mem_append, List.mem_append]
    exact .inl (.inr (mem_toList_join.mpr (.inl ((ptr_mem t a).resolve_left hleaf))))
  · exact hrep.down.parent_ptr fun heq => absurd heq hleaf

/-- A node is a child of its parent. -/
theorem RbInv.child_parent (h : RbInv compare t T) (hp : p ∈ T.toList) :
    t.parent p = t.root ∧ t.child .left t.root = p ∨
      t.parent p ∈ T.toList ∧ ∃ d, t.child d (t.parent p) = p := by
  obtain ⟨ctx, c, a, b, n, rfl, hrep, -⟩ := h.exists_rep hp .left
  obtain ⟨-, hpar, -, -⟩ := hrep.fields
  have hlinks := hrep.clinks
  rw [ptr_join] at hlinks
  rw [hpar]
  cases ctx with
  | nil => exact .inl ⟨rfl, hlinks⟩
  | cons f ctx =>
      refine .inr ⟨?_, f.dir, hlinks.2.2.1⟩
      rw [(toList_plug_perm _ _).mem_iff, List.mem_append]
      exact .inr (by simp [up, TreeCtx.entries])

end Nodes

/-! ## All nodes in order -/

/-- The recursion is that of the tree, so its size is a bound. -/
theorem Links.inorder {q fuel : ℕ} (h : Links t q T) (hnil : t.nil ∉ T.toList)
    (hfuel : T.toList.length ≤ fuel) : inorderTreeHelp t fuel (ptr t T) = some T.toList := by
  induction T generalizing q fuel with
  | leaf => cases fuel <;> simp [inorderTreeHelp, toList]
  | node c l x r ihl ihr =>
      obtain ⟨-, -, hl, hr, hll, hlr⟩ := h
      simp only [toList, List.mem_append, List.mem_cons, not_or] at hnil
      simp only [toList, List.length_append, List.length_cons] at hfuel
      obtain ⟨k, rfl⟩ : ∃ k, fuel = k + 1 := ⟨fuel - 1, by omega⟩
      have hptr : ptr t (.node c l x r) = x := rfl
      rw [hptr, inorderTreeHelp, if_neg (Ne.symm hnil.2.1)]
      simp only [hl, hr, ihl hll hnil.1 (show l.toList.length ≤ k by omega),
        ihr hlr hnil.2.2 (show r.toList.length ≤ k by omega), Option.bind_eq_bind, Option.bind_some,
        toList]

/-- **Every node is visited once, in order.** -/
theorem rbInorderTree_spec {fuel : ℕ} (h : Rep t [] T) (hfuel : T.toList.length ≤ fuel) :
    rbInorderTree fuel t = some T.toList := by
  have htop : t.child .left t.root = ptr t T := h.clinks
  rw [rbInorderTree, htop]
  exact h.links.inorder (fun hmem => h.nil_notMem (by simpa using Or.inl hmem)) hfuel

/-! ## Search -/

/-- The search goes below `S`, and everything else has another key. -/
def QueryInv (compare : K → K → Int) (t : RbTree K I) (k : K) (T : BinTree ℕ) (n x : ℕ) : Prop :=
  ∃ ctx S, S.toList.length = n ∧ plug ctx S = T ∧ ptr t S = x ∧
    ∀ p ∈ ctx.pre ++ ctx.post, compare (t.key p) k ≠ 0

namespace IsCompare

variable {a b k : K}

/-- What is below something smaller is not equal. -/
theorem ne_of_le_of_lt (hc : IsCompare compare) (h : compare a b ≠ 1) (h' : compare b k = -1) :
    compare a k ≠ 0 := by
  intro heq
  have hka : compare k a ≠ 1 := by
    rw [hc.swap, heq]
    decide
  refine hc.trans k a b hka h ?_
  rw [hc.swap, h']
  rfl

end IsCompare

/-- A step down. -/
theorem query_step {k : K} {n x : ℕ} (hc : IsCompare compare) (h : RbInv compare t T)
    (hinv : QueryInv compare t k T n x) (hx : x ≠ t.nil) (hne : compare (t.key x) k ≠ 0) :
    ∃ m < n, QueryInv compare t k T m
      (if compare (t.key x) k = 1 then t.child .left x else t.child .right x) := by
  obtain ⟨ctx, S, rfl, rfl, rfl, hother⟩ := hinv
  cases S with
  | leaf => exact absurd rfl hx
  | node c l x r =>
      have hlinks := (rep_plug_iff.mpr h.rep).links
      have hsorted := h.sorted
      rw [SortedKeys, toList_plug] at hsorted
      simp only [toList, List.pairwise_append, List.pairwise_cons, List.mem_append, List.mem_cons]
        at hsorted
      have hptr : ptr t (.node c l x r) = x := rfl
      rw [hptr] at hne ⊢
      by_cases hcmp : compare (t.key x) k = 1
      · rw [if_pos hcmp]
        refine ⟨l.toList.length, by simp [toList], ⟨.left, c, x, r⟩ :: ctx, l, rfl, rfl,
          hlinks.2.2.1.symm, ?_⟩
        intro p hp
        simp only [TreeCtx.pre, TreeCtx.post, List.mem_append, List.mem_cons, List.append_nil] at hp
        rcases hp with hp | (rfl | hp) | hp
        · exact hother p (by simp [hp])
        · exact hne
        · rw [hc.lt_of_lt_of_le hcmp (by grind)]
          decide
        · exact hother p (by simp [hp])
      · have hless : compare (t.key x) k = -1 := by
          have hv := hc.values (t.key x) k
          omega
        rw [if_neg hcmp]
        refine ⟨r.toList.length, by simp [toList]; omega, ⟨.right, c, x, l⟩ :: ctx, r, rfl, rfl,
          hlinks.2.2.2.1.symm, ?_⟩
        intro p hp
        simp only [TreeCtx.pre, TreeCtx.post, List.mem_append, List.mem_cons, List.not_mem_nil,
          or_false, List.nil_append] at hp
        rcases hp with (hp | hp | rfl) | hp
        · exact hother p (by simp [hp])
        · exact hc.ne_of_le_of_lt (by grind) hless
        · exact hne
        · exact hother p (by simp [hp])

/-- **The search** finds a node with the key, if there is one. -/
theorem rbExactQuery_spec {fuel : ℕ} (hc : IsCompare compare) (h : RbInv compare t T) (k : K)
    (hfuel : T.toList.length ≤ fuel) :
    ∃ r, rbExactQuery compare fuel t k = some r ∧
      (∀ x, r = some x → x ∈ T.toList ∧ compare (t.key x) k = 0) ∧
      (r = none → ∀ p ∈ T.toList, compare (t.key p) k ≠ 0) := by
  have hbody : ∀ n x, QueryInv compare t k T n x →
      (decide (x ≠ t.nil) && decide (compare (t.key x) k ≠ 0)) = true →
      ∃ m < n, QueryInv compare t k T m
        (if compare (t.key x) k = 1 then t.child .left x else t.child .right x) := by
    intro n x hinv hcond
    simp only [Bool.and_eq_true, decide_eq_true_eq] at hcond
    exact query_step hc h hinv hcond.1 hcond.2
  have hstart : QueryInv compare t k T T.toList.length (t.child .left t.root) :=
    ⟨[], T, rfl, rfl, h.rep.clinks.symm, by simp [TreeCtx.pre, TreeCtx.post]⟩
  obtain ⟨m, x, hloop, ⟨ctx, S, -, hplug, hx, hother⟩, hcond⟩ :=
    whileFuel_rule hbody hstart hfuel
  have hrep : Rep t ctx S := rep_plug_iff.mpr (hplug ▸ h.rep)
  have hrun : rbExactQuery compare fuel t k = some (if x = t.nil then none else some x) := by
    simp only [rbExactQuery, hloop, Option.bind_eq_bind, Option.bind_some]
  refine ⟨_, hrun, ?_, ?_⟩
  · intro y hy
    by_cases hxn : x = t.nil
    · simp [hxn] at hy
    · obtain rfl : x = y := by simpa [hxn] using hy
      have hS : S ≠ .leaf := fun heq => hxn (hx.symm.trans (hrep.ptr_eq_nil.mpr heq))
      refine ⟨?_, by simpa [hxn] using hcond⟩
      rw [← hplug, toList_plug, ← hx]
      simp [(ptr_mem t S).resolve_left hS]
  · intro hnone p hp
    have hxn : x = t.nil := by
      by_contra hne
      simp [hne] at hnone
    obtain rfl : S = .leaf := hrep.ptr_eq_nil.mp (hx.trans hxn)
    rw [← hplug, toList_plug] at hp
    exact hother p (by simpa [toList] using hp)

end CCode.Rb
