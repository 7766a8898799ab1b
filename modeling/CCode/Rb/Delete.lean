import CCode.Rb.Insert

/-!
# Deletion

`RBDelete` takes out a node with a leaf below it: the node itself, or else its successor,
which is put in its place afterwards. Where the node taken out was black, there is one black
node too few on the ways through its place. `RBDeleteFixUp` repairs that, with the node that
is to be deleted still in the tree, and reads the parent of the place from `nil` where the
place is a leaf.

A round of the loop works on a place whose tree is too low by one for its context. It paints
and moves up, or it ends with rotations; the root that was read before the loop may then be
the root no more, but it is black, and nothing is left to do.

## Main definitions

* `Short` — a tree that is too low by one.
* `DeleteInv` — the invariant of the loop.

## Main results

* `deleteFix_step` — a round keeps it.
* `rbDelete_spec` — what the operation does to the tree.
-/

namespace CCode.Rb

open CCode.Lib BinTree RbTree

variable {K I : Type} {t : RbTree K I}

/-! ## The cases of a round -/

section Round

variable {d : Dir} {c : Bool} {p w x k : ℕ} {a b T : BinTree ℕ} {ctx : TreeCtx ℕ}

/-- The parent of the place, where that of a leaf is at `nil`. -/
theorem Rep.parent_ptr {s : BinTree ℕ} (h : Rep t (⟨d, c, p, s⟩ :: ctx) T)
    (hleaf : T = .leaf → t.parent t.nil = p) : t.parent (ptr t T) = p := by
  cases T with
  | leaf => exact hleaf rfl
  | node c' l y r => exact h.links.2.1

/-- The test of the source looks at both children, whichever is the near one. -/
theorem bothBlack_eq (t : RbTree K I) (d : Dir) (w : ℕ) :
    (!t.red (t.child .right w) && !t.red (t.child .left w))
      = (!t.red (t.child d w) && !t.red (t.child d.flip w)) := by
  cases d with
  | left => exact Bool.and_comm _ _
  | right => rfl

/-- The far child of the sibling is red: one rotation, and everything is right. -/
theorem deleteFixFar_rep (root : ℕ) (h : Rep t (⟨d, c, p, join d false a w b⟩ :: ctx) T)
    (hx : t.parent x = p) (hb : b.isRed = true) :
    ∃ t', deleteFixFar d root t x w = (t', root) ∧ SamePayload t t' ∧
      Rep t' ctx (join d c (join d false T p a) w (b.paint false)) ∧
      ∀ r ∈ ctx.entries, t'.red r = t.red r := by
  obtain ⟨b₁, v, b₂, rfl⟩ := exists_join_of_isRed hb d
  have hpc : t.red p = c := h.frame_fields.1
  have hv : t.child d.flip w = v := by
    have hf := h.swap.fields.2.2.2
    rwa [ptr_join] at hf
  -- the sibling, the parent, and the far child are painted
  have h₁ := (h.swap.setRed c).swapBack
  have h₂ := (h₁.out.setRed false).down
  have h₃ := ((h₂.swap.down.swap).setRed false).swapBack
  have h₄ := h₃.out.swapBack
  have h₅ := h₄.out.rotate
  refine ⟨rotate d (((t.setRed w c).setRed p false).setRed v false) p, ?_, ?_, ?_, ?_⟩
  · simp only [deleteFixFar, hx, hpc, setRed_parent, setRed_child, hv]
  · exact (((setRed_samePayload t w c).trans (setRed_samePayload _ p false)).trans
      (setRed_samePayload _ v false)).trans (rotate_samePayload _ _ _)
  · rw [paint_join]
    exact h₅
  · intro r hr
    have hnot := h.out.notMem hr
    simp only [mem_toList_join, not_or] at hnot
    simp [hnot.2.1, hnot.2.2.2.1, hnot.2.2.2.2.2.1]

/-- The near child of the sibling is red and the far one black: a rotation below makes the far
one red. -/
theorem deleteFixBlack_near (root : ℕ) {a₁ a₂ : BinTree ℕ} {y : ℕ}
    (h : Rep t (⟨d, c, p, join d false (join d true a₁ y a₂) w b⟩ :: ctx) T)
    (hx : ptr t T = x) (hp : T = .leaf → t.parent t.nil = p) (hb : b.isRed = false) :
    ∃ t', deleteFixBlack d root t x w = (t', root) ∧ SamePayload t t' ∧
      Rep t' ctx (join d c (join d false T p a₁) y (join d false a₂ w b)) ∧
      ∀ r ∈ ctx.entries, t'.red r = t.red r := by
  obtain ⟨-, -, hwy, hwb⟩ := h.swap.fields
  rw [ptr_join] at hwy
  have hyred : t.red y = true := h.swap.down.fields.1
  have hbblack : t.red (ptr t b) = false := by rw [h.swap.down.swap.red_ptr, hb]
  -- the near child and the sibling are painted, and rotated
  have h₁ := ((h.swap.down.setRed false).out.setRed true)
  rw [← join_flip d true, ← join_flip d false] at h₁
  have hnil := h₁.rotate_parent_nil
  have h₂ := h₁.rotate
  rw [join_flip, join_flip] at h₂
  have h₃ := h₂.swapBack
  generalize ht₁ : rotate d.flip ((t.setRed y false).setRed w true) w = t₁ at hnil h₃
  have hpay : SamePayload t t₁ := by
    rw [← ht₁]
    exact ((setRed_samePayload t y false).trans (setRed_samePayload _ w true)).trans
      (rotate_samePayload _ _ _)
  have hx₁ : t₁.parent x = p := by
    rw [← hx, ← ptr_congr hpay.nil]
    refine h₃.parent_ptr fun hleaf => ?_
    rw [hpay.nil]
    exact hnil.trans (hp hleaf)
  have hw₁ : t₁.child d.flip p = y := h₃.sibling
  obtain ⟨t', ht', hpay', hrep, hred⟩ := deleteFixFar_rep root h₃ hx₁ (by simp)
  refine ⟨t', ?_, hpay.trans hpay', ?_, ?_⟩
  · rw [deleteFixBlack, bothBlack_eq t d]
    simp only [hwy, hyred, Bool.not_true, Bool.false_and, hwb, hbblack, Bool.not_false,
      if_true, Bool.false_eq_true, if_false, ht₁, hx₁, hw₁, ht']
  · rw [paint_join] at hrep
    exact hrep
  · intro r hr
    have hnot := h.out.notMem hr
    simp only [mem_toList_join, not_or] at hnot
    rw [hred r hr, ← ht₁]
    simp [hnot.2.2.1.2.1, hnot.2.2.2.1]

/-- The far child of the sibling is red. -/
theorem deleteFixBlack_far (root : ℕ) (h : Rep t (⟨d, c, p, join d false a w b⟩ :: ctx) T)
    (hx : t.parent x = p) (hb : b.isRed = true) :
    ∃ t', deleteFixBlack d root t x w = (t', root) ∧ SamePayload t t' ∧
      Rep t' ctx (join d c (join d false T p a) w (b.paint false)) ∧
      ∀ r ∈ ctx.entries, t'.red r = t.red r := by
  obtain ⟨-, -, -, hwb⟩ := h.swap.fields
  have hbred : t.red (t.child d.flip w) = true := by rw [hwb, h.swap.down.swap.red_ptr, hb]
  obtain ⟨t', ht', hrest⟩ := deleteFixFar_rep root h hx hb
  refine ⟨t', ?_, hrest⟩
  rw [deleteFixBlack, bothBlack_eq t d]
  simp only [hbred, Bool.not_true, Bool.and_false, Bool.false_eq_true, if_false, ht']

/-- Both children of the sibling are black: it is painted, and the place moves up. -/
theorem deleteFixBlack_both (root : ℕ) (h : Rep t (⟨d, c, p, join d false a w b⟩ :: ctx) T)
    (hx : t.parent x = p) (ha : a.isRed = false) (hb : b.isRed = false) :
    deleteFixBlack d root t x w = (t.setRed w true, p) ∧
      Rep (t.setRed w true) ctx (join d c T p (join d true a w b)) := by
  obtain ⟨-, -, hwa, hwb⟩ := h.swap.fields
  have hared : t.red (t.child d w) = false := by rw [hwa, h.swap.down.red_ptr, ha]
  have hbred : t.red (t.child d.flip w) = false := by rw [hwb, h.swap.down.swap.red_ptr, hb]
  constructor
  · rw [deleteFixBlack, bothBlack_eq t d]
    simp only [hared, hbred, Bool.not_false, Bool.and_self, if_true, setRed_parent, hx]
  · exact (h.swap.setRed true).swapBack.out

end Round

/-! ## The loop -/

/-- A tree that is too low by one: it will do when it is painted black, or when its context
gets lower. -/
def Short (T : BinTree ℕ) (k : ℕ) : Prop :=
  T.isRed = true ∧ (T.paint false).RB (k + 1) ∨ T.isRed = false ∧ T.RB k

/-- The place with its tree, which is too low by one for its context. `root` is the root, and `n`
the depth of the place, unless the loop is about to end. -/
def DeleteInv (t₀ : RbTree K I) (L : List ℕ) (root n : ℕ) (s : RbTree K I × ℕ) : Prop :=
  ∃ ctx T k, Rep s.1 ctx T ∧ ptr s.1 T = s.2 ∧ s.1.parent s.2 = up s.1 ctx ∧
    Short T k ∧ CtxRB ctx (k + 1) ∧ (plug ctx T).toList = L ∧ SamePayload t₀ s.1 ∧
    (T.isRed = true ∨ ctx.length = n ∧ s.1.child .left s.1.root = root)

/-- The tree is as it has to be, and `root` is black. -/
def DeleteDone (t₀ : RbTree K I) (L : List ℕ) (root : ℕ) (s : RbTree K I × ℕ) : Prop :=
  s.2 = root ∧ s.1.red root = false ∧ SamePayload t₀ s.1 ∧
    ∃ W m, Rep s.1 [] W ∧ W.RB m ∧ W.isRed = false ∧ W.toList = L

section Step

variable {t₀ : RbTree K I} {L : List ℕ} {root p x k n : ℕ} {d : Dir} {c : Bool} {T : BinTree ℕ}
  {ctx : TreeCtx ℕ}

/-- The end of the loop: a tree of the right height is in the place of the parent. -/
theorem DeleteDone.of_rep {t' : RbTree K I} {S : BinTree ℕ} (hpay : SamePayload t₀ t')
    (hrep : Rep t' ctx S) (hcol : S.isRed = c) (hS : S.RB (if c then k else k + 1))
    (hctx : if c then TopBlack ctx ∧ CtxRB ctx k else CtxRB ctx (k + 1))
    (hlist : (plug ctx S).toList = L) (hroot : t'.red root = false) :
    DeleteDone t₀ L root (t', root) := by
  have hwhole := rep_plug_iff.mp hrep
  cases c with
  | true =>
      obtain ⟨⟨m, hm⟩, hblack⟩ := hctx.2.plug_rb hS fun _ => hctx.1
      exact ⟨rfl, hroot, hpay, _, m, hwhole, hm, hblack, hlist⟩
  | false =>
      obtain ⟨⟨m, hm⟩, hblack⟩ := CtxRB.plug_rb hctx hS fun hred => by
        rw [hcol] at hred
        cases hred
      exact ⟨rfl, hroot, hpay, _, m, hwhole, hm, hblack, hlist⟩

/-- A round with a black sibling. -/
theorem deleteFixBlack_step {a b : BinTree ℕ} {w : ℕ}
    (h : Rep t (⟨d, c, p, join d false a w b⟩ :: ctx) T) (hx : ptr t T = x)
    (hp : T = .leaf → t.parent t.nil = p) (hT : T.RB k)
    (hctx : CtxRB (⟨d, c, p, join d false a w b⟩ :: ctx) (k + 1))
    (hlist : (plug ctx (join d c T p (join d false a w b))).toList = L)
    (hpay : SamePayload t₀ t) (htop : c = true ∨ ctx.length = n ∧ t.child .left t.root = root)
    (hroot : root = p ∨ root ∈ ctx.entries ∧ t.red root = false) :
    DeleteInv t₀ L root n (deleteFixBlack d root t x w) ∨
      DeleteDone t₀ L root (deleteFixBlack d root t x w) := by
  have hpx : t.parent x = p := hx ▸ h.parent_ptr hp
  obtain ⟨ha, hb⟩ := rb_join_black_succ.mp hctx.1
  have hctx' : if c then TopBlack ctx ∧ CtxRB ctx (k + 1) else CtxRB ctx (k + 1 + 1) := by
    cases c with
    | true => exact hctx.2.2
    | false => exact hctx.2
  cases hbred : b.isRed with
  | true =>
      obtain ⟨t', ht', hpay', hrep, hred⟩ := deleteFixBlack_far root h hpx hbred
      have hbp : (b.paint false).RB (k + 1) := by
        obtain ⟨b₁, v, b₂, rfl⟩ := exists_join_of_isRed hbred d
        obtain ⟨h₁, h₂, -⟩ := rb_join_red.mp hb
        simp [h₁, h₂]
      rw [ht']
      refine .inr (DeleteDone.of_rep (hpay.trans hpay') hrep (by simp) ?_ hctx' ?_ ?_)
      · cases c <;> simp [hT, ha, hbp, isRed_paint]
      · rw [← hlist]
        refine toList_plug_congr ctx ?_
        rw [toList_rotate d false c c false]
        exact toList_join_congr _ _ _ rfl (toList_join_congr _ _ _ rfl (toList_paint false b))
      · rcases hroot with rfl | hroot
        · exact hrep.down.fields.1
        · rw [hred root hroot.1, hroot.2]
  | false =>
      cases hared : a.isRed with
      | true =>
          obtain ⟨a₁, y, a₂, rfl⟩ := exists_join_of_isRed hared d
          obtain ⟨h₁, h₂, hb₁, hb₂⟩ := rb_join_red.mp ha
          obtain ⟨t', ht', hpay', hrep, hred⟩ := deleteFixBlack_near root h hx hp hbred
          rw [ht']
          refine .inr (DeleteDone.of_rep (hpay.trans hpay') hrep (by simp) ?_ hctx' ?_ ?_)
          · cases c <;> simp [hT, h₁, h₂, hb]
          · rw [← hlist]
            refine toList_plug_congr ctx ?_
            cases d <;> simp [join, toList]
          · rcases hroot with rfl | hroot
            · exact hrep.down.fields.1
            · rw [hred root hroot.1, hroot.2]
      | false =>
          obtain ⟨heq, hrep⟩ := deleteFixBlack_both root h hpx hared hbred
          rw [heq]
          refine .inl ⟨ctx, _, if c then k else k + 1, hrep, by simp, ?_, ?_, ?_, ?_, ?_, ?_⟩
          · exact hrep.fields.2.1
          · cases c with
            | true => exact .inl ⟨by simp, by simp [hT, ha, hb, hared, hbred]⟩
            | false => exact .inr ⟨by simp, by simp [hT, ha, hb, hared, hbred]⟩
          · cases c with
            | true => exact hctx'.2
            | false => exact hctx'
          · rw [← hlist]
            refine toList_plug_congr ctx ?_
            exact toList_join_congr _ _ _ rfl (toList_join_color _ _ _ _ _ _)
          · exact hpay.trans (setRed_samePayload t w true)
          · rcases htop with rfl | htop
            · exact .inl (by simp)
            · exact .inr htop

/-- The root of the whole is the node above the place, or black. -/
theorem Rep.root_cases {f : TreeFrame ℕ} (h : Rep t (f :: ctx) T) (hctx : CtxRB (f :: ctx) k) :
    t.child .left t.root = f.x ∨
      t.child .left t.root ∈ ctx.entries ∧ t.red (t.child .left t.root) = false := by
  have hwhole := rep_plug_iff.mp h
  have hptr : t.child .left t.root = ptr t (plug (f :: ctx) T) := hwhole.clinks
  rw [hptr, hwhole.red_ptr]
  rcases ptr_plug ctx (f.fill T) with heq | hmem
  · refine .inl (heq.trans ?_)
    exact ptr_join ..
  · exact .inr ⟨hmem, hctx.isRed_plug (by simp) T⟩

/-- A round with a red sibling: after a rotation it is one with a black sibling. -/
theorem deleteFix_redSibling {a b : BinTree ℕ} {w : ℕ}
    (h : Rep t (⟨d, false, p, join d true a w b⟩ :: ctx) T) (hx : ptr t T = x)
    (hp : t.parent x = p) (hT : T.RB k)
    (hctx : CtxRB (⟨d, false, p, join d true a w b⟩ :: ctx) (k + 1))
    (hlist : (plug ctx (join d false T p (join d true a w b))).toList = L)
    (hpay : SamePayload t₀ t) (hroot : root = p ∨ root ∈ ctx.entries ∧ t.red root = false) :
    DeleteInv t₀ L root n (deleteFix d root t x) ∨ DeleteDone t₀ L root (deleteFix d root t x) := by
  obtain ⟨hW, hrest⟩ := hctx
  obtain ⟨ha, hb, hared, hbred⟩ := rb_join_red.mp hW
  obtain ⟨ca, a₁, v, a₂, rfl⟩ := ha.exists_join d
  obtain rfl : ca = false := (isRed_join ..).symm.trans hared
  have hpw : t.child d.flip p = w := h.sibling
  have hwred : t.red w = true := h.swap.fields.1
  have h₁ := (h.swap.setRed false).swapBack
  have h₂ := h₁.out.setRed true
  have hnil := h₂.rotate_parent_nil
  have h₃ := h₂.rotate.down.down
  generalize ht₁ : rotate d ((t.setRed w false).setRed p true) p = t₁ at hnil h₃
  have hpay₁ : SamePayload t t₁ := by
    rw [← ht₁]
    exact ((setRed_samePayload t w false).trans (setRed_samePayload _ p true)).trans
      (rotate_samePayload _ _ _)
  have hx₁ : ptr t₁ T = x := (ptr_congr hpay₁.nil T).trans hx
  have hp₁ : T = .leaf → t₁.parent t₁.nil = p := by
    rintro rfl
    rw [hpay₁.nil]
    refine hnil.trans ?_
    rw [← hp, ← hx]
    rfl
  have hpx₁ : t₁.parent x = p := hx₁ ▸ h₃.parent_ptr hp₁
  have hw₁ : t₁.child d.flip p = v := h₃.sibling
  have heq : deleteFix d root t x = deleteFixBlack d root t₁ x v := by
    simp only [deleteFix, hp, hpw, hwred, if_true, setRed_parent, ht₁, hpx₁, hw₁]
  rw [heq]
  refine deleteFixBlack_step h₃ hx₁ hp₁ hT ⟨ha, hared, rfl, hb, hrest⟩ ?_ (hpay.trans hpay₁)
    (.inl rfl) ?_
  · rw [← hlist]
    exact toList_plug_congr ctx (toList_rotate ..)
  · rcases hroot with rfl | ⟨hmem, hblack⟩
    · exact .inl rfl
    · refine .inr ⟨?_, ?_⟩
      · simp only [TreeCtx.entries, List.flatMap_cons, List.mem_append]
        exact .inr hmem
      · have hnot := h.out.notMem hmem
        simp only [mem_toList_join, not_or] at hnot
        rw [← ht₁]
        simp [hnot.2.1, hnot.2.2.2.1, hblack]

/-- **A round** makes the way to the root shorter, or is the last. -/
theorem deleteFix_step {s : RbTree K I × ℕ} (h : DeleteInv t₀ L root n s)
    (hred : s.1.red s.2 = false) (hne : root ≠ s.2) :
    ∃ m < n, DeleteInv t₀ L root m (deleteFix (side s.1 s.2) root s.1 s.2) ∨
      DeleteDone t₀ L root (deleteFix (side s.1 s.2) root s.1 s.2) := by
  obtain ⟨t, x⟩ := s
  obtain ⟨ctx, T, k, hrep, hx, hpar, hshort, hctx, hlist, hpay, hend⟩ := h
  dsimp only at *
  have hTb : T.isRed = false := by
    rw [← hrep.red_ptr, hx]
    exact hred
  have hT : T.RB k := by
    rcases hshort with ⟨hTr, -⟩ | ⟨-, hT⟩
    · rw [hTb] at hTr
      cases hTr
    · exact hT
  obtain ⟨rfl, hroot⟩ := hend.resolve_left (by simp [hTb])
  cases ctx with
  | nil => exact absurd (hroot.symm.trans (hrep.clinks.trans hx)) hne
  | cons f ctx =>
      obtain ⟨d, c, p, W⟩ := f
      have hp : t.parent x = p := hpar
      obtain ⟨cw, a, w, b, rfl⟩ := hctx.1.exists_join d
      have hside : side t x = d := by
        have heq := hrep.side_eq (.inr (by cases d <;> simp [join]))
        rw [hx] at heq
        rw [side, hp, heq]
      have hcases := hroot ▸ hrep.root_cases hctx
      rw [hside]
      refine ⟨ctx.length, by simp, ?_⟩
      cases cw with
      | true =>
          obtain rfl : c = false := by
            cases c with
            | false => rfl
            | true => exact absurd hctx.2.1 (by simp)
          exact deleteFix_redSibling hrep hx hp hT hctx hlist hpay hcases
      | false =>
          have hpw : t.child d.flip p = w := hrep.sibling
          have hwblack : t.red w = false := hrep.swap.fields.1
          have heq : deleteFix d root t x = deleteFixBlack d root t x w := by
            simp only [deleteFix, hp, hpw, hwblack, Bool.false_eq_true, if_false]
          rw [heq]
          refine deleteFixBlack_step hrep hx ?_ hT hctx hlist hpay (.inr ⟨rfl, hroot⟩) hcases
          rintro rfl
          rw [← hp, ← hx]
          rfl

end Step

/-! ## The fix-up -/

theorem RbTree.setRed_self {p : ℕ} {c : Bool} (h : t.red p = c) : t.setRed p c = t := by
  subst h
  simp [RbTree.setRed]

/-- The place that is left when the loop ends at the root. -/
theorem Rep.eq_nil_of_root {ctx : TreeCtx ℕ} {T : BinTree ℕ} (h : Rep t ctx T)
    (hroot : t.child .left t.root = ptr t T) : ctx = [] := by
  cases ctx with
  | nil => rfl
  | cons f ctx =>
      exfalso
      have hptr : t.child .left t.root = ptr t (plug (f :: ctx) T) := (rep_plug_iff.mp h).clinks
      have hmem : ptr t T ∈ TreeCtx.entries (f :: ctx) := by
        rw [← hroot, hptr]
        simp only [TreeCtx.entries, List.flatMap_cons, List.cons_append, List.mem_cons,
          List.mem_append]
        rcases ptr_plug ctx (f.fill T) with heq | hmem
        · exact .inl (heq.trans (ptr_join ..))
        · exact .inr (.inr hmem)
      rcases ptr_mem t T with rfl | hT
      · exact h.nil_notMem (List.mem_append_right _ hmem)
      · exact h.notMem hmem hT

/-- **The fix-up**, with a place that is too low by one. -/
theorem rbDeleteFixUp_spec {ctx : TreeCtx ℕ} {T : BinTree ℕ} {k fuel : ℕ} (h : Rep t ctx T)
    (hpar : t.parent (ptr t T) = up t ctx) (hshort : Short T k) (hctx : CtxRB ctx (k + 1))
    (hfuel : ctx.length ≤ fuel) :
    ∃ t' W m, rbDeleteFixUp fuel t (ptr t T) = some t' ∧ SamePayload t t' ∧ Rep t' [] W ∧
      W.RB m ∧ W.isRed = false ∧ W.toList = (plug ctx T).toList := by
  generalize hroot : t.child .left t.root = root
  generalize hL : (plug ctx T).toList = L
  have hbody : ∀ n s, DeleteInv t L root n s ∨ DeleteDone t L root s →
      (!s.1.red s.2 && decide (root ≠ s.2)) = true →
      ∃ m < n, DeleteInv t L root m (deleteFix (side s.1 s.2) root s.1 s.2) ∨
        DeleteDone t L root (deleteFix (side s.1 s.2) root s.1 s.2) := by
    intro n s hs hcond
    simp only [Bool.and_eq_true, Bool.not_eq_true', decide_eq_true_eq] at hcond
    rcases hs with hs | hs
    · exact deleteFix_step hs hcond.1 hcond.2
    · exact absurd hs.1.symm hcond.2
  have hinv : DeleteInv t L root ctx.length (t, ptr t T) :=
    ⟨ctx, T, k, h, rfl, hpar, hshort, hctx, hL, .refl t, .inr ⟨rfl, hroot⟩⟩
  obtain ⟨m, ⟨t₁, x⟩, hloop, hend, hcond⟩ :=
    whileFuel_rule (P := fun n s => DeleteInv t L root n s ∨ DeleteDone t L root s) hbody
      (.inl hinv) hfuel
  have hrun : rbDeleteFixUp fuel t (ptr t T) = some (t₁.setRed x false) := by
    simp only [rbDeleteFixUp, hroot, hloop, Option.bind_eq_bind, Option.bind_some]
  rw [hrun]
  rcases hend with ⟨ctx₁, T₁, k₁, hrep, hx, -, hshort₁, hctx₁, hlist, hpay, hend⟩ | hdone
  · dsimp only at *
    rcases hshort₁ with ⟨hTr, hT⟩ | ⟨hTb, hT⟩
    · -- a red node is painted black
      obtain ⟨a, y, b, rfl⟩ := exists_join_of_isRed hTr .left
      obtain rfl : y = x := (ptr_join ..).symm.trans hx
      rw [paint_join] at hT
      obtain ⟨⟨m', hm'⟩, hblack⟩ := hctx₁.plug_rb hT (by simp)
      refine ⟨_, _, m', rfl, hpay.trans (setRed_samePayload _ _ _),
        rep_plug_iff.mp (hrep.setRed false), hm', hblack, ?_⟩
      rw [← hlist]
      exact toList_plug_congr ctx₁ (toList_join_color ..)
    · -- the whole tree is lower
      obtain ⟨-, hroot₁⟩ := hend.resolve_left (by simp [hTb])
      have hxb : t₁.red x = false := by rw [← hx, hrep.red_ptr, hTb]
      have hxr : root = x := by simpa [hxb] using hcond
      obtain rfl := hrep.eq_nil_of_root (hroot₁.trans (hxr.trans hx.symm))
      rw [RbTree.setRed_self hxb]
      exact ⟨t₁, T₁, k₁, rfl, hpay, hrep, hT, hTb, hlist⟩
  · obtain ⟨rfl, hblack, hpay, W, m', hrep, hm', hWb, hlist⟩ := hdone
    dsimp only at *
    rw [RbTree.setRed_self hblack]
    exact ⟨t₁, W, m', rfl, hpay, hrep, hm', hWb, hlist⟩

/-! ## Splicing out -/

/-- **A node with a leaf below it is replaced by its other child**, which learns its new parent
also where it is a leaf. -/
theorem Rep.splice {ctx : TreeCtx ℕ} {e : Dir} {c : Bool} {y : ℕ} {X : BinTree ℕ}
    (h : Rep t ctx (join e c .leaf y X)) :
    SamePayload t (Rb.splice t y (ptr t X)) ∧ (Rb.splice t y (ptr t X)).red = t.red ∧
      Rep (Rb.splice t y (ptr t X)) ctx X ∧
      (Rb.splice t y (ptr t X)).parent (ptr t X) = up t ctx := by
  obtain ⟨hnodup, hroot, hnil, hrn, hrb, hnb, hlinks, hclinks⟩ := h
  obtain ⟨-, hpy, -, -, -, hlX⟩ := links_join.mp hlinks
  rw [ptr_join] at hclinks
  have hperm : ((join e c .leaf y X).toList ++ ctx.entries).Perm
      (y :: (X.toList ++ ctx.entries)) := by
    refine ((toList_join_perm e c .leaf y X).append_right _).trans ?_
    simp [toList]
  have hn := hperm.nodup_iff.mp hnodup
  have hr : t.root ∉ y :: (X.toList ++ ctx.entries) := fun hm => hroot (hperm.mem_iff.mpr hm)
  have hl : t.nil ∉ y :: (X.toList ++ ctx.entries) := fun hm => hnil (hperm.mem_iff.mpr hm)
  simp only [List.nodup_append, List.nodup_cons, List.mem_append, List.mem_cons, ne_eq, not_or]
    at hn hr hl
  have hXmem := ptr_mem t X
  have hup := up_mem t ctx
  have hyX : y ≠ ptr t X := by grind [ptr]
  have hXc : ptr t X ∉ ctx.entries := by grind [ptr]
  have hupX : up t ctx ∉ X.toList := by grind
  -- the two branches write to the same field
  have hbefore : CLinks (t.setParent (ptr t X) (up t ctx)) ctx y := by
    refine hclinks.congr rfl rfl rfl fun p hp => ⟨rfl, ?_, fun _ => rfl⟩
    have hne : p ≠ ptr t X := fun heq => hXc (heq ▸ hp)
    simp [hne]
  have hup₁ : up (t.setParent (ptr t X) (up t ctx)) ctx = up t ctx := up_congr rfl ctx
  have heq : Rb.splice t y (ptr t X)
      = (t.setParent (ptr t X) (up t ctx)).setChild (holeDir ctx) (up t ctx) (ptr t X) := by
    have hpy' : (t.setParent (ptr t X) (up t ctx)).parent y = up t ctx := by simp [hyX, hpy]
    simp only [Rb.splice, hpy, hpy']
    split_ifs with htop
    · have hctx : ctx = [] := by
        cases ctx with
        | nil => rfl
        | cons f ctx =>
            have hfx : t.root = f.x := htop
            exact absurd (by simp [TreeCtx.entries, hfx]) hr.2.2
      subst hctx
      rfl
    · have hrc := hbefore.replaceChild_eq (ptr t X) (by grind) (by grind [setParent_nil])
      rw [hup₁] at hrc
      exact hrc
  rw [heq]
  have hup₂ : up ((t.setParent (ptr t X) (up t ctx)).setChild (holeDir ctx) (up t ctx) (ptr t X))
      ctx = up t ctx := up_congr rfl ctx
  refine ⟨⟨rfl, rfl, rfl, rfl⟩, rfl, ?_, by simp⟩
  constructor
  · rw [List.nodup_append]
    exact ⟨hn.2.1, hn.2.2.1, hn.2.2.2⟩
  · simpa using ⟨hr.2.1, hr.2.2⟩
  · simpa using ⟨hl.2.1, hl.2.2⟩
  · exact hrn
  · exact hrb
  · exact hnb
  · rw [hup₂]
    refine hlX.reparent hn.2.1 (.inl (by simp)) (fun _ _ => rfl) rfl ?_ ?_
    · intro p hp d
      have hne : p ≠ up t ctx := fun heq => hupX (heq ▸ hp)
      simp [hne]
    · intro p hp hne
      simp [hne]
  · have hafter := hbefore.setHole (ptr t X) (by simpa using hr.2.2) hn.2.2.1
    rw [hup₁] at hafter
    exact hafter

/-- The first half of `RBDelete`: the node is spliced out, and what is wrong then is repaired. -/
theorem spliceFix_spec {ctx : TreeCtx ℕ} {e : Dir} {c : Bool} {y m fuel : ℕ} {X : BinTree ℕ}
    (h : Rep t ctx (join e c .leaf y X)) (hrb : (plug ctx (join e c .leaf y X)).RB m)
    (hblack : (plug ctx (join e c .leaf y X)).isRed = false) (hfuel : ctx.length ≤ fuel) :
    ∃ t' W m', (if !(splice t y (ptr t X)).red y then
        rbDeleteFixUp fuel (splice t y (ptr t X)) (ptr t X)
      else some (splice t y (ptr t X))) = some t' ∧
      SamePayload t t' ∧ Rep t' [] W ∧ W.RB m' ∧ W.isRed = false ∧
      W.toList = (plug ctx X).toList := by
  obtain ⟨hpay, hred, hrep, hpar⟩ := h.splice
  have hy : t.red y = c := h.fields.1
  obtain ⟨k, hk, hctx, htop⟩ := ctxRB_of_plug hrb hblack
  generalize splice t y (ptr t X) = t₁ at hpay hred hrep hpar ⊢
  rw [hred, hy]
  cases c with
  | true =>
      obtain ⟨-, hX, -, hXb⟩ := rb_join_red.mp hk
      obtain ⟨⟨m', hm'⟩, hWb⟩ := hctx.plug_rb hX (by simp [hXb])
      exact ⟨t₁, _, m', rfl, hpay, rep_plug_iff.mp hrep, hm', hWb, rfl⟩
  | false =>
      obtain ⟨k', rfl, -, hX⟩ := rb_join_black.mp hk
      have hshort : Short X k' := by
        cases hXr : X.isRed with
        | false => exact .inr ⟨hXr, hX⟩
        | true =>
            obtain ⟨a, x, b, rfl⟩ := exists_join_of_isRed hXr .left
            obtain ⟨ha, hb, -⟩ := rb_join_red.mp hX
            refine .inl ⟨hXr, ?_⟩
            rw [paint_join]
            exact rb_join_black_succ.mpr ⟨ha, hb⟩
      have hptr : ptr t₁ X = ptr t X := ptr_congr hpay.nil X
      rw [← hptr, ← up_congr hpay.root] at hpar
      obtain ⟨t', W, m', hrun, hpay', hrest⟩ := rbDeleteFixUp_spec hrep hpar hshort hctx hfuel
      rw [hptr] at hrun
      exact ⟨t', W, m', hrun, hpay.trans hpay', hrest⟩

/-! ## The successor -/

/-- A subtree with the address `nil` is a leaf. -/
theorem Rep.ptr_eq_nil {ctx : TreeCtx ℕ} {T : BinTree ℕ} (h : Rep t ctx T) :
    ptr t T = t.nil ↔ T = .leaf := by
  constructor
  · intro heq
    rcases ptr_mem t T with hleaf | hmem
    · exact hleaf
    · rw [heq] at hmem
      exact absurd (List.mem_append_left _ hmem) h.nil_notMem
  · rintro rfl
    rfl

/-- **The successor of a node with a right child** is a node without a left child, and `z` is
right before it. -/
theorem treeSuccessor_spec {ctx : TreeCtx ℕ} {c : Bool} {l r : BinTree ℕ} {z fuel : ℕ}
    (h : Rep t ctx (.node c l z r)) (hr : r ≠ .leaf) (hfuel : r.toList.length ≤ fuel) :
    ∃ y ctx' c' X, treeSuccessor fuel t z = some y ∧ Rep t ctx' (join .left c' .leaf y X) ∧
      plug ctx' (join .left c' .leaf y X) = plug ctx (.node c l z r) ∧
      ctx'.pre = ctx.pre ++ l.toList ++ [z] := by
  have hwhole := rep_plug_iff.mp h
  have hright : Rep t (⟨.right, c, z, l⟩ :: ctx) r := rep_cons_iff.mpr h
  have hzr : t.child .right z = ptr t r := h.links.2.2.2.1
  -- the place moves down to the left
  let P : ℕ → ℕ → Prop := fun n y => ∃ ctx' S, S.toList.length = n ∧ S ≠ .leaf ∧ ptr t S = y ∧
    plug ctx' S = plug ctx (.node c l z r) ∧ ctx'.pre = ctx.pre ++ l.toList ++ [z]
  have hbody : ∀ n y, P n y → decide (t.child .left y ≠ t.nil) = true →
      ∃ m < n, P m (t.child .left y) := by
    rintro n y ⟨ctx', S, rfl, hS, rfl, hplug, hpre⟩ hcond
    cases S with
    | leaf => exact absurd rfl hS
    | node cs a y b =>
        have hrep : Rep t ctx' (.node cs a y b) := rep_plug_iff.mpr (hplug ▸ hwhole)
        have hya : t.child .left y = ptr t a := hrep.links.2.2.1
        refine ⟨a.toList.length, by simp [toList], ⟨.left, cs, y, b⟩ :: ctx', a, rfl, ?_, ?_, ?_,
          ?_⟩
        · rintro rfl
          exact absurd hya (of_decide_eq_true hcond)
        · exact hya.symm
        · exact hplug
        · simpa [TreeCtx.pre] using hpre
  have hstart : P r.toList.length (t.child .right z) :=
    ⟨⟨.right, c, z, l⟩ :: ctx, r, rfl, hr, hzr.symm, rfl, by simp [TreeCtx.pre]⟩
  obtain ⟨m, y, hloop, ⟨ctx', S, -, hS, rfl, hplug, hpre⟩, hcond⟩ :=
    whileFuel_rule hbody hstart hfuel
  have hrep : Rep t ctx' S := rep_plug_iff.mpr (hplug ▸ hwhole)
  cases S with
  | leaf => exact absurd rfl hS
  | node cs a y b =>
      obtain rfl : a = .leaf := by
        refine (Rep.down (d := .left) hrep).ptr_eq_nil.mp ?_
        rw [← hrep.links.2.2.1]
        exact not_not.mp (of_decide_eq_false hcond)
      refine ⟨y, ctx', cs, b, ?_, hrep, hplug, hpre⟩
      have hne : t.nil ≠ t.child .right z := by
        rw [hzr]
        exact fun heq => hr (hright.ptr_eq_nil.mp heq.symm)
      rw [treeSuccessor, if_pos hne]
      exact hloop

/-! ## Taking the place of a node -/

/-- **A node that is not in the tree takes the place of one that is.** -/
theorem Rep.relink {ctx : TreeCtx ℕ} {c : Bool} {l r : BinTree ℕ} {y z : ℕ}
    (h : Rep t ctx (.node c l z r)) (hy : y ∉ (BinTree.node c l z r).toList ++ ctx.entries)
    (hroot : y ≠ t.root) (hnil : y ≠ t.nil) :
    SamePayload t (Rb.relink t z y) ∧ Rep (Rb.relink t z y) ctx (.node c l y r) := by
  obtain ⟨hnodup, hroot', hnil', hrn, hrb, hnb, ⟨hcz, hpz, hzl, hzr, hll, hlr⟩, hclinks⟩ := h
  simp only [toList, List.nodup_append, List.nodup_cons, List.mem_append, List.mem_cons, ne_eq,
    not_or] at hnodup hroot' hnil' hy
  have hlmem := ptr_mem t l
  have hrmem := ptr_mem t r
  have hup := up_mem t ctx
  have hzl' : z ≠ ptr t l := by grind [ptr]
  have hzr' : z ≠ ptr t r := by grind [ptr]
  have hyl : y ≠ ptr t l := by grind [ptr]
  have hyr : y ≠ ptr t r := by grind [ptr]
  have hlc : ptr t l ∉ ctx.entries := by grind [ptr]
  have hrc : ptr t r ∉ ctx.entries := by grind [ptr]
  -- the assignments before the child of the parent is replaced
  generalize hpre : (((((t.setChild .left y (ptr t l)).setChild .right y (ptr t r)).setParent y
    (up t ctx)).setRed y c).setParent (ptr t r) y).setParent (ptr t l) y = t₁
  have hpay : SamePayload t t₁ := by
    rw [← hpre]
    refine SamePayload.trans ?_ (setParent_samePayload _ _ _)
    refine SamePayload.trans ?_ (setParent_samePayload _ _ _)
    refine SamePayload.trans ?_ (setRed_samePayload _ _ _)
    refine SamePayload.trans ?_ (setParent_samePayload _ _ _)
    exact (setChild_samePayload _ _ _ _).trans (setChild_samePayload _ _ _ _)
  have hroot₁ : t₁.root = t.root := hpay.root
  have hnil₁ : t₁.nil = t.nil := hpay.nil
  have hred₁ : ∀ p, p ≠ y → t₁.red p = t.red p := by
    intro p hp
    rw [← hpre]
    simp [hp]
  have hchild₁ : ∀ p, p ≠ y → ∀ d, t₁.child d p = t.child d p := by
    intro p hp d
    rw [← hpre]
    simp [hp]
  have hpar₁ : ∀ p, p ≠ y → p ≠ ptr t l → p ≠ ptr t r → t₁.parent p = t.parent p := by
    intro p hp hpl hpr
    rw [← hpre]
    simp [hp, hpl, hpr]
  have hup₁ : up t₁ ctx = up t ctx := up_congr hroot₁ ctx
  have hbefore : CLinks t₁ ctx z := by
    refine hclinks.congr hnil₁ hroot₁ (hchild₁ _ (Ne.symm hroot) _) fun p hp => ?_
    have hpy : p ≠ y := fun heq => hy.2 (heq ▸ hp)
    exact ⟨hred₁ p hpy, hpar₁ p hpy (fun heq => hlc (heq ▸ hp)) fun heq => hrc (heq ▸ hp),
      hchild₁ p hpy⟩
  have heq : Rb.relink t z y = t₁.setChild (holeDir ctx) (up t ctx) y := by
    have hreplace := hbefore.replaceChild_eq y (by grind) (by grind)
    rw [hup₁] at hreplace
    rw [← hreplace, ← hpre]
    simp [Rb.relink, hzl, hzr, hpz, hcz, hzl', hzr', Ne.symm hy.1.2.1]
  rw [heq]
  have hup₂ : up (t₁.setChild (holeDir ctx) (up t ctx) y) ctx = up t ctx := up_congr hroot₁ ctx
  have hnil₂ : (t₁.setChild (holeDir ctx) (up t ctx) y).nil = t.nil := hnil₁
  refine ⟨hpay.trans (setChild_samePayload _ _ _ _), ?_⟩
  have hychild : ∀ d, (t₁.setChild (holeDir ctx) (up t ctx) y).child d y = t₁.child d y := by
    intro d
    have hne : y ≠ up t ctx := by grind
    simp [hne]
  constructor
  · simp only [toList, List.nodup_append, List.nodup_cons, List.mem_append, List.mem_cons, ne_eq]
    grind
  · rw [setChild_root, hroot₁]
    simp only [toList, List.mem_append, List.mem_cons]
    grind
  · rw [hnil₂]
    simp only [toList, List.mem_append, List.mem_cons]
    grind
  · rw [setChild_root, hroot₁, hnil₂]
    exact hrn
  · rw [setChild_red, setChild_root, hroot₁, hred₁ _ (Ne.symm hroot), hrb]
  · rw [setChild_red, hnil₂, hred₁ _ (Ne.symm hnil), hnb]
  · rw [hup₂]
    refine ⟨?_, ?_, ?_, ?_, ?_, ?_⟩
    · rw [setChild_red, ← hpre]
      simp
    · rw [setChild_parent, ← hpre]
      simp [hyl, hyr]
    · rw [hychild, ptr_congr hnil₂, ← hpre]
      simp
    · rw [hychild, ptr_congr hnil₂, ← hpre]
      simp
    · refine hll.reparent (by grind) (.inl ?_) (fun p hp => hred₁ p (by grind)) hnil₂ ?_ ?_
      · rw [setChild_parent, ← hpre]
        simp
      · intro p hp d
        have hne : p ≠ up t ctx := by grind
        rw [setChild_child, if_neg (fun hcon => hne hcon.2), hchild₁ p (by grind)]
      · intro p hp hpl
        exact hpar₁ p (by grind) hpl (by grind [ptr])
    · refine hlr.reparent (by grind) (.inl ?_) (fun p hp => hred₁ p (by grind)) hnil₂ ?_ ?_
      · rw [setChild_parent, ← hpre]
        simp
      · intro p hp d
        have hne : p ≠ up t ctx := by grind
        rw [setChild_child, if_neg (fun hcon => hne hcon.2), hchild₁ p (by grind)]
      · intro p hp hpr
        exact hpar₁ p (by grind) (by grind [ptr]) hpr
  · have hafter := hbefore.setHole y (by rw [hroot₁]; grind) (by grind)
    rw [hup₁] at hafter
    exact hafter

/-! ## The operation -/

/-- Nothing but the colours has a part in the heights. -/
theorem rb_relabel {ctx : TreeCtx ℕ} {c : Bool} {l r : BinTree ℕ} {x m : ℕ} (y : ℕ)
    (h : (plug ctx (.node c l x r)).RB m) (hblack : (plug ctx (.node c l x r)).isRed = false) :
    (∃ m', (plug ctx (.node c l y r)).RB m') ∧ (plug ctx (.node c l y r)).isRed = false := by
  obtain ⟨n, hn, hctx, htop⟩ := ctxRB_of_plug h hblack
  refine hctx.plug_rb ?_ htop
  cases c with
  | true => exact hn
  | false =>
      cases n with
      | zero => exact hn
      | succ n => exact hn

/-- The parts of `RBDelete`: `y` is spliced out, with the child `x`. -/
theorem rbDelete_eq_some_iff {z fuel : ℕ} {t' : RbTree K I} :
    rbDelete fuel t z = some t' ↔ ∃ y x t₁,
      (if t.child .left z = t.nil ∨ t.child .right z = t.nil then some z
        else treeSuccessor fuel t z) = some y ∧
      (if t.child .left y = t.nil then t.child .right y else t.child .left y) = x ∧
      (if !(splice t y x).red y then rbDeleteFixUp fuel (splice t y x) x
        else some (splice t y x)) = some t₁ ∧
      (if y ≠ z then relink t₁ z y else t₁) = t' := by
  have hbind : rbDelete fuel t z
      = (if t.child .left z = t.nil ∨ t.child .right z = t.nil then some z
          else treeSuccessor fuel t z).bind fun y =>
        let x := if t.child .left y = t.nil then t.child .right y else t.child .left y
        (if !(splice t y x).red y then rbDeleteFixUp fuel (splice t y x) x
          else some (splice t y x)).bind fun t₁ => some (if y ≠ z then relink t₁ z y else t₁) := by
    simp only [rbDelete, Option.bind_eq_bind]
    rw [← apply_ite fun s => Option.bind s _]
    congr 1
    funext y
    exact (apply_ite (fun s => Option.bind s _) _ _ _).symm
  simp only [hbind, Option.bind_eq_some_iff, Option.some.injEq]
  constructor
  · rintro ⟨y, hy, t₁, hfix, hend⟩
    exact ⟨y, _, t₁, hy, rfl, hfix, hend⟩
  · rintro ⟨y, x, t₁, hy, rfl, hfix, hend⟩
    exact ⟨y, hy, t₁, hfix, hend⟩

/-- The tree behind the deletion of `z`: a red-black tree of the other nodes of `L`, in their
order. -/
def Without (t : RbTree K I) (L : List ℕ) (z : ℕ) (t' : RbTree K I) (T' : BinTree ℕ) : Prop :=
  Rep t' [] T' ∧ (∃ m, T'.RB m) ∧ T'.isRed = false ∧ SamePayload t t' ∧
    ∃ A B, L = A ++ z :: B ∧ T'.toList = A ++ B

section Whole

variable {ctx : TreeCtx ℕ} {c : Bool} {l r : BinTree ℕ} {z m fuel : ℕ}

/-- The children of a node that are `nil` are its leaves. -/
theorem Rep.child_eq_nil (h : Rep t ctx (.node c l z r)) :
    (t.child .left z = t.nil ↔ l = .leaf) ∧ (t.child .right z = t.nil ↔ r = .leaf) := by
  obtain ⟨-, -, hl, hr, -⟩ := h.links
  rw [hl, hr]
  exact ⟨(Rep.down (d := .left) h).ptr_eq_nil, (Rep.down (d := .right) h).ptr_eq_nil⟩

/-- A node with a leaf below it is spliced out itself. -/
theorem rbDelete_self (h : Rep t ctx (.node c l z r)) (hm : (plug ctx (.node c l z r)).RB m)
    (hblack : (plug ctx (.node c l z r)).isRed = false)
    (hfuel : (plug ctx (.node c l z r)).toList.length ≤ fuel) (hleaf : l = .leaf ∨ r = .leaf) :
    ∃ t' T', rbDelete fuel t z = some t' ∧
      Without t (plug ctx (.node c l z r)).toList z t' T' := by
  obtain ⟨hl, hr⟩ := h.child_eq_nil
  have hzl : t.child .left z = ptr t l := h.links.2.2.1
  have hzr : t.child .right z = ptr t r := h.links.2.2.2.1
  obtain ⟨e, X, hjoin, hx, hX⟩ : ∃ e X, BinTree.node c l z r = join e c .leaf z X ∧
      (if t.child .left z = t.nil then t.child .right z else t.child .left z) = ptr t X ∧
      X.toList = l.toList ++ r.toList := by
    by_cases hll : l = .leaf
    · subst hll
      exact ⟨.left, r, rfl, (if_pos hzl).trans hzr, by simp [toList]⟩
    · obtain rfl : r = .leaf := hleaf.resolve_left hll
      exact ⟨.right, l, rfl, (if_neg fun hnil => hll (hl.mp hnil)).trans hzl, by simp [toList]⟩
  have hlist := toList_plug ctx (.node c l z r)
  have hlen : ctx.length ≤ fuel := (ctx.length_le_plug _).trans hfuel
  rw [hjoin] at h hm hblack
  obtain ⟨t', W, m', hrun, hpay, hrepW, hrb, hWb, hW⟩ := spliceFix_spec h hm hblack hlen
  refine ⟨t', W, ?_, hrepW, ⟨m', hrb⟩, hWb, hpay, ctx.pre ++ l.toList, r.toList ++ ctx.post, ?_, ?_⟩
  · have hy : t.child .left z = t.nil ∨ t.child .right z = t.nil := by
      rw [hl, hr]
      exact hleaf
    exact rbDelete_eq_some_iff.mpr ⟨z, _, t', if_pos hy, hx, hrun, if_neg (not_not.mpr rfl)⟩
  · rw [hlist]
    simp [toList]
  · rw [hW, toList_plug, hX]
    simp

/-- For every other node its successor is spliced out, and takes its place. -/
theorem rbDelete_successor (h : Rep t ctx (.node c l z r)) (hm : (plug ctx (.node c l z r)).RB m)
    (hblack : (plug ctx (.node c l z r)).isRed = false)
    (hfuel : (plug ctx (.node c l z r)).toList.length ≤ fuel) (hl : l ≠ .leaf) (hr : r ≠ .leaf) :
    ∃ t' T', rbDelete fuel t z = some t' ∧
      Without t (plug ctx (.node c l z r)).toList z t' T' := by
  have hrlen : r.toList.length ≤ fuel := by
    rw [toList_plug] at hfuel
    simp only [toList, List.length_append, List.length_cons] at hfuel
    omega
  obtain ⟨y, ctx', c', X, hsucc, hrepy, hplug, hpre⟩ := treeSuccessor_spec h hr hrlen
  rw [← hplug] at hm hblack hfuel
  have hlen : ctx'.length ≤ fuel := (ctx'.length_le_plug _).trans hfuel
  obtain ⟨t₁, W, m', hrun, hpay, hrepW, hrb, hWb, hW⟩ := spliceFix_spec hrepy hm hblack hlen
  rw [toList_plug, hpre] at hW
  have hT : (plug ctx (.node c l z r)).toList
      = ctx.pre ++ l.toList ++ z :: y :: (X.toList ++ ctx'.post) := by
    rw [← hplug, toList_plug, hpre]
    simp [join, toList]
  have hnodup : (ctx.pre ++ l.toList ++ z :: y :: (X.toList ++ ctx'.post)).Nodup := by
    rw [← hT]
    simpa [TreeCtx.entries] using (rep_plug_iff.mp h).nodup
  simp only [List.nodup_append, List.nodup_cons, List.mem_append, List.mem_cons, ne_eq] at hnodup
  have hyW : y ∉ W.toList := by
    rw [hW]
    simp only [List.mem_append, List.mem_cons]
    grind
  obtain ⟨cw, cc, wl, wr, rfl⟩ := exists_plug (show z ∈ W.toList by simp [hW])
  have hyroot : y ≠ t₁.root := by
    rw [hpay.root]
    rintro rfl
    exact hrepy.root_notMem (by simp)
  have hynil : y ≠ t₁.nil := by
    rw [hpay.nil]
    exact hrepy.ne_nil
  obtain ⟨hpay', hrep'⟩ := (rep_plug_iff.mpr hrepW).relink
    (fun hmem => hyW ((toList_plug_perm cw _).mem_iff.mpr hmem)) hyroot hynil
  obtain ⟨hrb', hb'⟩ := rb_relabel y hrb hWb
  -- the parts before and behind are the same in both lists
  have hparts : cw.pre ++ wl.toList = ctx.pre ++ l.toList ∧
      wr.toList ++ cw.post = X.toList ++ ctx'.post := by
    have heq : ctx.pre ++ l.toList ++ z :: (X.toList ++ ctx'.post)
        = cw.pre ++ wl.toList ++ z :: (wr.toList ++ cw.post) := by
      rw [toList_plug] at hW
      simpa [toList] using hW.symm
    have hbefore : z ∉ ctx.pre ++ l.toList := by
      rw [List.mem_append]
      grind
    have hbehind : z ∉ X.toList ++ ctx'.post := by
      rw [List.mem_append]
      grind
    obtain ⟨h₁, -, h₂⟩ := (List.append_cons_inj_of_notMem hbefore hbehind).mp heq
    exact ⟨h₁.symm, h₂.symm⟩
  refine ⟨Rb.relink t₁ z y, _, ?_, rep_plug_iff.mp hrep', hrb', hb', hpay.trans hpay',
    ctx.pre ++ l.toList, y :: (X.toList ++ ctx'.post), hT, ?_⟩
  · have hz : ¬ (t.child .left z = t.nil ∨ t.child .right z = t.nil) := by
      rw [h.child_eq_nil.1, h.child_eq_nil.2]
      exact not_or.mpr ⟨hl, hr⟩
    have hyl : t.child .left y = t.nil := hrepy.fields.2.2.1
    have hyr : t.child .right y = ptr t X := hrepy.fields.2.2.2
    have hyz : y ≠ z := by grind
    exact rbDelete_eq_some_iff.mpr ⟨y, _, t₁, (if_neg hz).trans hsucc,
      (if_pos hyl).trans hyr, hrun, if_pos hyz⟩
  · rw [toList_plug, ← hparts.1, ← hparts.2]
    simp [toList]

end Whole

/-- **Deletion**: the invariant is kept, and the node is gone from the list. -/
theorem rbDelete_spec {compare : K → K → Int} {T : BinTree ℕ} {z fuel : ℕ}
    (h : RbInv compare t T) (hz : z ∈ T.toList) (hfuel : T.toList.length ≤ fuel) :
    ∃ t' T' A B, rbDelete fuel t z = some t' ∧ RbInv compare t' T' ∧ T.toList = A ++ z :: B ∧
      T'.toList = A ++ B ∧ SamePayload t t' := by
  obtain ⟨hwhole, ⟨m, hm⟩, hblack, hsorted⟩ := h
  have hwithout : ∃ t' T', rbDelete fuel t z = some t' ∧ Without t T.toList z t' T' := by
    obtain ⟨ctx, c, l, r, rfl⟩ := exists_plug hz
    have hrep : Rep t ctx (.node c l z r) := rep_plug_iff.mpr hwhole
    by_cases hleaf : l = .leaf ∨ r = .leaf
    · exact rbDelete_self hrep hm hblack hfuel hleaf
    · obtain ⟨hl, hr⟩ := not_or.mp hleaf
      exact rbDelete_successor hrep hm hblack hfuel hl hr
  obtain ⟨t', T', hrun, hrep, hrb, hb, hpay, A, B, hT, hT'⟩ := hwithout
  refine ⟨t', T', A, B, hrun, ⟨hrep, hrb, hb, ?_⟩, hT, hT', hpay⟩
  -- the order of the keys is that of a part of the list
  rw [SortedKeys, hpay.key, hT']
  refine List.Pairwise.sublist ?_ hsorted
  rw [hT]
  exact (List.Sublist.refl A).append (List.sublist_cons_self z B)

end CCode.Rb
