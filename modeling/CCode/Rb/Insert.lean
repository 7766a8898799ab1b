import CCode.Rb.Rep

/-!
# Insertion

A new node is put where the search for its key ends, in red. Then only one thing can be
wrong: its parent may be red too. A round of the loop repairs that with two rotations at
most, or moves it up by two nodes; the context of the node in question is that of a red-black
tree all the time.

## Main definitions

* `InsertInv` — the invariant of the loop.

## Main results

* `insertFix_step` — a round keeps it.
* `rbTreeInsert_spec` — what the operation does to the tree.
-/

namespace CCode.Rb

open CCode.Lib BinTree RbTree

variable {K I : Type} {t : RbTree K I}

/-! ## The cases of a round -/

section Round

variable {d d₁ : Dir} {p g x : ℕ} {s u T a b : BinTree ℕ} {ctx : TreeCtx ℕ}

/-- The uncle is red: three nodes are painted, and the trouble moves up. -/
theorem insertFix_red (h : Rep t (⟨d₁, true, p, s⟩ :: ⟨d, false, g, u⟩ :: ctx) T)
    (hx : t.parent x = p) (hu : u.isRed = true) :
    ∃ t', insertFix d t x = (t', g) ∧ SamePayload t t' ∧
      Rep t' ctx (join d true (join d₁ false T p s) g (u.paint false)) := by
  obtain ⟨ul, uu, ur, rfl⟩ := exists_join_of_isRed hu d
  obtain ⟨-, hpg, -, -⟩ := h.frame_fields
  have hgu := h.out.sibling
  have huncle : Rep t (⟨d.flip, false, g, join d₁ true T p s⟩ :: ctx) (join d true ul uu ur) :=
    h.out.swap
  have hured : t.red uu = true := huncle.fields.1
  -- `up` is the address in the first frame
  have hpg' : t.parent p = g := hpg
  have h₁ := (h.out.setRed false).swap
  have h₂ := (h₁.setRed false).swapBack
  have h₃ := h₂.out.setRed true
  refine ⟨((t.setRed p false).setRed uu false).setRed g true, ?_, ⟨rfl, rfl, rfl, rfl⟩, ?_⟩
  · simp only [insertFix, hx, hpg', hgu, hured, if_true, setRed_parent]
  · rw [paint_join]
    exact h₃

/-- The node is on the outer side of its parent: one rotation. -/
theorem insertFixOuter_rep (h : Rep t (⟨d, true, p, s⟩ :: ⟨d, false, g, u⟩ :: ctx) T)
    (hp : t.parent x = p) :
    ∃ t', insertFixOuter d t x = (t', x) ∧ SamePayload t t' ∧
      Rep t' (⟨d, false, p, join d true s g u⟩ :: ctx) T := by
  obtain ⟨-, hpg, -, -⟩ := h.frame_fields
  have hpg' : t.parent p = g := hpg
  have h₁ := (h.out.setRed false).out
  have h₂ := h₁.setRed true
  rw [← join_flip d true, ← join_flip d false] at h₂
  have h₃ := h₂.rotate
  rw [join_flip, join_flip] at h₃
  refine ⟨rotate d.flip ((t.setRed p false).setRed g true) g, ?_, ?_, h₃.down⟩
  · simp only [insertFixOuter, hp, hpg', setRed_parent]
  · exact ((setRed_samePayload t p false).trans (setRed_samePayload _ g true)).trans
      (rotate_samePayload _ _ _)

/-- The uncle is black, and the node is on the outer side. -/
theorem insertFix_outer (h : Rep t (⟨d, true, p, s⟩ :: ⟨d, false, g, u⟩ :: ctx) T)
    (hx : ptr t T = x) (hp : t.parent x = p) (hne : T ≠ .leaf) (hu : u.isRed = false) :
    ∃ t', insertFix d t x = (t', x) ∧ SamePayload t t' ∧
      Rep t' (⟨d, false, p, join d true s g u⟩ :: ctx) T := by
  obtain ⟨-, hpg, -, hps⟩ := h.frame_fields
  have hpg' : t.parent p = g := hpg
  obtain ⟨-, -, -, hgu⟩ := h.out.frame_fields
  have hublack : t.red (t.child d.flip g) = false := by
    rw [hgu, h.out.swap.red_ptr, hu]
  have hxs : x ≠ t.child d.flip p := by
    rw [hps, ← hx]
    exact h.ptr_ne (.inl hne)
  simp only [insertFix, hp, hpg', hublack, if_neg hxs, Bool.false_eq_true, if_false]
  exact insertFixOuter_rep h hp

/-- The uncle is black, and the node is on the inner side: another rotation comes first. -/
theorem insertFix_inner
    (h : Rep t (⟨d.flip, true, p, s⟩ :: ⟨d, false, g, u⟩ :: ctx) (join d true a x b))
    (hu : u.isRed = false) :
    ∃ t', insertFix d t x = (t', p) ∧ SamePayload t t' ∧
      Rep t' (⟨d, false, x, join d true b g u⟩ :: ctx) (join d true s p a) := by
  have hpx : t.parent x = p := h.fields.2.1
  obtain ⟨-, hpg, hpc, -⟩ := h.frame_fields
  have hpg' : t.parent p = g := hpg
  rw [ptr_join] at hpc
  obtain ⟨-, -, -, hgu⟩ := h.out.frame_fields
  have hublack : t.red (t.child d.flip g) = false := by
    rw [hgu, h.out.swap.red_ptr, hu]
  have h₁ : Rep t (⟨d, false, g, u⟩ :: ctx) (join d true s p (join d true a x b)) := by
    rw [← join_flip]
    exact h.out
  have h₂ := h₁.rotate.down
  obtain ⟨t', ht', hsame, hrep⟩ := insertFixOuter_rep h₂ h₂.fields.2.1
  refine ⟨t', ?_, (rotate_samePayload d t p).trans hsame, hrep⟩
  simp only [insertFix, hpx, hpg', hublack, if_pos hpc.symm, Bool.false_eq_true, if_false, ht']

end Round

/-! ## The loop -/

/-- The node in question is red, its context is that of a red-black tree, and the entries are
those of the list. -/
def InsertInv (t₀ : RbTree K I) (L : List ℕ) (n : ℕ) (s : RbTree K I × ℕ) : Prop :=
  ∃ ctx T k, ctx.length = n ∧ Rep s.1 ctx T ∧ T.isRed = true ∧ ptr s.1 T = s.2 ∧ T.RB k ∧
    CtxRB ctx k ∧ (plug ctx T).toList = L ∧ SamePayload t₀ s.1

/-- A red node whose parent is red has a black grandparent. -/
theorem exists_grandparent {ctx : TreeCtx ℕ} {T : BinTree ℕ} {k : ℕ} (h : Rep t ctx T)
    (hctx : CtxRB ctx k) (hred : t.red (up t ctx) = true) :
    ∃ d₁ p s d g u rest, ctx = ⟨d₁, true, p, s⟩ :: ⟨d, false, g, u⟩ :: rest ∧
      s.RB k ∧ s.isRed = false ∧ u.RB k ∧ CtxRB rest (k + 1) := by
  cases ctx with
  | nil =>
      rw [up, h.root_black] at hred
      cases hred
  | cons f ctx =>
      obtain ⟨d₁, c, p, s⟩ := f
      obtain rfl : c = true := h.frame_fields.1.symm.trans hred
      obtain ⟨hs, hsb, htop, hrest⟩ := hctx
      obtain ⟨d, g, u, rest, rfl⟩ := htop.exists_cons
      exact ⟨d₁, p, s, d, g, u, rest, rfl, hs, hsb, hrest.1, hrest.2⟩

/-- **A round keeps the invariant** and makes the context shorter. -/
theorem insertFix_step {t₀ : RbTree K I} {L : List ℕ} {n : ℕ} {s : RbTree K I × ℕ}
    (h : InsertInv t₀ L n s) (hcond : s.1.red (s.1.parent s.2) = true) :
    ∃ m < n, InsertInv t₀ L m (insertFix (parentSide s.1 s.2) s.1 s.2) := by
  obtain ⟨t, x⟩ := s
  obtain ⟨ctx, T, k, rfl, hrep, hred, hx, hrb, hctx, hlist, hsame⟩ := h
  dsimp only at *
  have hne : T ≠ .leaf := by
    rintro rfl
    cases hred
  have hpar : t.parent x = up t ctx := by
    obtain ⟨a, y, b, rfl⟩ := exists_join_of_isRed hred .left
    obtain rfl : y = x := (ptr_join ..).symm.trans hx
    exact hrep.fields.2.1
  rw [hpar] at hcond
  obtain ⟨d₁, p, s, d, g, u, rest, rfl, hs, hsb, hu, hrest⟩ :=
    exists_grandparent hrep hctx hcond
  have hparp : t.parent x = p := hpar
  have hside : parentSide t x = d := by
    have hpg : t.parent p = g := hrep.frame_fields.2.1
    have heq := hrep.out.side_eq (.inl (by cases d₁ <;> simp [join]))
    rw [ptr_join] at heq
    rw [parentSide, hparp, hpg, heq]
  rw [hside]
  cases hured : u.isRed with
  | true =>
      obtain ⟨t', ht', hpay, hrep'⟩ := insertFix_red hrep hparp hured
      rw [ht']
      refine ⟨rest.length, by simp, rest, _, k + 1, rfl, hrep', by simp, by simp, ?_, hrest, ?_,
        hsame.trans hpay⟩
      · obtain ⟨ul, uu, ur, rfl⟩ := exists_join_of_isRed hured d
        simp only [rb_join_red] at hu
        simp [hrb, hs, hu.1, hu.2.1]
      · rw [← hlist]
        refine toList_plug_congr rest ?_
        rw [toList_join_color d true false]
        exact toList_join_congr d false g (toList_join_color d₁ false true T p s)
          (toList_paint false u)
  | false =>
      rcases Dir.eq_or_eq_flip d d₁ with rfl | rfl
      · obtain ⟨t', ht', hpay, hrep'⟩ := insertFix_outer hrep hx hparp hne hured
        rw [ht']
        refine ⟨rest.length + 1, by simp, _, T, k, rfl, hrep', hred, ?_, hrb, ?_, ?_,
          hsame.trans hpay⟩
        · rw [ptr_congr hpay.nil, hx]
        · exact ⟨rb_join_red.mpr ⟨hs, hu, hsb, hured⟩, hrest⟩
        · rw [← hlist]
          refine toList_plug_congr rest ?_
          exact (toList_rotate _ _ _ _ _ _ _ _ _ _).symm
      · obtain ⟨a, y, b, rfl⟩ := exists_join_of_isRed hred d
        obtain rfl : y = x := (ptr_join ..).symm.trans hx
        obtain ⟨ha, hb, hab, hbb⟩ := rb_join_red.mp hrb
        obtain ⟨t', ht', hpay, hrep'⟩ := insertFix_inner hrep hured
        rw [ht']
        refine ⟨rest.length + 1, by simp, _, _, k, rfl, hrep', by simp, by simp, ?_, ?_, ?_,
          hsame.trans hpay⟩
        · exact rb_join_red.mpr ⟨hs, ha, hsb, hab⟩
        · exact ⟨rb_join_red.mpr ⟨hb, hu, hbb, hured⟩, hrest⟩
        · rw [← hlist]
          refine toList_plug_congr rest ?_
          cases d <;> simp [TreeFrame.fill, join, toList, Dir.flip]

/-! ## The place of a new node -/

/-- `compare` is a comparison: one of three values, turned round with its arguments, and
transitive. -/
structure IsCompare (compare : K → K → Int) : Prop where
  values : ∀ a b, compare a b = 1 ∨ compare a b = 0 ∨ compare a b = -1
  swap : ∀ a b, compare b a = -compare a b
  trans : ∀ a b c, compare a b ≠ 1 → compare b c ≠ 1 → compare a c ≠ 1

/-- The keys of the addresses do not decrease. -/
def SortedKeys (compare : K → K → Int) (key : ℕ → K) (L : List ℕ) : Prop :=
  L.Pairwise fun p q => compare (key p) (key q) ≠ 1

namespace IsCompare

variable {compare : K → K → Int} {key : ℕ → K} {a b c : K}

/-- What is not less than something larger is larger. -/
theorem lt_of_lt_of_le (hc : IsCompare compare) (h : compare b a = 1) (h' : compare b c ≠ 1) :
    compare c a = 1 := by
  by_contra hne
  exact hc.trans b c a h' hne h

/-- And the other way round. -/
theorem lt_of_le_of_lt (hc : IsCompare compare) (h : compare a b ≠ 1) (h' : compare c b = 1) :
    compare c a = 1 := by
  by_contra hne
  exact hc.trans c a b hne h h'

end IsCompare

/-- A change to a node that is not there. -/
theorem Rep.frame {t' : RbTree K I} {ctx : TreeCtx ℕ} {T : BinTree ℕ} (h : Rep t ctx T)
    (hroot : t'.root = t.root) (hnil : t'.nil = t.nil)
    (hred : t'.red t.root = t.red t.root ∧ t'.red t.nil = t.red t.nil)
    (htop : t'.child .left t.root = t.child .left t.root)
    (hsame : ∀ p ∈ T.toList ++ ctx.entries, SameAt t t' p) : Rep t' ctx T := by
  have hup : up t' ctx = up t ctx := up_congr hroot ctx
  constructor
  · exact h.nodup
  · rw [hroot]
    exact h.root_notMem
  · rw [hnil]
    exact h.nil_notMem
  · rw [hroot, hnil]
    exact h.root_ne_nil
  · rw [hroot, hred.1, h.root_black]
  · rw [hnil, hred.2, h.nil_black]
  · rw [hup]
    exact h.links.congr hnil fun p hp => hsame p (List.mem_append_left _ hp)
  · rw [ptr_congr hnil]
    exact h.clinks.congr hnil hroot htop fun p hp => hsame p (List.mem_append_right _ hp)

/-- A new node in the place of a leaf. -/
theorem Rep.attach {ctx : TreeCtx ℕ} {z : ℕ} (h : Rep t ctx .leaf) (hz : z ∉ ctx.entries)
    (hroot : z ≠ t.root) (hnil : z ≠ t.nil) (hchild : ∀ d, t.child d z = t.nil) :
    Rep ((t.setParent z (up t ctx)).setChild (holeDir ctx) (up t ctx) z) ctx
      (.node (t.red z) .leaf z .leaf) := by
  have hentries : ctx.entries.Nodup := by simpa [toList] using h.nodup
  have hrootc : t.root ∉ ctx.entries := by simpa [toList] using h.root_notMem
  have hnilc : t.nil ∉ ctx.entries := by simpa [toList] using h.nil_notMem
  have hupz : z ≠ up t ctx := by
    rcases up_mem t ctx with heq | hmem
    · rw [heq]
      exact hroot
    · exact fun heq => hz (heq ▸ hmem)
  have hup : up ((t.setParent z (up t ctx)).setChild (holeDir ctx) (up t ctx) z) ctx = up t ctx :=
    up_congr rfl ctx
  constructor
  · simpa [toList] using ⟨hz, hentries⟩
  · simpa [toList] using ⟨Ne.symm hroot, hrootc⟩
  · simpa [toList] using ⟨Ne.symm hnil, hnilc⟩
  · exact h.root_ne_nil
  · exact h.root_black
  · exact h.nil_black
  · rw [hup]
    simp [Links, hupz, hchild]
  · have hbefore : CLinks (t.setParent z (up t ctx)) ctx t.nil := by
      refine h.clinks.congr rfl rfl rfl fun p hp => ⟨rfl, ?_, fun _ => rfl⟩
      have hne : p ≠ z := fun heq => hz (heq ▸ hp)
      simp [hne]
    have hafter := hbefore.setHole z hrootc hentries
    have hup₁ : up (t.setParent z (up t ctx)) ctx = up t ctx := up_congr rfl ctx
    rw [hup₁] at hafter
    exact hafter

/-- Where the search for the key of a new node is: it goes below `T`, everything before that is
not larger, and everything behind is. -/
def DescentInv (compare : K → K → Int) (t : RbTree K I) (k : K) (T₀ : BinTree ℕ) (n : ℕ)
    (s : ℕ × ℕ) : Prop :=
  ∃ ctx T, T.toList.length = n ∧ plug ctx T = T₀ ∧ s = (ptr t T, up t ctx) ∧
    (∀ p ∈ ctx.pre, compare (t.key p) k ≠ 1) ∧ (∀ p ∈ ctx.post, compare (t.key p) k = 1) ∧
    (ctx ≠ [] → (compare (t.key (up t ctx)) k = 1 ↔ holeDir ctx = .left))

/-- What is larger than the key, where the search goes to the left. -/
theorem IsCompare.post_left {compare : K → K → Int} {k : K} {ctx : TreeCtx ℕ} {c : Bool}
    {l r : BinTree ℕ} {x : ℕ} (hc : IsCompare compare)
    (hsorted : SortedKeys compare t.key (plug ctx (.node c l x r)).toList)
    (hpost : ∀ p ∈ ctx.post, compare (t.key p) k = 1) (hcmp : compare (t.key x) k = 1) :
    ∀ p ∈ TreeCtx.post (⟨.left, c, x, r⟩ :: ctx), compare (t.key p) k = 1 := by
  intro p hp
  rw [SortedKeys, toList_plug] at hsorted
  simp only [toList, List.pairwise_append, List.pairwise_cons, List.mem_append, List.mem_cons]
    at hsorted
  simp only [TreeCtx.post, List.mem_append, List.mem_cons] at hp
  rcases hp with (rfl | hp) | hp
  · exact hcmp
  · exact hc.lt_of_lt_of_le hcmp (by grind)
  · exact hpost p hp

/-- What is not larger, where the search goes to the right. -/
theorem IsCompare.pre_right {compare : K → K → Int} {k : K} {ctx : TreeCtx ℕ} {c : Bool}
    {l r : BinTree ℕ} {x : ℕ} (hc : IsCompare compare)
    (hsorted : SortedKeys compare t.key (plug ctx (.node c l x r)).toList)
    (hpre : ∀ p ∈ ctx.pre, compare (t.key p) k ≠ 1) (hcmp : compare (t.key x) k ≠ 1) :
    ∀ p ∈ TreeCtx.pre (⟨.right, c, x, l⟩ :: ctx), compare (t.key p) k ≠ 1 := by
  intro p hp
  rw [SortedKeys, toList_plug] at hsorted
  simp only [toList, List.pairwise_append, List.pairwise_cons, List.mem_append, List.mem_cons]
    at hsorted
  simp only [TreeCtx.pre, List.mem_append, List.mem_singleton] at hp
  rcases hp with hp | hp | rfl
  · exact hpre p hp
  · exact hc.trans _ (t.key x) _ (by grind) hcmp
  · exact hcmp

/-- A step down. -/
theorem descent_step {compare : K → K → Int} {k : K} {T₀ : BinTree ℕ} {n : ℕ} {s : ℕ × ℕ}
    (hc : IsCompare compare) (hrep : Rep t [] T₀) (hsorted : SortedKeys compare t.key T₀.toList)
    (h : DescentInv compare t k T₀ n s) (hcond : s.1 ≠ t.nil) :
    ∃ m < n, DescentInv compare t k T₀ m
      (if compare (t.key s.1) k = 1 then t.child .left s.1 else t.child .right s.1, s.1) := by
  obtain ⟨ctx, T, rfl, rfl, rfl, hpre, hpost, -⟩ := h
  cases T with
  | leaf => exact absurd rfl hcond
  | node c l x r =>
      have hlinks := (rep_plug_iff.mpr hrep).links
      by_cases hcmp : compare (t.key x) k = 1
      · refine ⟨l.toList.length, by simp [toList], ⟨.left, c, x, r⟩ :: ctx, l, rfl, rfl, ?_, ?_,
          hc.post_left hsorted hpost hcmp, fun _ => iff_of_true hcmp rfl⟩
        · simp only [ptr, if_pos hcmp, up, hlinks.2.2.1]
        · simpa [TreeCtx.pre] using hpre
      · refine ⟨r.toList.length, by simp [toList]; omega, ⟨.right, c, x, l⟩ :: ctx, r, rfl, rfl, ?_,
          hc.pre_right hsorted hpre hcmp, ?_, fun _ => iff_of_false hcmp (by simp [holeDir])⟩
        · simp only [ptr, if_neg hcmp, up, hlinks.2.2.2.1]
        · simpa [TreeCtx.post] using hpost

/-- **The place of a new node.** -/
theorem treeInsertHelp_spec {compare : K → K → Int} {T : BinTree ℕ} {z fuel : ℕ}
    (hc : IsCompare compare) (hrep : Rep t [] T) (hsorted : SortedKeys compare t.key T.toList)
    (hz : z ∉ T.toList) (hroot : z ≠ t.root) (hnil : z ≠ t.nil) (hfuel : T.toList.length ≤ fuel) :
    ∃ t' ctx, treeInsertHelp compare fuel t z = some t' ∧ SamePayload t t' ∧
      plug ctx .leaf = T ∧ Rep t' ctx (.node (t.red z) .leaf z .leaf) ∧
      (∀ p ∈ ctx.pre, compare (t.key p) (t.key z) ≠ 1) ∧
      ∀ p ∈ ctx.post, compare (t.key p) (t.key z) = 1 := by
  generalize ht₁ : (t.setChild .right z t.nil).setChild .left z t.nil = t₁
  have hpay : SamePayload t t₁ := by
    rw [← ht₁]
    exact ⟨rfl, rfl, rfl, rfl⟩
  have hchild : ∀ d, t₁.child d z = t₁.nil := by
    intro d
    rw [← ht₁]
    cases d <;> simp
  have hred : t₁.red = t.red := by
    rw [← ht₁]
    rfl
  have hrep₁ : Rep t₁ [] T := by
    refine hrep.frame hpay.root hpay.nil (by rw [hred]; exact ⟨rfl, rfl⟩) ?_ fun p hp => ?_
    · rw [← ht₁]
      simp [Ne.symm hroot]
    · have hne : p ≠ z := by
        rintro rfl
        exact hz (by simpa [TreeCtx.entries] using hp)
      rw [← ht₁]
      exact ⟨rfl, rfl, fun d => by simp [hne]⟩
  have hstart : DescentInv compare t₁ (t₁.key z) T T.toList.length
      (t₁.child .left t₁.root, t₁.root) := by
    have htop : t₁.child .left t₁.root = ptr t₁ T := hrep₁.clinks
    exact ⟨[], T, rfl, rfl, by rw [htop]; rfl, by simp [TreeCtx.pre], by simp [TreeCtx.post],
      by simp⟩
  have hbody : ∀ n (s : ℕ × ℕ), DescentInv compare t₁ (t₁.key z) T n s →
      decide (s.1 ≠ t₁.nil) = true → ∃ m < n, DescentInv compare t₁ (t₁.key z) T m
        (if compare (t₁.key s.1) (t₁.key z) = 1 then t₁.child .left s.1
          else t₁.child .right s.1, s.1) := fun n s hs hcond =>
    descent_step hc hrep₁ (by rw [hpay.key]; exact hsorted) hs (of_decide_eq_true hcond)
  obtain ⟨m, ⟨x, y⟩, hloop, ⟨ctx, T', -, hplug, hxy, hpre, hpost, hdir⟩, hend⟩ :=
    whileFuel_rule hbody hstart hfuel
  obtain ⟨rfl, rfl⟩ := Prod.mk.inj hxy
  have hrep₂ : Rep t₁ ctx T' := rep_plug_iff.mpr (by rw [hplug]; exact hrep₁)
  -- the search ends at a leaf
  obtain rfl : T' = .leaf := by
    cases T' with
    | leaf => rfl
    | node c l x r =>
        have hx : x ≠ t₁.nil := Rep.ne_nil (d := .left) hrep₂
        simp [ptr, hx] at hend
  have hzctx : z ∉ ctx.entries := by
    intro hmem
    refine hz ?_
    rw [← hplug]
    exact (toList_plug_perm ctx .leaf).mem_iff.mpr (List.mem_append_right _ hmem)
  have hattach := hrep₂.attach hzctx (by rw [hpay.root]; exact hroot) (by rw [hpay.nil]; exact hnil)
    hchild
  rw [hred] at hattach
  refine ⟨_, ctx, ?_, ?_, hplug, hattach, ?_, ?_⟩
  · simp only [treeInsertHelp, ht₁, hloop, Option.bind_eq_bind, Option.bind_some, setParent_root]
    congr 1
    cases hctx : ctx with
    | nil => exact if_pos (.inl rfl)
    | cons f rest =>
        have hne : f.x ≠ t₁.root := by
          intro heq
          exact hrep₂.root_notMem (by simp [hctx, TreeCtx.entries, heq])
        have hiff := hdir (by simp [hctx])
        rw [hctx] at hiff
        cases hd : f.dir with
        | left =>
            rw [if_pos (.inr (hiff.mpr (by simpa [holeDir] using hd)))]
            simp [holeDir, hd]
        | right =>
            rw [if_neg]
            · simp [holeDir, hd]
            · rintro (heq | heq)
              · exact hne heq
              · have := hiff.mp heq
                simp [holeDir, hd] at this
  · exact hpay.trans ⟨rfl, rfl, rfl, rfl⟩
  · rw [← hpay.key]
    exact hpre
  · rw [← hpay.key]
    exact hpost

/-! ## The operation -/

/-- The nodes are those of a red-black tree with a black root, in the order of the keys. -/
structure RbInv (compare : K → K → Int) (t : RbTree K I) (T : BinTree ℕ) : Prop where
  rep : Rep t [] T
  rb : ∃ n, T.RB n
  black : T.isRed = false
  sorted : SortedKeys compare t.key T.toList

/-- The root is painted. -/
theorem Rep.paint_root {T : BinTree ℕ} (h : Rep t [] T) (hne : T ≠ .leaf) (c : Bool) :
    Rep (t.setRed (ptr t T) c) [] (T.paint c) := by
  cases T with
  | leaf => exact absurd rfl hne
  | node c' l x r => exact Rep.setRed (d := .left) h c

/-- The loop of `RBTreeInsert`, and the root painted behind it. -/
theorem insertLoop_spec {L : List ℕ} {n x fuel : ℕ} (h : InsertInv t L n (t, x))
    (hfuel : n ≤ fuel) :
    ∃ t' x' W, whileFuel (fun s : RbTree K I × ℕ => s.1.red (s.1.parent s.2))
        (fun s => insertFix (parentSide s.1 s.2) s.1 s.2) fuel (t, x) = some (t', x') ∧
      SamePayload t t' ∧ Rep (t'.setRed (t'.child .left t'.root) false) [] W ∧
      (∃ m, W.RB m) ∧ W.isRed = false ∧ W.toList = L := by
  obtain ⟨m, ⟨t', x'⟩, hloop, ⟨ctx, T, k, -, hrep, hred, hx, hrb, hctx, hlist, hsame⟩, hend⟩ :=
    whileFuel_rule (fun n s hs hcond => insertFix_step hs hcond) h hfuel
  dsimp only at hrep hx hlist hsame hend
  have hwhole : Rep t' [] (plug ctx T) := rep_plug_iff.mp hrep
  have hne : plug ctx T ≠ .leaf := by
    intro hleaf
    have hnil : (plug ctx T).toList = [] := by
      rw [hleaf]
      rfl
    obtain ⟨a, y, b, rfl⟩ := exists_join_of_isRed hred .left
    rw [toList_plug] at hnil
    simp [join, toList] at hnil
  have htop : t'.child .left t'.root = ptr t' (plug ctx T) := hwhole.clinks
  refine ⟨t', x', (plug ctx T).paint false, hloop, hsame, ?_, ?_, isRed_paint _, ?_⟩
  · rw [htop]
    exact hwhole.paint_root hne false
  · cases ctx with
    | nil => exact hrb.paint_black
    | cons f ctx =>
        -- the loop has ended below a black node
        have hparent : t'.parent x' = f.x := by
          obtain ⟨a, y, b, rfl⟩ := exists_join_of_isRed hred .left
          obtain rfl : y = x' := (ptr_join ..).symm.trans hx
          exact hrep.fields.2.1
        have hblack : f.red = false := by
          rw [hparent] at hend
          exact hrep.frame_fields.1.symm.trans hend
        obtain ⟨⟨m, hm⟩, -⟩ := hctx.plug_rb hrb fun _ => hblack
        exact hm.paint_black
  · rw [toList_paint, hlist]

/-- The order with another entry. -/
theorem SortedKeys.insert {compare : K → K → Int} {key : ℕ → K} {pre post : List ℕ} {z : ℕ}
    (hc : IsCompare compare) (h : SortedKeys compare key (pre ++ post))
    (hpre : ∀ p ∈ pre, compare (key p) (key z) ≠ 1)
    (hpost : ∀ p ∈ post, compare (key p) (key z) = 1) :
    SortedKeys compare key (pre ++ z :: post) := by
  rw [SortedKeys, List.pairwise_append] at h ⊢
  refine ⟨h.1, List.pairwise_cons.mpr ⟨?_, h.2.1⟩, ?_⟩
  · intro p hp
    have hswap := hc.swap (key p) (key z)
    rw [hpost p hp] at hswap
    rw [hswap]
    decide
  · intro p hp q hq
    rcases List.mem_cons.mp hq with rfl | hq
    · exact hpre p hp
    · exact h.2.2 p hp q hq

/-- **Insertion.** The new node is added to the entries, and nothing else is changed. -/
theorem rbTreeInsert_spec {compare : K → K → Int} {T : BinTree ℕ} {z fuel : ℕ}
    (hc : IsCompare compare) (h : RbInv compare t T) (key : K) (info : I) (hz : z ∉ T.toList)
    (hroot : z ≠ t.root) (hnil : z ≠ t.nil) (hfuel : T.toList.length ≤ fuel) :
    ∃ t' T' pre post, rbTreeInsert compare fuel t key info (some z) = some (t', some z) ∧
      RbInv compare t' T' ∧ T.toList = pre ++ post ∧ T'.toList = pre ++ z :: post ∧
      t'.key = Function.update t.key z key ∧ t'.info = Function.update t.info z info ∧
      t'.root = t.root ∧ t'.nil = t.nil := by
  generalize ht₁ : { t with
    key := Function.update t.key z key, info := Function.update t.info z info } = t₁
  have hrep₁ : Rep t₁ [] T := by
    rw [← ht₁]
    exact h.rep.frame rfl rfl ⟨rfl, rfl⟩ rfl fun p _ => ⟨rfl, rfl, fun _ => rfl⟩
  have hkey : ∀ p ∈ T.toList, t₁.key p = t.key p := by
    intro p hp
    have hne : p ≠ z := fun heq => hz (heq ▸ hp)
    rw [← ht₁]
    exact Function.update_of_ne hne _ _
  have hsorted : SortedKeys compare t₁.key T.toList := by
    refine h.sorted.imp_of_mem ?_
    intro p q hp hq hpq
    rw [hkey p hp, hkey q hq]
    exact hpq
  have hroot₁ : t₁.root = t.root ∧ t₁.nil = t.nil := by
    rw [← ht₁]
    exact ⟨rfl, rfl⟩
  obtain ⟨t₂, ctx, hhelp, hpay₂, hplug, hrep₂, hpre, hpost⟩ := treeInsertHelp_spec hc hrep₁ hsorted
    hz (by rw [hroot₁.1]; exact hroot) (by rw [hroot₁.2]; exact hnil) hfuel
  have hrep₃ : Rep (t₂.setRed z true) ctx (.node true .leaf z .leaf) :=
    Rep.setRed (d := .left) hrep₂ true
  obtain ⟨n, hn⟩ := h.rb
  obtain ⟨k, hk, hctx, -⟩ := ctxRB_of_plug (by rw [hplug]; exact hn) (by rw [hplug]; exact h.black)
  obtain rfl : k = 0 := hk
  have hlen : ctx.length ≤ fuel := (hplug ▸ ctx.length_le_plug .leaf).trans hfuel
  have hinv : InsertInv (t₂.setRed z true) (plug ctx (.node true .leaf z .leaf)).toList ctx.length
      (t₂.setRed z true, z) :=
    ⟨ctx, _, 0, rfl, hrep₃, rfl, rfl, ⟨rfl, rfl, rfl, rfl⟩, hctx, rfl, .refl _⟩
  obtain ⟨t₃, x, W, hloop, hpay₃, hrepW, hrb, hblack, hW⟩ := insertLoop_spec hinv hlen
  have hkeys : (t₃.setRed (t₃.child .left t₃.root) false).key = t₁.key :=
    hpay₃.key.trans hpay₂.key
  rw [toList_plug] at hW
  have hT : T.toList = ctx.pre ++ ctx.post := by
    rw [← hplug, toList_plug]
    simp [toList]
  refine ⟨t₃.setRed (t₃.child .left t₃.root) false, W, ctx.pre, ctx.post, ?_,
    ⟨hrepW, hrb, hblack, ?_⟩, hT, ?_, ?_, ?_, ?_, ?_⟩
  · simp only [rbTreeInsert, ht₁, hhelp, hloop, Option.bind_eq_bind, Option.bind_some]
  · rw [hW, hkeys]
    rw [hT] at hsorted
    simpa [toList] using hsorted.insert hc hpre hpost
  · simpa [toList] using hW
  · rw [hkeys, ← ht₁]
  · rw [← ht₁] at hpay₂
    exact hpay₃.info.trans hpay₂.info
  · exact hpay₃.root.trans (hpay₂.root.trans hroot₁.1)
  · exact hpay₃.nil.trans (hpay₂.nil.trans hroot₁.2)

end CCode.Rb
