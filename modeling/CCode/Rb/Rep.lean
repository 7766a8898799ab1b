import CCode.Rb.Node

/-!
# What the nodes stand for

`Rep t ctx T` says that the nodes of `t` are linked as the tree `T` in the context `ctx`: the
children and parents of each node are the right ones, no address occurs twice, and the
sentinels are not among the nodes. The focus is where a function is; moving it up or down
changes the view and not the nodes (`rep_cons_iff`).

The lemmas say what the assignments of the source, and from them a rotation, do to the tree.

## Main definitions

* `Links`, `CLinks` — the links in a tree and in a context.
* `Rep` — the representation.

## Main results

* `Rep.setRed`, `Rep.rotate` — colours and rotations.
-/

namespace CCode.Rb

open CCode.Lib BinTree RbTree

variable {K I : Type} {t t' : RbTree K I}

/-! ## Fields -/

namespace RbTree

variable (t : RbTree K I)

section

variable (p q : ℕ) (c : Bool) (d : Dir)

@[simp] theorem setRed_child : (t.setRed p c).child = t.child := rfl
@[simp] theorem setRed_parent : (t.setRed p c).parent = t.parent := rfl
@[simp] theorem setRed_root : (t.setRed p c).root = t.root := rfl
@[simp] theorem setRed_nil : (t.setRed p c).nil = t.nil := rfl
@[simp] theorem setRed_red (r : ℕ) : (t.setRed p c).red r = if r = p then c else t.red r :=
  Function.update_apply ..

@[simp] theorem setChild_red : (t.setChild d p q).red = t.red := rfl
@[simp] theorem setChild_parent : (t.setChild d p q).parent = t.parent := rfl
@[simp] theorem setChild_root : (t.setChild d p q).root = t.root := rfl
@[simp] theorem setChild_nil : (t.setChild d p q).nil = t.nil := rfl
@[simp] theorem setChild_child (e : Dir) (r : ℕ) :
    (t.setChild d p q).child e r = if e = d ∧ r = p then q else t.child e r := by
  simp only [setChild]
  by_cases he : e = d
  · subst he
    simp [Function.update_apply]
  · simp [he]

@[simp] theorem setParent_red : (t.setParent p q).red = t.red := rfl
@[simp] theorem setParent_child : (t.setParent p q).child = t.child := rfl
@[simp] theorem setParent_root : (t.setParent p q).root = t.root := rfl
@[simp] theorem setParent_nil : (t.setParent p q).nil = t.nil := rfl
@[simp] theorem setParent_parent (r : ℕ) :
    (t.setParent p q).parent r = if r = p then q else t.parent r :=
  Function.update_apply ..

end

section

variable (p x y : ℕ)

@[simp] theorem replaceChild_red : (t.replaceChild p x y).red = t.red := by
  rw [replaceChild]; split <;> rfl

@[simp] theorem replaceChild_parent : (t.replaceChild p x y).parent = t.parent := by
  rw [replaceChild]; split <;> rfl

@[simp] theorem replaceChild_root : (t.replaceChild p x y).root = t.root := by
  rw [replaceChild]; split <;> rfl

@[simp] theorem replaceChild_nil : (t.replaceChild p x y).nil = t.nil := by
  rw [replaceChild]; split <;> rfl

/-- The children of other nodes stay. -/
theorem replaceChild_child_of_ne {r : ℕ} (h : r ≠ p) (e : Dir) :
    (t.replaceChild p x y).child e r = t.child e r := by
  rw [replaceChild]
  split <;> simp [h]

end

/-- The links are those of another tree, and the payload and the sentinels are the same. -/
structure SamePayload (t t' : RbTree K I) : Prop where
  key : t'.key = t.key
  info : t'.info = t.info
  root : t'.root = t.root
  nil : t'.nil = t.nil

variable {t} in
theorem SamePayload.trans {t' t'' : RbTree K I} (h : SamePayload t t') (h' : SamePayload t' t'') :
    SamePayload t t'' :=
  ⟨h'.key.trans h.key, h'.info.trans h.info, h'.root.trans h.root, h'.nil.trans h.nil⟩

theorem SamePayload.refl : SamePayload t t := ⟨rfl, rfl, rfl, rfl⟩

theorem setRed_samePayload (p : ℕ) (c : Bool) : SamePayload t (t.setRed p c) :=
  ⟨rfl, rfl, rfl, rfl⟩

theorem setChild_samePayload (d : Dir) (p q : ℕ) : SamePayload t (t.setChild d p q) :=
  ⟨rfl, rfl, rfl, rfl⟩

theorem setParent_samePayload (p q : ℕ) : SamePayload t (t.setParent p q) :=
  ⟨rfl, rfl, rfl, rfl⟩

theorem replaceChild_samePayload (p x y : ℕ) : SamePayload t (t.replaceChild p x y) := by
  rw [replaceChild]
  split
  · exact t.setChild_samePayload _ _ _
  · exact t.setChild_samePayload _ _ _

end RbTree

/-! ## Links -/

/-- The address of the root of a tree, `nil` for a leaf. -/
def ptr (t : RbTree K I) : BinTree ℕ → ℕ
  | .leaf => t.nil
  | .node _ _ x _ => x

@[simp] theorem ptr_leaf : ptr t .leaf = t.nil := rfl

@[simp] theorem ptr_join (d : Dir) (c : Bool) (a : BinTree ℕ) (x : ℕ) (b : BinTree ℕ) :
    ptr t (join d c a x b) = x := by
  cases d <;> rfl

theorem ptr_congr (h : t'.nil = t.nil) (T : BinTree ℕ) : ptr t' T = ptr t T := by
  cases T with
  | leaf => exact h
  | node c l x r => rfl

/-- The address above the hole of a context. -/
def up (t : RbTree K I) : TreeCtx ℕ → ℕ
  | [] => t.root
  | f :: _ => f.x

theorem up_congr (h : t'.root = t.root) (ctx : TreeCtx ℕ) : up t' ctx = up t ctx := by
  cases ctx with
  | nil => exact h
  | cons f ctx => rfl

/-- The nodes are linked as the tree, below `q`. -/
def Links (t : RbTree K I) : ℕ → BinTree ℕ → Prop
  | _, .leaf => True
  | q, .node c l x r =>
      t.red x = c ∧ t.parent x = q ∧ t.child .left x = ptr t l ∧ t.child .right x = ptr t r ∧
        Links t x l ∧ Links t x r

@[simp] theorem links_leaf (t : RbTree K I) (q : ℕ) : Links t q .leaf := trivial

theorem links_join {q : ℕ} {d : Dir} {c : Bool} {a : BinTree ℕ} {x : ℕ} {b : BinTree ℕ} :
    Links t q (join d c a x b) ↔ t.red x = c ∧ t.parent x = q ∧ t.child d x = ptr t a ∧
      t.child d.flip x = ptr t b ∧ Links t x a ∧ Links t x b := by
  cases d with
  | left => exact Iff.rfl
  | right =>
      simp only [join, Links, Dir.flip]
      tauto

/-- The nodes are linked as the context, with `p` in the hole. -/
def CLinks (t : RbTree K I) : TreeCtx ℕ → ℕ → Prop
  | [], p => t.child .left t.root = p
  | f :: ctx, p =>
      t.red f.x = f.red ∧ t.parent f.x = up t ctx ∧ t.child f.dir f.x = p ∧
        t.child f.dir.flip f.x = ptr t f.sib ∧ Links t f.x f.sib ∧ CLinks t ctx f.x

/-- Nothing was assigned to a field of `p` that a tree shows. -/
structure SameAt (t t' : RbTree K I) (p : ℕ) : Prop where
  red : t'.red p = t.red p
  parent : t'.parent p = t.parent p
  child : ∀ d, t'.child d p = t.child d p

theorem Links.congr {q : ℕ} {T : BinTree ℕ} (h : Links t q T) (hnil : t'.nil = t.nil)
    (hsame : ∀ p ∈ T.toList, SameAt t t' p) : Links t' q T := by
  induction T generalizing q with
  | leaf => trivial
  | node c l x r ihl ihr =>
      obtain ⟨hred, hpar, hl, hr, hll, hlr⟩ := h
      have hx := hsame x (by simp [toList])
      refine ⟨hx.red.trans hred, hx.parent.trans hpar, ?_, ?_, ?_, ?_⟩
      · rw [hx.child, hl, ptr_congr hnil]
      · rw [hx.child, hr, ptr_congr hnil]
      · exact ihl hll fun p hp => hsame p (by simp [toList, hp])
      · exact ihr hlr fun p hp => hsame p (by simp [toList, hp])

theorem CLinks.congr {ctx : TreeCtx ℕ} {p : ℕ} (h : CLinks t ctx p) (hnil : t'.nil = t.nil)
    (hroot : t'.root = t.root) (htop : t'.child .left t.root = t.child .left t.root)
    (hsame : ∀ p ∈ ctx.entries, SameAt t t' p) : CLinks t' ctx p := by
  induction ctx generalizing p with
  | nil =>
      show t'.child .left t'.root = p
      rw [hroot, htop]
      exact h
  | cons f ctx ih =>
      obtain ⟨hred, hpar, hd, hflip, hsib, hrest⟩ := h
      have hx := hsame f.x (by simp [TreeCtx.entries])
      refine ⟨hx.red.trans hred, ?_, ?_, ?_, ?_, ?_⟩
      · rw [hx.parent, hpar, up_congr hroot]
      · rw [hx.child, hd]
      · rw [hx.child, hflip, ptr_congr hnil]
      · exact hsib.congr hnil fun p hp => hsame p (by simp [TreeCtx.entries, hp])
      · exact ih hrest fun p hp => hsame p (by
          simp only [TreeCtx.entries, List.flatMap_cons, List.mem_append]
          exact .inr hp)

/-- The address of a tree is one of its nodes, or `nil`. -/
theorem ptr_mem (t : RbTree K I) (T : BinTree ℕ) : T = .leaf ∨ ptr t T ∈ T.toList := by
  cases T with
  | leaf => exact .inl rfl
  | node c l x r => exact .inr (by simp [ptr, toList])

/-- The address of a tree with its hole filled. -/
theorem ptr_plug (ctx : TreeCtx ℕ) (T : BinTree ℕ) :
    ptr t (plug ctx T) = ptr t T ∨ ptr t (plug ctx T) ∈ ctx.entries := by
  induction ctx generalizing T with
  | nil => exact .inl rfl
  | cons f ctx ih =>
      refine .inr ?_
      simp only [TreeCtx.entries, List.flatMap_cons, List.cons_append, List.mem_cons,
        List.mem_append]
      rcases ih (f.fill T) with heq | hmem
      · exact .inl (heq.trans (ptr_join ..))
      · exact .inr (.inr hmem)

/-- The address above a hole is in the context, or the sentinel. -/
theorem up_mem (t : RbTree K I) (ctx : TreeCtx ℕ) : up t ctx = t.root ∨ up t ctx ∈ ctx.entries := by
  cases ctx with
  | nil => exact .inl rfl
  | cons f ctx => exact .inr (by simp [up, TreeCtx.entries])

/-- The side of the node above it that a hole is on. The root of the tree is the left child of
the sentinel. -/
def holeDir : TreeCtx ℕ → Dir
  | [] => .left
  | f :: _ => f.dir

/-- The hole gets another address. -/
theorem CLinks.setHole {ctx : TreeCtx ℕ} {x : ℕ} (h : CLinks t ctx x) (y : ℕ)
    (hroot : t.root ∉ ctx.entries) (hnodup : ctx.entries.Nodup) :
    CLinks (t.setChild (holeDir ctx) (up t ctx) y) ctx y := by
  cases ctx with
  | nil =>
      show (t.setChild .left t.root y).child .left t.root = y
      simp
  | cons f ctx =>
      obtain ⟨hred, hpar, hd, hflip, hsib, hrest⟩ := h
      simp only [TreeCtx.entries, List.flatMap_cons, List.cons_append, List.mem_cons,
        List.mem_append, not_or] at hroot
      simp only [TreeCtx.entries, List.flatMap_cons, List.cons_append, List.nodup_cons,
        List.mem_append, not_or] at hnodup
      have hsame : ∀ p, p ≠ f.x → SameAt t (t.setChild f.dir f.x y) p := fun p hp =>
        ⟨rfl, rfl, fun e => by simp [hp]⟩
      refine ⟨hred, hpar, ?_, ?_, ?_, ?_⟩
      · simp [holeDir, up]
      · simp only [holeDir, up, setChild_child, Dir.flip_ne, false_and, if_false]
        rw [hflip]
        rfl
      · exact hsib.congr rfl fun p hp => hsame p (fun heq => hnodup.1.1 (heq ▸ hp))
      · exact hrest.congr rfl rfl (by simp [up, hroot.1]) fun p hp =>
          hsame p (fun heq => hnodup.1.2 (heq ▸ hp))

/-- The test of the source finds the side. -/
theorem CLinks.replaceChild_eq {ctx : TreeCtx ℕ} {x : ℕ} (h : CLinks t ctx x) (y : ℕ)
    (hx : x ∉ ctx.entries) (hnil : x ≠ t.nil) :
    t.replaceChild (up t ctx) x y = t.setChild (holeDir ctx) (up t ctx) y := by
  cases ctx with
  | nil =>
      have hleft : x = t.child .left t.root := h.symm
      exact if_pos hleft
  | cons f ctx =>
      obtain ⟨-, -, hd, hflip, -⟩ := h
      simp only [TreeCtx.entries, List.flatMap_cons, List.cons_append, List.mem_cons,
        List.mem_append, not_or] at hx
      simp only [holeDir, up, RbTree.replaceChild]
      cases hdir : f.dir with
      | left =>
          rw [hdir] at hd
          exact if_pos hd.symm
      | right =>
          rw [hdir] at hflip
          refine if_neg ?_
          rw [show t.child .left f.x = ptr t f.sib from hflip]
          -- the other child is not `x`
          rcases ptr_mem t f.sib with hleaf | hmem
          · rw [hleaf]
            exact hnil
          · exact fun heq => hx.2.1 (heq ▸ hmem)

/-- A subtree is put below another node. -/
theorem Links.reparent {q q' : ℕ} {T : BinTree ℕ} (h : Links t q T) (hnodup : T.toList.Nodup)
    (htop : t'.parent (ptr t T) = q' ∨ T = .leaf)
    (hred : ∀ p ∈ T.toList, t'.red p = t.red p) (hnil' : t'.nil = t.nil)
    (hchild : ∀ p ∈ T.toList, ∀ d, t'.child d p = t.child d p)
    (hpar : ∀ p ∈ T.toList, p ≠ ptr t T → t'.parent p = t.parent p) : Links t' q' T := by
  cases T with
  | leaf => trivial
  | node c l x r =>
      obtain ⟨hc, -, hl, hr, hll, hlr⟩ := h
      simp only [toList, List.mem_append, List.mem_cons] at hred hchild hpar
      simp only [toList, List.nodup_append, List.nodup_cons, List.mem_cons, ne_eq] at hnodup
      have hx := hchild x (.inr (.inl rfl))
      refine ⟨(hred x (.inr (.inl rfl))).trans hc, htop.resolve_right (by simp), ?_, ?_, ?_, ?_⟩
      · rw [hx, hl, ptr_congr hnil']
      · rw [hx, hr, ptr_congr hnil']
      · refine hll.congr hnil' fun p hp => ⟨hred p (.inl hp), ?_, hchild p (.inl hp)⟩
        exact hpar p (.inl hp) (hnodup.2.2 p hp x (.inl rfl))
      · refine hlr.congr hnil' fun p hp =>
          ⟨hred p (.inr (.inr hp)), ?_, hchild p (.inr (.inr hp))⟩
        refine hpar p (.inr (.inr hp)) ?_
        rintro rfl
        exact hnodup.2.1.1 hp

/-! ## The representation -/

/-- The nodes of `t` are those of `T` in `ctx`. -/
structure Rep (t : RbTree K I) (ctx : TreeCtx ℕ) (T : BinTree ℕ) : Prop where
  nodup : (T.toList ++ ctx.entries).Nodup
  root_notMem : t.root ∉ T.toList ++ ctx.entries
  nil_notMem : t.nil ∉ T.toList ++ ctx.entries
  root_ne_nil : t.root ≠ t.nil
  root_black : t.red t.root = false
  nil_black : t.red t.nil = false
  links : Links t (up t ctx) T
  clinks : CLinks t ctx (ptr t T)

/-- The focus moves over a node. -/
theorem rep_cons_iff {f : TreeFrame ℕ} {ctx : TreeCtx ℕ} {T : BinTree ℕ} :
    Rep t (f :: ctx) T ↔ Rep t ctx (f.fill T) := by
  have hperm : (T.toList ++ TreeCtx.entries (f :: ctx)).Perm
      ((f.fill T).toList ++ ctx.entries) := by
    have h := (toList_join_perm f.dir f.red T f.x f.sib).append_right ctx.entries
    refine List.Perm.trans ?_ h.symm
    simp [TreeCtx.entries]
  have hlinks : Links t (up t (f :: ctx)) T ∧ CLinks t (f :: ctx) (ptr t T) ↔
      Links t (up t ctx) (f.fill T) ∧ CLinks t ctx (ptr t (f.fill T)) := by
    rw [TreeFrame.fill, links_join, ptr_join]
    simp only [CLinks, up]
    tauto
  constructor
  · intro h
    obtain ⟨hl, hc⟩ := hlinks.mp ⟨h.links, h.clinks⟩
    exact ⟨hperm.nodup_iff.mp h.nodup, fun hm => h.root_notMem (hperm.mem_iff.mpr hm),
      fun hm => h.nil_notMem (hperm.mem_iff.mpr hm), h.root_ne_nil, h.root_black, h.nil_black,
      hl, hc⟩
  · intro h
    obtain ⟨hl, hc⟩ := hlinks.mpr ⟨h.links, h.clinks⟩
    exact ⟨hperm.nodup_iff.mpr h.nodup, fun hm => h.root_notMem (hperm.mem_iff.mp hm),
      fun hm => h.nil_notMem (hperm.mem_iff.mp hm), h.root_ne_nil, h.root_black, h.nil_black,
      hl, hc⟩

/-- The focus moves to the root. -/
theorem rep_plug_iff {ctx : TreeCtx ℕ} {T : BinTree ℕ} : Rep t ctx T ↔ Rep t [] (plug ctx T) := by
  induction ctx generalizing T with
  | nil => exact Iff.rfl
  | cons f ctx ih => rw [rep_cons_iff, ih, plug]

/-! ## Reading and painting -/

namespace Rep

variable {ctx : TreeCtx ℕ} {d : Dir} {c : Bool} {a b s T : BinTree ℕ} {x : ℕ}

/-- The fields of a node in the focus. -/
theorem fields (h : Rep t ctx (join d c a x b)) :
    t.red x = c ∧ t.parent x = up t ctx ∧ t.child d x = ptr t a ∧ t.child d.flip x = ptr t b := by
  obtain ⟨hred, hpar, hd, hflip, -⟩ := links_join.mp h.links
  exact ⟨hred, hpar, hd, hflip⟩

/-- The fields of the node above the focus. -/
theorem frame_fields (h : Rep t (⟨d, c, x, s⟩ :: ctx) T) :
    t.red x = c ∧ t.parent x = up t ctx ∧ t.child d x = ptr t T ∧ t.child d.flip x = ptr t s :=
  fields (rep_cons_iff.mp h)

/-- The colour of a subtree, also of a leaf. -/
theorem red_ptr (h : Rep t ctx T) : t.red (ptr t T) = T.isRed := by
  cases T with
  | leaf => exact h.nil_black
  | node c l x r => exact h.links.1

/-- The focus on the other subtree of the node above it. -/
theorem swap (h : Rep t (⟨d, c, x, s⟩ :: ctx) T) : Rep t (⟨d.flip, c, x, T⟩ :: ctx) s := by
  rw [rep_cons_iff, TreeFrame.fill, join_flip]
  exact rep_cons_iff.mp h

/-- And back. -/
theorem swapBack (h : Rep t (⟨d.flip, c, x, s⟩ :: ctx) T) : Rep t (⟨d, c, x, T⟩ :: ctx) s := by
  have hswap := h.swap
  rwa [Dir.flip_flip] at hswap

/-- The address of the sibling of the focus. -/
theorem sibling {e : Dir} {c' : Bool} {y : ℕ} (h : Rep t (⟨d, c, x, join e c' a y b⟩ :: ctx) T) :
    t.child d.flip x = y :=
  h.frame_fields.2.2.2.trans (ptr_join ..)

/-- The focus on the subtree on side `d`. -/
theorem down (h : Rep t ctx (join d c a x b)) : Rep t (⟨d, c, x, b⟩ :: ctx) a :=
  rep_cons_iff.mpr h

/-- The focus on the node above. -/
theorem out (h : Rep t (⟨d, c, x, s⟩ :: ctx) T) : Rep t ctx (join d c T x s) :=
  rep_cons_iff.mp h

/-- A node is not `nil`. -/
theorem ne_nil (h : Rep t ctx (join d c a x b)) : x ≠ t.nil := by
  rintro rfl
  refine h.nil_notMem (List.mem_append_left _ ?_)
  cases d <;> simp [join, toList]

/-- What is in the context is not in the focus. -/
theorem notMem (h : Rep t ctx T) {r : ℕ} (hr : r ∈ ctx.entries) : r ∉ T.toList := by
  intro hmem
  exact (List.nodup_append.mp h.nodup).2.2 r hmem r hr rfl

/-- The two subtrees of a node have different addresses, if they are not both leaves. -/
theorem ptr_ne (h : Rep t (⟨d, c, x, s⟩ :: ctx) T) (hne : T ≠ .leaf ∨ s ≠ .leaf) :
    ptr t T ≠ ptr t s := by
  have hn := h.nodup
  have hnil := h.nil_notMem
  simp only [TreeCtx.entries, List.flatMap_cons, List.cons_append, List.nodup_append,
    List.mem_cons, List.mem_append] at hn hnil
  have hT := ptr_mem t T
  have hs := ptr_mem t s
  rcases hT with rfl | hT
  · rcases hs with rfl | hs
    · simp at hne
    · intro heq
      rw [ptr_leaf] at heq
      exact hnil (.inr (.inr (.inl (by rw [heq]; exact hs))))
  · rcases hs with rfl | hs
    · intro heq
      rw [ptr_leaf] at heq
      exact hnil (.inl (by rw [← heq]; exact hT))
    · exact hn.2.2 _ hT _ (.inr (.inl hs))

/-- The test for the side that the focus is on. -/
theorem side_eq (h : Rep t (⟨d, c, x, s⟩ :: ctx) T) (hne : T ≠ .leaf ∨ s ≠ .leaf) :
    (if ptr t T = t.child .left x then Dir.left else .right) = d := by
  obtain ⟨-, -, hd, hflip⟩ := h.frame_fields
  cases d with
  | left => rw [if_pos hd.symm]
  | right =>
      rw [if_neg]
      rw [show t.child .left x = ptr t s from hflip]
      exact h.ptr_ne hne

/-- **A colour.** -/
theorem setRed (h : Rep t ctx (join d c a x b)) (c' : Bool) :
    Rep (t.setRed x c') ctx (join d c' a x b) := by
  obtain ⟨hnodup, hroot, hnil, hrn, hrb, hnb, hlinks, hclinks⟩ := h
  have hlist := toList_join_color d c' c a x b
  have hperm := (toList_join_perm d c a x b).append_right ctx.entries
  have hn := hperm.nodup_iff.mp hnodup
  have hx : x ≠ t.root ∧ x ≠ t.nil := by
    have hmem : x ∈ (join d c a x b).toList ++ ctx.entries := hperm.mem_iff.mpr (by simp)
    exact ⟨fun heq => hroot (heq ▸ hmem), fun heq => hnil (heq ▸ hmem)⟩
  simp only [List.nodup_append, List.nodup_cons, List.mem_append, List.mem_cons, ne_eq] at hn
  have hsame : ∀ p, p ≠ x → SameAt t (t.setRed x c') p := fun p hp =>
    ⟨by simp [hp], rfl, fun _ => rfl⟩
  have hup : up (t.setRed x c') ctx = up t ctx := up_congr rfl ctx
  obtain ⟨-, hpar, hd, hflip, hla, hlb⟩ := links_join.mp hlinks
  constructor
  · rw [hlist]
    exact hnodup
  · rw [hlist]
    exact hroot
  · rw [hlist]
    exact hnil
  · exact hrn
  · simpa [Ne.symm hx.1] using hrb
  · simpa [Ne.symm hx.2] using hnb
  · rw [hup, links_join]
    refine ⟨by simp, hpar, ?_, ?_, ?_, ?_⟩
    · rw [ptr_congr (t.setRed_nil x c')]
      exact hd
    · rw [ptr_congr (t.setRed_nil x c')]
      exact hflip
    · exact hla.congr rfl fun p hp => hsame p (by grind)
    · exact hlb.congr rfl fun p hp => hsame p (by grind)
  · rw [ptr_join] at hclinks ⊢
    exact hclinks.congr rfl rfl rfl fun p hp => hsame p (by grind)

end Rep

/-! ## Rotations -/

/-- What a rotation assigns, from the fields before it. -/
theorem rotate_eq {d : Dir} {x y b g : ℕ} (hy : t.child d.flip x = y) (hb : t.child d y = b)
    (hg : t.parent x = g) (hxy : x ≠ y) (hxb : x ≠ b) :
    rotate d t x = (((((if b ≠ t.nil then (t.setChild d.flip x b).setParent b x
      else t.setChild d.flip x b).setParent y g).replaceChild g x y).setChild d y x).setParent
        x y) := by
  have hb' : (t.setChild d.flip x b).child d y = b := by simp [hb]
  simp only [rotate, hy, hb, hb', RbTree.setChild_nil]
  split_ifs <;> simp [hg, hxy, hxb]

/-- The fields behind a rotation of `x` with its child `y`, whose other child is `b`. -/
theorem rotate_fields {d : Dir} {x y b g : ℕ} (hy : t.child d.flip x = y) (hb : t.child d y = b)
    (hg : t.parent x = g) (hxy : x ≠ y) (hxb : x ≠ b) :
    (rotate d t x).red = t.red ∧
    (∀ r, (rotate d t x).parent r
      = if r = x then y else if r = y then g else if r = b ∧ b ≠ t.nil then x else t.parent r) ∧
    (∀ e r, r ≠ g → (rotate d t x).child e r
      = if e = d ∧ r = y then x else if e = d.flip ∧ r = x then b else t.child e r) := by
  rw [rotate_eq hy hb hg hxy hxb]
  refine ⟨?_, ?_, ?_⟩
  · split_ifs <;> simp
  · intro r
    by_cases hbn : b = t.nil <;> simp [hbn]
  · intro e r hr
    rw [RbTree.setParent_child, RbTree.setChild_child,
      RbTree.replaceChild_child_of_ne _ _ _ _ hr]
    by_cases hbn : b = t.nil <;> simp [hbn]

/-- The payload is not assigned to. -/
theorem rotate_samePayload (d : Dir) (t : RbTree K I) (x : ℕ) :
    RbTree.SamePayload t (rotate d t x) := by
  simp only [rotate]
  -- the assignments from the last to the first
  refine SamePayload.trans ?_ (setParent_samePayload _ _ _)
  refine SamePayload.trans ?_ (setChild_samePayload _ _ _ _)
  refine SamePayload.trans ?_ (replaceChild_samePayload _ _ _ _)
  refine SamePayload.trans ?_ (setParent_samePayload _ _ _)
  split_ifs
  · exact (setChild_samePayload _ _ _ _).trans (setParent_samePayload _ _ _)
  · exact setChild_samePayload _ _ _ _

@[simp] theorem rotate_red (d : Dir) (t : RbTree K I) (x : ℕ) : (rotate d t x).red = t.red := by
  simp only [rotate]
  split_ifs <;> simp

/-- The context of a rotation. -/
theorem CLinks.rotate {ctx : TreeCtx ℕ} {d : Dir} {x y b : ℕ} (h : CLinks t ctx x)
    (hy : t.child d.flip x = y) (hb : t.child d y = b) (hg : t.parent x = up t ctx) (hxy : x ≠ y)
    (hxb : x ≠ b) (hx : x ∉ ctx.entries) (hy' : y ∉ ctx.entries) (hb' : b ∉ ctx.entries)
    (hroot : t.root ∉ ctx.entries) (hnodup : ctx.entries.Nodup) (hnil : x ≠ t.nil)
    (hrx : t.root ≠ x) (hry : t.root ≠ y) : CLinks (Rb.rotate d t x) ctx y := by
  rw [rotate_eq hy hb hg hxy hxb]
  have hne : ∀ {p q : ℕ}, p ∈ ctx.entries → q ∉ ctx.entries → p ≠ q := by
    intro p q hp hq heq
    exact hq (heq ▸ hp)
  -- the assignments before the child of the parent is replaced
  generalize hpre : (if b ≠ t.nil then (t.setChild d.flip x b).setParent b x
    else t.setChild d.flip x b).setParent y (up t ctx) = t₁
  obtain ⟨-, -, hroot₁, hnil₁⟩ : SamePayload t t₁ := by
    rw [← hpre]
    refine SamePayload.trans ?_ (setParent_samePayload _ _ _)
    split_ifs
    · exact (setChild_samePayload _ _ _ _).trans (setParent_samePayload _ _ _)
    · exact setChild_samePayload _ _ _ _
  have hbefore : CLinks t₁ ctx x := by
    refine h.congr hnil₁ hroot₁ ?_ fun p hp => ⟨?_, ?_, ?_⟩
    · rw [← hpre]
      split_ifs <;> simp [hrx]
    · rw [← hpre]
      split_ifs <;> rfl
    · rw [← hpre]
      split_ifs <;> simp [hne hp hb', hne hp hy']
    · intro e
      rw [← hpre]
      split_ifs <;> simp [hne hp hx]
  have hup : up t₁ ctx = up t ctx := up_congr hroot₁ ctx
  have hmiddle := hbefore.setHole y (hroot₁ ▸ hroot) hnodup
  rw [← hbefore.replaceChild_eq y hx (hnil₁ ▸ hnil), hup] at hmiddle
  refine hmiddle.congr rfl rfl ?_ fun p hp => ⟨rfl, ?_, ?_⟩
  · simp [hroot₁, hry]
  · simp [hne hp hx]
  · intro e
    simp [hne hp hy']

/-- **A rotation.** -/
theorem Rep.rotate {ctx : TreeCtx ℕ} {d : Dir} {c c' : Bool} {a b e : BinTree ℕ} {x y : ℕ}
    (h : Rep t ctx (join d c a x (join d c' b y e))) :
    Rep (Rb.rotate d t x) ctx (join d c' (join d c a x b) y e) := by
  obtain ⟨hnodup, hroot, hnil, hrn, hrb, hnb, hlinks, hclinks⟩ := h
  have hlist : (join d c' (join d c a x b) y e).toList
      = (join d c a x (join d c' b y e)).toList := toList_rotate d c c' c c' a x b y e
  -- all addresses are different
  have hperm : ((join d c a x (join d c' b y e)).toList ++ ctx.entries).Perm
      (a.toList ++ (x :: (b.toList ++ (y :: (e.toList ++ ctx.entries))))) := by
    refine ((toList_join_perm d c a x _).append_right _).trans ?_
    rw [List.append_assoc, List.cons_append]
    refine List.Perm.append_left _ (List.Perm.cons _ ?_)
    refine ((toList_join_perm d c' b y e).append_right _).trans ?_
    simp
  have hn := hperm.nodup_iff.mp hnodup
  have hr : ∀ p ∈ a.toList ++ (x :: (b.toList ++ (y :: (e.toList ++ ctx.entries)))),
      p ≠ t.root ∧ p ≠ t.nil := fun p hp =>
    ⟨fun heq => hroot (heq ▸ hperm.mem_iff.mpr hp), fun heq => hnil (heq ▸ hperm.mem_iff.mpr hp)⟩
  obtain ⟨hcx, hpx, hxa, hxy, hla, hly⟩ := links_join.mp hlinks
  obtain ⟨hcy, hpy, hyb, hye, hlb, hle⟩ := links_join.mp hly
  rw [ptr_join] at hxy hclinks
  simp only [List.nodup_append, List.nodup_cons, List.mem_append, List.mem_cons, ne_eq] at hn hr
  have hbmem := ptr_mem t b
  have hup := up_mem t ctx
  have hxy' : x ≠ y := by grind
  have hxb : x ≠ ptr t b := by grind [ptr]
  have hyb' : y ≠ ptr t b := by grind [ptr]
  have hbn : ptr t b ∉ ctx.entries := by grind [ptr]
  have hgx : up t ctx ≠ x := by grind
  have hgy : up t ctx ≠ y := by grind
  obtain ⟨hred, hpar, hchild⟩ := rotate_fields hxy hyb hpx hxy' hxb
  obtain ⟨-, -, hroot', hnil'⟩ := rotate_samePayload d t x
  have hup' : up (Rb.rotate d t x) ctx = up t ctx := up_congr hroot' ctx
  have hsame : ∀ p, p ≠ x → p ≠ y → p ≠ ptr t b → p ≠ up t ctx → SameAt t (Rb.rotate d t x) p := by
    intro p h1 h2 h3 h4
    refine ⟨by rw [hred], by rw [hpar]; simp [h1, h2, h3], fun e => ?_⟩
    rw [hchild e p h4]
    simp [h1, h2]
  constructor
  · rw [hlist]
    exact hnodup
  · rw [hlist, hroot']
    exact hroot
  · rw [hlist, hnil']
    exact hnil
  · rw [hroot', hnil']
    exact hrn
  · rw [hroot', hred, hrb]
  · rw [hnil', hred, hnb]
  · rw [hup', links_join, links_join]
    refine ⟨by rw [hred, hcy], ?_, ?_, ?_, ⟨by rw [hred, hcx], ?_, ?_, ?_, ?_, ?_⟩, ?_⟩
    · rw [hpar, if_neg (Ne.symm hxy'), if_pos rfl]
    · rw [hchild _ _ (Ne.symm hgy), if_pos ⟨rfl, rfl⟩, ptr_join]
    · rw [hchild _ _ (Ne.symm hgy), if_neg (by simp), if_neg (fun hc => hxy' hc.2.symm), hye,
        ptr_congr hnil']
    · rw [hpar, if_pos rfl]
    · rw [hchild _ _ (Ne.symm hgx), if_neg (fun hc => hxy' hc.2), if_neg (by simp), hxa,
        ptr_congr hnil']
    · rw [hchild _ _ (Ne.symm hgx), if_neg (fun hc => hxy' hc.2), if_pos ⟨rfl, rfl⟩,
        ptr_congr hnil']
    · refine hla.congr hnil' fun p hp => hsame p ?_ ?_ ?_ ?_ <;> grind [ptr]
    · refine hlb.reparent (by grind) ?_ (fun p _ => by rw [hred]) hnil' ?_ ?_
      · rcases hbmem with rfl | hmem
        · exact .inr rfl
        · refine .inl ?_
          rw [hpar, if_neg (Ne.symm hxb), if_neg (Ne.symm hyb'), if_pos ⟨rfl, by grind⟩]
      · intro p hp e'
        rw [hchild e' p (by grind), if_neg (by grind), if_neg (by grind)]
      · intro p hp hpb
        rw [hpar, if_neg (by grind), if_neg (by grind), if_neg (by grind)]
    · refine hle.congr hnil' fun p hp => hsame p ?_ ?_ ?_ ?_ <;> grind [ptr]
  · rw [ptr_join]
    exact hclinks.rotate hxy hyb hpx hxy' hxb (by grind) (by grind) hbn (by grind) (by grind)
      (by grind) (by grind) (by grind)

/-- A rotation does not touch the parent of `nil`. -/
theorem Rep.rotate_parent_nil {ctx : TreeCtx ℕ} {d : Dir} {c c' : Bool} {a b e : BinTree ℕ}
    {x y : ℕ} (h : Rep t ctx (join d c a x (join d c' b y e))) :
    (Rb.rotate d t x).parent t.nil = t.parent t.nil := by
  have hx := h.ne_nil
  have hin : Rep t (⟨d.flip, c, x, a⟩ :: ctx) (join d c' b y e) := h.down.swap
  have hy := hin.ne_nil
  obtain ⟨-, hpx, -, hxy⟩ := h.fields
  obtain ⟨-, -, hyb, -⟩ := hin.fields
  rw [ptr_join] at hxy
  have hxy' : x ≠ y := by
    have hn := hin.nodup
    have hmem : y ∈ (join d c' b y e).toList := (toList_join_perm d c' b y e).mem_iff.mpr (by simp)
    simp only [TreeCtx.entries, List.flatMap_cons, List.cons_append, List.nodup_append,
      List.mem_cons] at hn
    exact fun heq => hn.2.2 y hmem x (.inl rfl) heq.symm
  have hxb : x ≠ ptr t b := by
    have hinb := hin.down
    have hn := hinb.nodup
    rcases ptr_mem t b with rfl | hmem
    · exact hx
    · simp only [TreeCtx.entries, List.flatMap_cons, List.cons_append, List.nodup_append,
        List.mem_cons, List.mem_append] at hn
      exact fun heq => hn.2.2 _ hmem x (.inr (.inr (.inl rfl))) heq.symm
  obtain ⟨-, hpar, -⟩ := rotate_fields hxy hyb hpx hxy' hxb
  rw [hpar, if_neg (Ne.symm hx), if_neg (Ne.symm hy), if_neg]
  rintro ⟨heq, hne⟩
  exact hne heq.symm

end CCode.Rb
