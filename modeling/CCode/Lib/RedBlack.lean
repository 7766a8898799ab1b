import Mathlib.Data.List.Nodup
import Mathlib.Data.List.Perm.Basic
import Mathlib.Tactic

/-!
# Red-black trees and their contexts

Binary trees with a colour at each node, and what is left of a tree where a subtree is taken
out: the way up to the root, with the subtree on the other side of each node.

A red-black tree has the same number of black nodes on all ways down, and no red node with a
red child. `CtxRB` says the same of a context with a hole of some black height: filled with a
tree of this height it is a red-black tree. An algorithm that repairs a tree from below keeps
the two apart: at the hole something is wrong, and the context is right.

Everything that has a mirror image is written once, with a direction.

## Main definitions

* `Dir`, `BinTree`, `BinTree.join` — trees, and a node seen from one of its sides.
* `TreeFrame`, `TreeCtx`, `plug` — contexts.
* `BinTree.RB`, `CtxRB` — the invariant.
-/

namespace CCode.Lib

variable {α : Type*}

/-- A side. -/
inductive Dir
  | left
  | right
  deriving DecidableEq

/-- The other side. -/
def Dir.flip : Dir → Dir
  | .left => .right
  | .right => .left

@[simp] theorem Dir.flip_flip (d : Dir) : d.flip.flip = d := by
  cases d <;> rfl

@[simp] theorem Dir.flip_ne (d : Dir) : d.flip ≠ d := by
  cases d <;> decide

@[simp] theorem Dir.ne_flip (d : Dir) : d ≠ d.flip := by
  cases d <;> decide

theorem Dir.eq_or_eq_flip (d e : Dir) : e = d ∨ e = d.flip := by
  cases d <;> cases e <;> decide

/-! ## Trees -/

/-- Binary trees with a colour at each node. -/
inductive BinTree (α : Type*)
  | leaf
  | node (red : Bool) (l : BinTree α) (x : α) (r : BinTree α)

namespace BinTree

/-- The entries in order. -/
def toList : BinTree α → List α
  | leaf => []
  | node _ l x r => l.toList ++ x :: r.toList

/-- Leaves count as black. -/
def isRed : BinTree α → Bool
  | leaf => false
  | node c _ _ _ => c

/-- The tree with another colour at its root. -/
def paint (c : Bool) : BinTree α → BinTree α
  | leaf => leaf
  | node _ l x r => node c l x r

/-- A node, with the subtree on side `d` first. -/
def join (d : Dir) (c : Bool) (a : BinTree α) (x : α) (b : BinTree α) : BinTree α :=
  match d with
  | .left => node c a x b
  | .right => node c b x a

theorem join_flip (d : Dir) (c : Bool) (a : BinTree α) (x : α) (b : BinTree α) :
    join d.flip c a x b = join d c b x a := by
  cases d <;> rfl

/-- Every node can be seen from either side. -/
theorem exists_join (d : Dir) (c : Bool) (l : BinTree α) (x : α) (r : BinTree α) :
    ∃ a b, node c l x r = join d c a x b := by
  cases d with
  | left => exact ⟨l, r, rfl⟩
  | right => exact ⟨r, l, rfl⟩

@[simp] theorem isRed_join (d : Dir) (c : Bool) (a : BinTree α) (x : α) (b : BinTree α) :
    (join d c a x b).isRed = c := by
  cases d <;> rfl

@[simp] theorem paint_join (d : Dir) (c c' : Bool) (a : BinTree α) (x : α) (b : BinTree α) :
    (join d c a x b).paint c' = join d c' a x b := by
  cases d <;> rfl

theorem isRed_paint (t : BinTree α) : (t.paint false).isRed = false := by
  cases t <;> rfl

@[simp] theorem toList_paint (c : Bool) (t : BinTree α) : (t.paint c).toList = t.toList := by
  cases t <;> rfl

/-- The colour has no part in the order. -/
theorem toList_join_color (d : Dir) (c c' : Bool) (a : BinTree α) (x : α) (b : BinTree α) :
    (join d c a x b).toList = (join d c' a x b).toList := by
  cases d <;> rfl

theorem toList_join_congr {a a' b b' : BinTree α} (d : Dir) (c : Bool) (x : α)
    (ha : a.toList = a'.toList) (hb : b.toList = b'.toList) :
    (join d c a x b).toList = (join d c a' x b').toList := by
  cases d <;> simp [join, toList, ha, hb]

/-- A rotation keeps the order. -/
theorem toList_rotate (d : Dir) (c c' k k' : Bool) (a : BinTree α) (x : α) (b : BinTree α) (y : α)
    (e : BinTree α) :
    (join d c' (join d c a x b) y e).toList = (join d k a x (join d k' b y e)).toList := by
  cases d <;> simp [join, toList]

theorem toList_join_perm (d : Dir) (c : Bool) (a : BinTree α) (x : α) (b : BinTree α) :
    (join d c a x b).toList.Perm (a.toList ++ x :: b.toList) := by
  cases d with
  | left => exact List.Perm.refl _
  | right =>
      simp only [join, toList]
      exact List.perm_append_comm.trans List.perm_middle.symm

@[simp] theorem mem_toList_join {d : Dir} {c : Bool} {a b : BinTree α} {x y : α} :
    y ∈ (join d c a x b).toList ↔ y ∈ a.toList ∨ y = x ∨ y ∈ b.toList := by
  rw [(toList_join_perm d c a x b).mem_iff]
  simp

/-- A red-black tree with `n` black nodes on each way down. -/
def RB : BinTree α → ℕ → Prop
  | leaf, n => n = 0
  | node true l _ r, n => RB l n ∧ RB r n ∧ l.isRed = false ∧ r.isRed = false
  | node false _ _ _, 0 => False
  | node false l _ r, n + 1 => RB l n ∧ RB r n

section RB

variable {d : Dir} {a b t : BinTree α} {x : α} {n : ℕ}

@[simp] theorem rb_leaf : (leaf : BinTree α).RB n ↔ n = 0 := Iff.rfl

@[simp] theorem rb_join_red :
    (join d true a x b).RB n ↔ a.RB n ∧ b.RB n ∧ a.isRed = false ∧ b.isRed = false := by
  cases d with
  | left => exact Iff.rfl
  | right =>
      simp only [join, RB]
      tauto

@[simp] theorem rb_join_black_succ : (join d false a x b).RB (n + 1) ↔ a.RB n ∧ b.RB n := by
  cases d with
  | left => exact Iff.rfl
  | right => exact and_comm

@[simp] theorem rb_join_black_zero : ¬ (join d false a x b).RB 0 := by
  cases d <;> exact id

theorem rb_join_black : (join d false a x b).RB n ↔ ∃ m, n = m + 1 ∧ a.RB m ∧ b.RB m := by
  cases n <;> simp

/-- A tree with some black height has a node. -/
theorem RB.exists_join (h : t.RB (n + 1)) (d : Dir) : ∃ c a x b, t = join d c a x b := by
  cases t with
  | leaf => exact absurd h (Nat.succ_ne_zero n)
  | node c l x r =>
      obtain ⟨a, b, h⟩ := BinTree.exists_join d c l x r
      exact ⟨c, a, x, b, h⟩

/-- Painting a red root black makes the tree higher. -/
theorem RB.paint_black (h : t.RB n) : ∃ m, (t.paint false).RB m := by
  cases t with
  | leaf => exact ⟨n, h⟩
  | node c l x r =>
      cases c with
      | true => exact ⟨n + 1, h.1, h.2.1⟩
      | false => exact ⟨n, h⟩

/-- A red tree has a node. -/
theorem exists_join_of_isRed (h : t.isRed = true) (d : Dir) : ∃ a x b, t = join d true a x b := by
  cases t with
  | leaf => cases h
  | node c l x r =>
      obtain rfl : c = true := h
      obtain ⟨a, b, h⟩ := BinTree.exists_join d true l x r
      exact ⟨a, x, b, h⟩

end RB

end BinTree

/-! ## Contexts -/

/-- A node on the way up from a hole, which is on side `dir` of it, and its other subtree. -/
structure TreeFrame (α : Type*) where
  dir : Dir
  red : Bool
  x : α
  sib : BinTree α

/-- The way up from a hole. -/
abbrev TreeCtx (α : Type*) := List (TreeFrame α)

/-- The node with its hole filled. -/
def TreeFrame.fill (f : TreeFrame α) (t : BinTree α) : BinTree α := .join f.dir f.red t f.x f.sib

/-- The tree with the hole filled. -/
def plug : TreeCtx α → BinTree α → BinTree α
  | [], t => t
  | f :: ctx, t => plug ctx (f.fill t)

namespace TreeCtx

/-- The entries of a context, from the hole up. -/
def entries (ctx : TreeCtx α) : List α := ctx.flatMap fun f => f.x :: f.sib.toList

/-- The entries before the hole. -/
def pre : TreeCtx α → List α
  | [] => []
  | f :: ctx => pre ctx ++ match f.dir with
      | .left => []
      | .right => f.sib.toList ++ [f.x]

/-- The entries behind the hole. -/
def post : TreeCtx α → List α
  | [] => []
  | f :: ctx => (match f.dir with
      | .left => f.x :: f.sib.toList
      | .right => []) ++ post ctx

end TreeCtx

theorem toList_plug (ctx : TreeCtx α) (t : BinTree α) :
    (plug ctx t).toList = ctx.pre ++ t.toList ++ ctx.post := by
  induction ctx generalizing t with
  | nil => simp [plug, TreeCtx.pre, TreeCtx.post]
  | cons f ctx ih =>
      rw [plug, ih]
      cases hd : f.dir with
      | left => simp [TreeFrame.fill, TreeCtx.pre, TreeCtx.post, BinTree.join, BinTree.toList, hd]
      | right => simp [TreeFrame.fill, TreeCtx.pre, TreeCtx.post, BinTree.join, BinTree.toList, hd]

theorem toList_plug_congr {t t' : BinTree α} (ctx : TreeCtx α) (h : t.toList = t'.toList) :
    (plug ctx t).toList = (plug ctx t').toList := by
  rw [toList_plug, toList_plug, h]

theorem toList_plug_perm (ctx : TreeCtx α) (t : BinTree α) :
    (plug ctx t).toList.Perm (t.toList ++ ctx.entries) := by
  induction ctx generalizing t with
  | nil => simp [plug, TreeCtx.entries]
  | cons f ctx ih =>
      refine (ih (f.fill t)).trans ?_
      refine ((BinTree.toList_join_perm f.dir f.red t f.x f.sib).append_right _).trans ?_
      simp [TreeCtx.entries]

/-- Every node of a context is an entry. -/
theorem TreeCtx.length_le (ctx : TreeCtx α) : ctx.length ≤ ctx.entries.length := by
  induction ctx with
  | nil => simp
  | cons f ctx ih =>
      simp only [TreeCtx.entries, List.flatMap_cons, List.length_append, List.length_cons] at ih ⊢
      omega

/-- The depth of a hole is at most the number of entries. -/
theorem TreeCtx.length_le_plug (ctx : TreeCtx α) (t : BinTree α) :
    ctx.length ≤ (plug ctx t).toList.length := by
  rw [(toList_plug_perm ctx t).length_eq, List.length_append]
  exact ctx.length_le.trans (Nat.le_add_left _ _)

/-- Every entry has its place. -/
theorem exists_plug {t : BinTree α} {x : α} (h : x ∈ t.toList) :
    ∃ ctx c l r, t = plug ctx (.node c l x r) := by
  -- the induction is on the tree, with the context that has been passed on the way down
  have key : ∀ (t : BinTree α) (ctx : TreeCtx α), x ∈ t.toList →
      ∃ ctx' c l r, plug ctx t = plug ctx' (.node c l x r) := by
    intro t
    induction t with
    | leaf => intro ctx h; cases h
    | node c l y r ihl ihr =>
        intro ctx h
        simp only [BinTree.toList, List.mem_append, List.mem_cons] at h
        rcases h with h | rfl | h
        · exact ihl (⟨.left, c, y, r⟩ :: ctx) h
        · exact ⟨ctx, c, l, r, rfl⟩
        · exact ihr (⟨.right, c, y, l⟩ :: ctx) h
  exact key t [] h

/-- There is a node above the hole, and it is black. -/
def TopBlack : TreeCtx α → Prop
  | [] => False
  | f :: _ => f.red = false

/-- The context of a hole of black height `n` in a red-black tree with a black root. -/
def CtxRB : TreeCtx α → ℕ → Prop
  | [], _ => True
  | f :: ctx, n =>
      f.sib.RB n ∧
        if f.red then f.sib.isRed = false ∧ TopBlack ctx ∧ CtxRB ctx n else CtxRB ctx (n + 1)

section CtxRB

variable {ctx : TreeCtx α} {t s : BinTree α} {d : Dir} {x : α} {n : ℕ}

@[simp] theorem ctxRB_nil : CtxRB ([] : TreeCtx α) n := trivial

@[simp] theorem ctxRB_red :
    CtxRB (⟨d, true, x, s⟩ :: ctx) n ↔ s.RB n ∧ s.isRed = false ∧ TopBlack ctx ∧ CtxRB ctx n :=
  Iff.rfl

@[simp] theorem ctxRB_black :
    CtxRB (⟨d, false, x, s⟩ :: ctx) n ↔ s.RB n ∧ CtxRB ctx (n + 1) :=
  Iff.rfl

/-- The node above a hole that is below a red node. -/
theorem TopBlack.exists_cons (h : TopBlack ctx) : ∃ d x s rest, ctx = ⟨d, false, x, s⟩ :: rest := by
  cases ctx with
  | nil => exact absurd h id
  | cons f rest =>
      obtain ⟨d, c, x, s⟩ := f
      obtain rfl : c = false := h
      exact ⟨d, x, s, rest, rfl⟩

/-- The root above a hole is black. -/
theorem CtxRB.isRed_plug (h : CtxRB ctx n) (hne : ctx ≠ []) (t : BinTree α) :
    (plug ctx t).isRed = false := by
  induction ctx generalizing t n with
  | nil => exact absurd rfl hne
  | cons f ctx ih =>
      obtain ⟨d, c, x, s⟩ := f
      cases c with
      | true =>
          obtain ⟨-, -, htop, hrest⟩ := h
          refine ih hrest ?_ _
          rintro rfl
          exact htop
      | false =>
          cases ctx with
          | nil => simp [plug, TreeFrame.fill]
          | cons g ctx => exact ih h.2 (by simp) _

/-- A context is filled with a tree of its height that is black, or below a black node. -/
theorem CtxRB.plug_rb (hctx : CtxRB ctx n) (ht : t.RB n)
    (htop : t.isRed = true → TopBlack ctx) :
    (∃ m, (plug ctx t).RB m) ∧ (plug ctx t).isRed = false := by
  induction ctx generalizing t n with
  | nil =>
      refine ⟨⟨n, ht⟩, ?_⟩
      by_contra hred
      exact htop (by simpa [plug] using hred)
  | cons f ctx ih =>
      obtain ⟨d, c, x, s⟩ := f
      cases c with
      | true =>
          obtain ⟨hs, hsb, hblack, hrest⟩ := hctx
          have htb : t.isRed = false := by
            by_contra hred
            exact absurd (htop (by simpa using hred)) (by simp [TopBlack])
          refine ih hrest ?_ fun _ => hblack
          exact BinTree.rb_join_red.mpr ⟨ht, hs, htb, hsb⟩
      | false =>
          obtain ⟨hs, hrest⟩ := hctx
          refine ih hrest (BinTree.rb_join_black_succ.mpr ⟨ht, hs⟩) ?_
          intro hred
          simp [TreeFrame.fill] at hred

/-- And every place of a red-black tree with a black root is like that. -/
theorem ctxRB_of_plug {m : ℕ} (h : (plug ctx t).RB m) (hroot : (plug ctx t).isRed = false) :
    ∃ n, t.RB n ∧ CtxRB ctx n ∧ (t.isRed = true → TopBlack ctx) := by
  induction ctx generalizing t with
  | nil =>
      refine ⟨m, h, trivial, ?_⟩
      intro hred
      rw [plug, hred] at hroot
      cases hroot
  | cons f ctx ih =>
      obtain ⟨d, c, x, s⟩ := f
      obtain ⟨n, hfill, hctx, htop⟩ := ih h hroot
      cases c with
      | true =>
          obtain ⟨ht, hs, htb, hsb⟩ := BinTree.rb_join_red.mp hfill
          refine ⟨n, ht, ⟨hs, hsb, htop (by simp [TreeFrame.fill]), hctx⟩, ?_⟩
          intro hred
          rw [htb] at hred
          cases hred
      | false =>
          obtain ⟨k, rfl, ht, hs⟩ := BinTree.rb_join_black.mp hfill
          exact ⟨k, ht, ⟨hs, hctx⟩, fun _ => rfl⟩

end CtxRB

end CCode.Lib
