import CCode.Lib.RedBlack
import CCode.Lib.While

/-!
# The red-black tree of `rb_tree.c`

Nodes in memory, each with a key, an info pointer, a colour, two children and a parent. There
are two sentinels: the left child of `root` is the root of the tree, and `nil` stands for
every leaf. `nil` is one node, and its parent pointer is written to: `RBDelete` leaves there
where a leaf is, and `RBDeleteFixUp` reads it.

The mirrored halves of the functions are written once, with a direction. The loops have a
bound on the number of their rounds.

## Main definitions

* `RbTree` — a tree with its nodes.
* `leftRotate`, `rightRotate` — rotations.
* `rbTreeInsert`, `rbDelete` — the operations.
* `rbInorderTree`, `rbExactQuery`, `rbEnumerate` — the queries.
-/

namespace CCode.Rb

open CCode.Lib

variable {K I : Type}

/-- `struct rb_tree` with the `struct rb_node`s, field by field. -/
structure RbTree (K I : Type) where
  key : ℕ → K
  info : ℕ → I
  red : ℕ → Bool
  child : Dir → ℕ → ℕ
  parent : ℕ → ℕ
  root : ℕ
  nil : ℕ

namespace RbTree

/-- `p->red = c`. -/
def setRed (t : RbTree K I) (p : ℕ) (c : Bool) : RbTree K I :=
  { t with red := Function.update t.red p c }

/-- `p->left = q` or `p->right = q`. -/
def setChild (t : RbTree K I) (d : Dir) (p q : ℕ) : RbTree K I :=
  { t with child := Function.update t.child d (Function.update (t.child d) p q) }

/-- `p->parent = q`. -/
def setParent (t : RbTree K I) (p q : ℕ) : RbTree K I :=
  { t with parent := Function.update t.parent p q }

/-- The child `x` of `p` is replaced by `y`; a node that is not the left child is the right
one. -/
def replaceChild (t : RbTree K I) (p x y : ℕ) : RbTree K I :=
  if x = t.child .left p then t.setChild .left p y else t.setChild .right p y

end RbTree

/-- `RBTreeCreate`, in memory with any contents, with the addresses of the two sentinels. -/
def rbTreeCreate (mem : RbTree K I) (nil root : ℕ) : RbTree K I :=
  let t := { mem with nil := nil, root := root }
  let t := ((t.setParent nil nil).setChild .left nil nil).setChild .right nil nil
  let t := t.setRed nil false
  let t := ((t.setParent root nil).setChild .left root nil).setChild .right root nil
  t.setRed root false

/-! ## Rotations -/

/-- `LeftRotate` and its mirror image: the child of `x` on the other side takes its place, and
`x` becomes the child of that on side `d`. -/
def rotate (d : Dir) (t : RbTree K I) (x : ℕ) : RbTree K I :=
  let y := t.child d.flip x
  let t := t.setChild d.flip x (t.child d y)
  let t := if t.child d y ≠ t.nil then t.setParent (t.child d y) x else t
  let t := t.setParent y (t.parent x)
  let t := t.replaceChild (t.parent x) x y
  let t := t.setChild d y x
  t.setParent x y

/-- `LeftRotate`. -/
def leftRotate (t : RbTree K I) (x : ℕ) : RbTree K I := rotate .left t x

/-- `RightRotate`. -/
def rightRotate (t : RbTree K I) (y : ℕ) : RbTree K I := rotate .right t y

/-! ## Insertion -/

/-- `TreeInsertHelp`. -/
def treeInsertHelp (compare : K → K → Int) (fuel : ℕ) (t : RbTree K I) (z : ℕ) :
    Option (RbTree K I) := do
  let t := (t.setChild .right z t.nil).setChild .left z t.nil
  let (_, y) ← whileFuel (fun s => s.1 ≠ t.nil)
    (fun s => (if compare (t.key s.1) (t.key z) = 1 then t.child .left s.1
      else t.child .right s.1, s.1))
    fuel (t.child .left t.root, t.root)
  let t := t.setParent z y
  some (if y = t.root ∨ compare (t.key y) (t.key z) = 1 then t.setChild .left y z
    else t.setChild .right y z)

/-- The end of a round of `RBTreeInsert`, where the uncle is black and `x` on the outer
side. -/
def insertFixOuter (d : Dir) (t : RbTree K I) (x : ℕ) : RbTree K I × ℕ :=
  let t := t.setRed (t.parent x) false
  let t := t.setRed (t.parent (t.parent x)) true
  (rotate d.flip t (t.parent (t.parent x)), x)

/-- The body of the loop of `RBTreeInsert`, where the parent of `x` is on side `d`. -/
def insertFix (d : Dir) (t : RbTree K I) (x : ℕ) : RbTree K I × ℕ :=
  let y := t.child d.flip (t.parent (t.parent x))
  if t.red y then
    let t := t.setRed (t.parent x) false
    let t := t.setRed y false
    let t := t.setRed (t.parent (t.parent x)) true
    (t, t.parent (t.parent x))
  else if x = t.child d.flip (t.parent x) then
    insertFixOuter d (rotate d t (t.parent x)) (t.parent x)
  else insertFixOuter d t x

/-- The side that the parent of `x` is on. -/
def parentSide (t : RbTree K I) (x : ℕ) : Dir :=
  if t.parent x = t.child .left (t.parent (t.parent x)) then .left else .right

/-- `RBTreeInsert`, with what `rb_malloc` returned. -/
def rbTreeInsert (compare : K → K → Int) (fuel : ℕ) (t : RbTree K I) (key : K) (info : I) :
    Option ℕ → Option (RbTree K I × Option ℕ)
  | none => some (t, none)
  | some x => do
      let t := { t with
        key := Function.update t.key x key
        info := Function.update t.info x info }
      let t ← treeInsertHelp compare fuel t x
      let t := t.setRed x true
      let (t, _) ← whileFuel (fun s => s.1.red (s.1.parent s.2))
        (fun s => insertFix (parentSide s.1 s.2) s.1 s.2) fuel (t, x)
      some (t.setRed (t.child .left t.root) false, some x)

/-! ## Deletion -/

/-- `TreeSuccessor`. -/
def treeSuccessor (fuel : ℕ) (t : RbTree K I) (x : ℕ) : Option ℕ :=
  if t.nil ≠ t.child .right x then
    whileFuel (fun y => t.child .left y ≠ t.nil) (fun y => t.child .left y) fuel
      (t.child .right x)
  else do
    let (_, y) ← whileFuel (fun s => s.1 = t.child .right s.2) (fun s => (s.2, t.parent s.2))
      fuel (x, t.parent x)
    some (if y = t.root then t.nil else y)

/-- The end of a round of `RBDeleteFixUp`, where the far child of the sibling `w` is red. -/
def deleteFixFar (d : Dir) (root : ℕ) (t : RbTree K I) (x w : ℕ) : RbTree K I × ℕ :=
  let t := t.setRed w (t.red (t.parent x))
  let t := t.setRed (t.parent x) false
  let t := t.setRed (t.child d.flip w) false
  (rotate d t (t.parent x), root)

/-- The rest of a round, where the sibling `w` is black. -/
def deleteFixBlack (d : Dir) (root : ℕ) (t : RbTree K I) (x w : ℕ) : RbTree K I × ℕ :=
  if !t.red (t.child .right w) && !t.red (t.child .left w) then
    let t := t.setRed w true
    (t, t.parent x)
  else if !t.red (t.child d.flip w) then
    let t := t.setRed (t.child d w) false
    let t := t.setRed w true
    let t := rotate d.flip t w
    deleteFixFar d root t x (t.child d.flip (t.parent x))
  else deleteFixFar d root t x w

/-- The body of the loop of `RBDeleteFixUp`, where `x` is on side `d`. -/
def deleteFix (d : Dir) (root : ℕ) (t : RbTree K I) (x : ℕ) : RbTree K I × ℕ :=
  let w := t.child d.flip (t.parent x)
  if t.red w then
    let t := t.setRed w false
    let t := t.setRed (t.parent x) true
    let t := rotate d t (t.parent x)
    deleteFixBlack d root t x (t.child d.flip (t.parent x))
  else deleteFixBlack d root t x w

/-- The side that `x` is on. -/
def side (t : RbTree K I) (x : ℕ) : Dir :=
  if x = t.child .left (t.parent x) then .left else .right

/-- `RBDeleteFixUp`. The root is read once, before the loop. -/
def rbDeleteFixUp (fuel : ℕ) (t : RbTree K I) (x : ℕ) : Option (RbTree K I) := do
  let root := t.child .left t.root
  let (t, x) ← whileFuel (fun s => !s.1.red s.2 && root ≠ s.2)
    (fun s => deleteFix (side s.1 s.2) root s.1 s.2) fuel (t, x)
  some (t.setRed x false)

/-- `RBDelete` up to the fix-up: `y`, the node to splice out, is replaced by its child
`x`. -/
def splice (t : RbTree K I) (y x : ℕ) : RbTree K I :=
  let t := t.setParent x (t.parent y)
  if t.root = t.parent y then t.setChild .left t.root x
  else t.replaceChild (t.parent y) y x

/-- `RBDelete` behind the fix-up, where another node was spliced out: `y` takes the place of
`z`. -/
def relink (t : RbTree K I) (z y : ℕ) : RbTree K I :=
  let t := t.setChild .left y (t.child .left z)
  let t := t.setChild .right y (t.child .right z)
  let t := t.setParent y (t.parent z)
  let t := t.setRed y (t.red z)
  let t := t.setParent (t.child .right z) y
  let t := t.setParent (t.child .left z) y
  t.replaceChild (t.parent z) z y

/-- `RBDelete`. -/
def rbDelete (fuel : ℕ) (t : RbTree K I) (z : ℕ) : Option (RbTree K I) := do
  let y ← if t.child .left z = t.nil ∨ t.child .right z = t.nil then some z
    else treeSuccessor fuel t z
  let x := if t.child .left y = t.nil then t.child .right y else t.child .left y
  let t := splice t y x
  let t ← if !t.red y then rbDeleteFixUp fuel t x else some t
  some (if y ≠ z then relink t z y else t)

/-! ## Queries -/

/-- `InorderTreeHelp`: the nodes that `callback` is called with. -/
def inorderTreeHelp (t : RbTree K I) : ℕ → ℕ → Option (List ℕ)
  | 0, x => if x = t.nil then some [] else none
  | fuel + 1, x =>
      if x = t.nil then some [] else do
        let before ← inorderTreeHelp t fuel (t.child .left x)
        let behind ← inorderTreeHelp t fuel (t.child .right x)
        some (before ++ x :: behind)

/-- `RBInorderTree`. -/
def rbInorderTree (fuel : ℕ) (t : RbTree K I) : Option (List ℕ) :=
  inorderTreeHelp t fuel (t.child .left t.root)

/-- `RBExactQuery`: `none` inside for null. -/
def rbExactQuery (compare : K → K → Int) (fuel : ℕ) (t : RbTree K I) (key : K) :
    Option (Option ℕ) := do
  let x ← whileFuel (fun x => x ≠ t.nil && compare (t.key x) key ≠ 0)
    (fun x => if compare (t.key x) key = 1 then t.child .left x else t.child .right x) fuel
    (t.child .left t.root)
  some (if x = t.nil then none else some x)

/-- The second loop of `TreePredecessor`: up from `x` with the parent `y`, as long as `x` is the
left child. -/
def predecessorUp (t : RbTree K I) : ℕ → ℕ → ℕ → Option ℕ
  | 0, _, _ => none
  | fuel + 1, x, y =>
      if x = t.child .left y then
        if y = t.root then some t.nil else predecessorUp t fuel y (t.parent y)
      else some y

/-- `TreePredecessor`. -/
def treePredecessor (fuel : ℕ) (t : RbTree K I) (x : ℕ) : Option ℕ :=
  if t.nil ≠ t.child .left x then
    whileFuel (fun y => t.child .right y ≠ t.nil) (fun y => t.child .right y) fuel
      (t.child .left x)
  else predecessorUp t fuel x (t.parent x)

/-- The second loop of `RBEnumerate`: the nodes that `callback` is called with. -/
def enumerateDown (compare : K → K → Int) (fuel : ℕ) (t : RbTree K I) (low : K) :
    ℕ → ℕ → Option (List ℕ)
  | 0, lastBest => if lastBest ≠ t.nil ∧ compare low (t.key lastBest) ≠ 1 then none else some []
  | rounds + 1, lastBest =>
      if lastBest ≠ t.nil ∧ compare low (t.key lastBest) ≠ 1 then do
        let next ← treePredecessor fuel t lastBest
        let rest ← enumerateDown compare fuel t low rounds next
        some (lastBest :: rest)
      else some []

/-- `RBEnumerate`. -/
def rbEnumerate (compare : K → K → Int) (fuel : ℕ) (t : RbTree K I) (low high : K) :
    Option (List ℕ) := do
  let (_, lastBest) ← whileFuel (fun s => s.1 ≠ t.nil)
    (fun s => if compare (t.key s.1) high = 1 then (t.child .left s.1, s.2)
      else (t.child .right s.1, s.1))
    fuel (t.child .left t.root, t.nil)
  enumerateDown compare fuel t low fuel lastBest

end CCode.Rb
