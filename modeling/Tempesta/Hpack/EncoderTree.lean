import Tempesta.Hpack.EncoderBuffer

/-!
The red-black tree of the encoder table, as the `tfw_hpack_rbtree_*` functions
maintain it inside the ring buffer. The mirrored branches of the source are one
definition with a direction. A function is undefined (`none`) where the source
stops in `BUG_ON`, dereferences a null pointer, follows an offset that is not
aligned, or does not end within the given number of iterations.
-/

namespace Tempesta.Hpack
open RbLib

/-- The code shared by both rotations and `tfw_hpack_rbtree_replace`: what
pointed to `old` now points to `new`. -/
def relinkParent (t : TfwHPackTree) (parent : Option Nat) (old : Nat)
    (new : Option Nat) : TfwHPackTree :=
  match parent with
  | none => { t with root := new }
  | some parent =>
    if hpackNodeEmpty (t.kid .left parent) = false ∧
        hpackNodeCond (t.kid .left parent) = some (some old) then
      t.setKid .left parent (hpackNodeCondOff new)
    else t.setKid .right parent (hpackNodeCondOff new)

/-- `if (child) child->parent = off` -/
def adopt (t : TfwHPackTree) (child : Option Nat) (off : Int16) : TfwHPackTree :=
  match child with
  | some child => t.setParent child off
  | none => t

/-- Rotation in the direction `d`: the child on the other side moves up. -/
def rotate (d : Dir) (t : TfwHPackTree) (oldApex : Nat) : Option TfwHPackTree := do
  let newApex ← (← hpackNodeCond (t.kid d.opp oldApex))
  let t := t.setKid d.opp oldApex (t.kid d newApex)
  let child ← hpackNodeCond (t.kid d newApex)
  let t := adopt t child (hpackNodeOff oldApex)
  let t := t.setParent newApex (t.parent oldApex)
  let parent ← hpackNodeCond (t.parent oldApex)
  let t := relinkParent t parent oldApex (some newApex)
  let t := t.setKid d newApex (hpackNodeOff oldApex)
  some (t.setParent oldApex (hpackNodeOff newApex))

def tfwHpackRbtreeLeftRt := rotate .left

def tfwHpackRbtreeRightRt := rotate .right

/-- The rotation that is called `left_rt` in the branch for `d = left`. -/
def rotateTo : Dir → TfwHPackTree → Nat → Option TfwHPackTree
  | .left => tfwHpackRbtreeLeftRt
  | .right => tfwHpackRbtreeRightRt

def isRed (t : TfwHPackTree) : Option Nat → Bool
  | none => false
  | some p => t.color p = .red

/-- The branch of `tfw_hpack_rbtree_ins_rebalance` without a red uncle, with
`parent` on the side `d` of `gparent`. The result is the next `parent`. -/
def insRotate (d : Dir) (t : TfwHPackTree) (new parent gparent : Nat) :
    Option (TfwHPackTree × Nat) := do
  let inner ← hpackNodeCond (t.kid d.opp parent)
  let (t, parent) ←
    if inner = some new then do some (← rotateTo d t parent, new)
    else some (t, parent)
  let t := t.setColor parent .black
  let t := t.setColor gparent .red
  some (← rotateTo d.opp t gparent, parent)

/-- The loop of `tfw_hpack_rbtree_ins_rebalance`. The branch with `d = left` is
the one for `parent == gp_left_child`. -/
def insLoop : Nat → TfwHPackTree → Nat → Option Nat → Option TfwHPackTree
  | 0, _, _, _ => none
  | _ + 1, t, _, none => some t
  | fuel + 1, t, new, some parent => do
      if t.color parent = .black then some t
      else
        let gparent ← (← hpackNodeCond (t.parent parent))
        let gpLeftChild ← hpackNodeCond (t.kid .left gparent)
        let d : Dir := if some parent = gpLeftChild then .left else .right
        let uncle ← hpackNodeCond (t.kid d.opp gparent)
        match uncle, isRed t uncle with
        | some uncle, true =>
          let t := t.setColor parent .black
          let t := t.setColor uncle .black
          let t := t.setColor gparent .red
          insLoop fuel t gparent (← hpackNodeCond (t.parent gparent))
        | _, _ =>
          let (t, parent) ← insRotate d t new parent gparent
          insLoop fuel t new (some parent)

/-- An upper bound for the number of iterations: the buffer has 512 words. -/
def rbtreeFuel : Nat := 1024

def tfwHpackRbtreeInsRebalance (t : TfwHPackTree) (new : Nat) : Option TfwHPackTree := do
  let t ← insLoop rbtreeFuel t new (← hpackNodeCond (t.parent new))
  let root ← t.root
  some (t.setColor root .black)

/-- The end of an iteration of `tfw_hpack_rbtree_del_rebalance`, with a black
`brother` on the side opposite to `d`. The result is the next `nchild`. -/
def delBlackBrother (d : Dir) (t : TfwHPackTree) (parent brother : Nat) :
    Option (TfwHPackTree × Option Nat × Option Nat) := do
  let inner ← hpackNodeCond (t.kid d brother)
  let outer ← hpackNodeCond (t.kid d.opp brother)
  if isRed t inner = false ∧ isRed t outer = false then
    let t := t.setColor brother .red
    some (t, some parent, ← hpackNodeCond (t.parent parent))
  else
    let (t, brother, outer) ←
      if isRed t outer = false then do
        let inner ← inner
        let t := t.setColor inner .black
        let t := t.setColor brother .red
        let t ← rotateTo d.opp t brother
        some (t, ← (← hpackNodeCond (t.kid d.opp parent)), brother)
      else do some (t, brother, ← outer)
    let t := t.setColor brother (t.color parent)
    let t := t.setColor parent .black
    let t := t.setColor outer .black
    let t ← rotateTo d t parent
    some (t, t.root, some parent)

/-- One iteration of `tfw_hpack_rbtree_del_rebalance`. The branch with
`d = left` is the one for `nchild` on the left of `parent`. -/
def delStep (t : TfwHPackTree) (nchild : Option Nat) (parent : Nat) :
    Option (TfwHPackTree × Option Nat × Option Nat) := do
  let left ← hpackNodeCond (t.kid .left parent)
  let d : Dir := if nchild = left then .left else .right
  let brother ← (← hpackNodeCond (t.kid d.opp parent))
  if t.color brother = .red then
    let t := t.setColor brother .black
    let t := t.setColor parent .red
    let t ← rotateTo d t parent
    let brother ← (← hpackNodeCond (t.kid d.opp parent))
    delBlackBrother d t parent brother
  else delBlackBrother d t parent brother

/-- The loop of `tfw_hpack_rbtree_del_rebalance`. -/
def delLoop : Nat → TfwHPackTree → Option Nat → Option Nat →
    Option (TfwHPackTree × Option Nat)
  | 0, _, _, _ => none
  | fuel + 1, t, nchild, parent => do
      if nchild = none ∨ (nchild ≠ t.root ∧ isRed t nchild = false) then
        let (t, nchild, parent) ← delStep t nchild (← parent)
        delLoop fuel t nchild parent
      else some (t, nchild)

def tfwHpackRbtreeDelRebalance (t : TfwHPackTree) (nchild parent : Option Nat) :
    Option TfwHPackTree := do
  let _ ← t.root
  let (t, nchild) ← delLoop rbtreeFuel t nchild parent
  some (t.setColor (← nchild) .black)

/-- The loop of `tfw_hpack_rbtree_min`. -/
def minLoop : Nat → TfwHPackTree → Nat → Option Nat
  | 0, _, _ => none
  | fuel + 1, t, node => do
      match ← hpackNodeCond (t.kid .left node) with
      | none => some node
      | some left => minLoop fuel t left

def tfwHpackRbtreeMin := minLoop rbtreeFuel

def tfwHpackRbtreeReplace (t : TfwHPackTree) (old : Nat) (new : Option Nat) :
    Option TfwHPackTree := do
  let parent ← hpackNodeCond (t.parent old)
  let t := relinkParent t parent old new
  some (adopt t new (hpackNodeCondOff parent))

/-- A place for a new node: the parent and the side on which it has no child. -/
structure TfwHPackNodeIter where
  parent : Option Nat
  poff : Dir

def tfwHpackRbtreeAdd (t : TfwHPackTree) (new : Nat) (it : TfwHPackNodeIter) :
    Option TfwHPackTree := do
  let t := t.setParent new (hpackNodeCondOff it.parent)
  let t ← match it.parent with
    | none => if t.root = none then some { t with root := some new } else none
    | some parent => some (t.setKid it.poff parent (hpackNodeOff new))
  let t := t.setKid .left new (-1)
  let t := t.setKid .right new (-1)
  let t := t.setColor new .red
  tfwHpackRbtreeInsRebalance t new

/-- The middle of `tfw_hpack_rbtree_erase`, for a node with two children: its
successor takes its place. The result is the subtree that has lost a level, its
parent, and the colour that has left the path to it. -/
def eraseInner (t : TfwHPackTree) (node right left : Nat) :
    Option (TfwHPackTree × Option Nat × Option Nat × Color) := do
  let sv ← tfwHpackRbtreeMin t right
  let svColor := t.color sv
  let nchild ← hpackNodeCond (t.kid .right sv)
  let svParent ← (← hpackNodeCond (t.parent sv))
  let (t, parent) ←
    if node ≠ svParent then do
      let t ← tfwHpackRbtreeReplace t sv nchild
      let nRight ← (← hpackNodeCond (t.kid .right node))
      let t := t.setParent nRight (hpackNodeOff sv)
      some (t.setKid .right sv (t.kid .right node), svParent)
    else some (t, sv)
  let t ← tfwHpackRbtreeReplace t node (some sv)
  let t := t.setParent left (hpackNodeOff sv)
  let t := t.setKid .left sv (t.kid .left node)
  let t := t.setColor sv (t.color node)
  some (t, nchild, some parent, svColor)

def tfwHpackRbtreeErase (t : TfwHPackTree) (node : Nat) : Option TfwHPackTree := do
  let parent ← hpackNodeCond (t.parent node)
  let left ← hpackNodeCond (t.kid .left node)
  let right ← hpackNodeCond (t.kid .right node)
  let (t, nchild, parent, svColor) ←
    match left, right with
    | none, _ => do some (← tfwHpackRbtreeReplace t node right, right, parent, t.color node)
    | _, none => do some (← tfwHpackRbtreeReplace t node left, left, parent, t.color node)
    | some left, some right => eraseInner t node right left
  if svColor = .black ∧ t.root ≠ none then tfwHpackRbtreeDelRebalance t nchild parent
  else some t

end Tempesta.Hpack
