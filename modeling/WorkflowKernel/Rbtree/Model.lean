import Mathlib.Logic.Function.Basic
import WorkflowKernel.Lib.Zipper

/-!
# rbtree.c

The nodes of one `rb_root`, of an arbitrary type `N`: what `rb_parent`, `rb_left`, `rb_right` and
`rb_color` of each hold, written in the order of the source. A pointer is an `Option`, and reading
through `NULL` ends the call with an error.

The source writes `__rb_rotate_left` and `__rb_rotate_right`, `rb_next` and `rb_prev` and the two
halves of its loops as mirror images; here each pair is one definition with the side as a parameter.
A loop takes fuel, and the call ends with an error when it runs out.
-/

namespace WorkflowKernel.Rbtree

open WorkflowKernel.Lib

/-- How a call goes wrong. -/
inductive Fault
  | null
  | fuel
  deriving DecidableEq, Repr

/-- The `rb_root` and the fields of every `rb_node`. -/
structure Mem (N : Type) where
  root : Option N
  parent : N → Option N
  child : Side → N → Option N
  color : N → Color

/-- A `struct rb_node **`: the root's pointer or the one in a node. -/
inductive Link (N : Type)
  | root
  | child (side : Side) (parent : N)
  deriving DecidableEq

/-- Reading through a pointer. -/
def deref {N : Type} : Option N → Except Fault N
  | some node => .ok node
  | none => .error .null

variable {N : Type} [DecidableEq N]

namespace Mem

def setRoot (m : Mem N) (o : Option N) : Mem N := { m with root := o }

def setParent (m : Mem N) (node : N) (o : Option N) : Mem N :=
  { m with parent := Function.update m.parent node o }

def setChild (m : Mem N) (side : Side) (node : N) (o : Option N) : Mem N :=
  { m with child := Function.update m.child side (Function.update (m.child side) node o) }

def setColor (m : Mem N) (node : N) (c : Color) : Mem N :=
  { m with color := Function.update m.color node c }

section Fields

variable (m : Mem N) (a b : N) (side s : Side) (o : Option N) (c : Color)

@[simp] theorem setParent_root : (m.setParent a o).root = m.root := rfl

/-- The one parent pointer that is written. -/
theorem setParent_parent : (m.setParent a o).parent b = if b = a then o else m.parent b :=
  Function.update_apply ..

/-- `rb_parent` is written and no child pointer. -/
@[simp] theorem setParent_child : (m.setParent a o).child side b = m.child side b := rfl

/-- `rb_parent` and `rb_color` are fields of their own. -/
@[simp] theorem setParent_color : (m.setParent a o).color b = m.color b := rfl

@[simp] theorem setChild_root : (m.setChild side a o).root = m.root := rfl

/-- A child pointer is written and no parent pointer. -/
@[simp] theorem setChild_parent : (m.setChild side a o).parent b = m.parent b := rfl

/-- One of the two child pointers of one node is written. -/
theorem setChild_child :
    (m.setChild side a o).child s b = if s = side ∧ b = a then o else m.child s b := by
  show Function.update m.child side _ s b = _
  rw [Function.update_apply]
  split
  next h =>
    subst h
    rw [Function.update_apply]
    simp only [true_and]
  next h => rw [if_neg fun hboth => h hboth.1]

/-- Linking a child paints nothing. -/
@[simp] theorem setChild_color : (m.setChild side a o).color b = m.color b := rfl

@[simp] theorem setColor_root : (m.setColor a c).root = m.root := rfl

/-- Painting a node leaves it where it is. -/
@[simp] theorem setColor_parent : (m.setColor a c).parent b = m.parent b := rfl

/-- Painting a node leaves its children. -/
@[simp] theorem setColor_child : (m.setColor a c).child side b = m.child side b := rfl

/-- One node is painted. -/
theorem setColor_color : (m.setColor a c).color b = if b = a then c else m.color b :=
  Function.update_apply ..

end Fields

/-- `*p`. -/
def read (m : Mem N) : Link N → Option N
  | .root => m.root
  | .child side parent => m.child side parent

/-- `*p = o`. -/
def write (m : Mem N) (o : Option N) : Link N → Mem N
  | .root => m.setRoot o
  | .child side parent => m.setChild side parent o

/-- `o && o->rb_color == RB_RED`. -/
def isRed (m : Mem N) : Option N → Bool
  | none => false
  | some node => m.color node = .red

/-- `if (o) o->rb_parent = parent`. -/
def adopt (m : Mem N) (parent : Option N) : Option N → Mem N
  | none => m
  | some node => m.setParent node parent

/-- `if (o) o->rb_color = c`. -/
def paint (m : Mem N) (c : Color) : Option N → Mem N
  | none => m
  | some node => m.setColor node c

/-- The pointer to `old` in its parent, or in the root, turned to `new`. The source asks on one side
and takes the other one if `old` is not there. -/
def replaceChild (m : Mem N) (side : Side) (parent : Option N) (old : N) (new : Option N) : Mem N :=
  match parent with
  | some p =>
    if m.child side p = some old then m.setChild side p new else m.setChild side.other p new
  | none => m.setRoot new

section Pointers

variable (m : Mem N) (a b old : N) (side s : Side) (p o new : Option N) (c : Color)

/-- `if (o) o->rb_parent = parent` leaves the root. -/
@[simp] theorem adopt_root : (m.adopt p o).root = m.root := by
  cases o <;> rfl

/-- The node that is adopted, if there is one, gets its parent. -/
theorem adopt_parent : (m.adopt p o).parent b = if o = some b then p else m.parent b := by
  cases o with
  | none => rfl
  | some a =>
    rw [adopt, setParent_parent]
    simp only [Option.some.injEq, eq_comm]

/-- Its children stay. -/
@[simp] theorem adopt_child : (m.adopt p o).child side b = m.child side b := by
  cases o <;> rfl

@[simp] theorem adopt_color : (m.adopt p o).color b = m.color b := by
  cases o <;> rfl

/-- A pointer to a node is replaced, in its parent or in the root; the parents are not told. -/
@[simp] theorem replaceChild_parent :
    (m.replaceChild side p old new).parent b = m.parent b := by
  cases p with
  | none => rfl
  | some p =>
    show (if _ then _ else _ : Mem N).parent b = _
    split <;> rfl

/-- Nobody is painted then. -/
@[simp] theorem replaceChild_color :
    (m.replaceChild side p old new).color b = m.color b := by
  cases p with
  | none => rfl
  | some p =>
    show (if _ then _ else _ : Mem N).color b = _
    split <;> rfl

end Pointers

/-- `__rb_rotate_left` and `__rb_rotate_right`. -/
def rotate (m : Mem N) (side : Side) (node : N) : Except Fault (Mem N) := do
  let right ← deref (m.child side.other node)
  let m := m.setChild side.other node (m.child side right)
  let m := m.adopt (some node) (m.child side right)
  let m := m.setChild side right (some node)
  let m := m.setParent right (m.parent node)
  let m := m.replaceChild side (m.parent node) node (some right)
  return m.setParent node (some right)

/-- `root->rb_node->rb_color = RB_BLACK`. -/
def blackenRoot (m : Mem N) : Except Fault (Mem N) := do
  let root ← deref m.root
  return m.setColor root .black

/-- `rb_insert_color`. -/
def insertColor : Nat → Mem N → N → Except Fault (Mem N)
  | 0, _, _ => .error .fuel
  | fuel + 1, m, node =>
    if m.isRed (m.parent node) then do
      let parent ← deref (m.parent node)
      let gparent ← deref (m.parent parent)
      let side := if m.child .left gparent = some parent then Side.left else .right
      if m.isRed (m.child side.other gparent) then
        let uncle ← deref (m.child side.other gparent)
        let m := ((m.setColor uncle .black).setColor parent .black).setColor gparent .red
        insertColor fuel m gparent
      else
        let (m, parent, node) ←
          if m.child side.other parent = some node then do
            let m ← m.rotate side parent
            pure (m, node, parent)
          else pure (m, parent, node)
        let m ← ((m.setColor parent .black).setColor gparent .red).rotate side.other gparent
        insertColor fuel m node
    else m.blackenRoot

/-- The body of the loop of `__rb_erase_color` from where `other`, the sibling, is black. -/
def eraseBlack (loop : Mem N → Option N → Option N → Except Fault (Mem N)) (m : Mem N) (side : Side)
    (parent other : N) : Except Fault (Mem N) :=
  if ¬m.isRed (m.child side other) ∧ ¬m.isRed (m.child side.other other) then
    loop (m.setColor other .red) (some parent) (m.parent parent)
  else do
    let (m, other) ←
      if ¬m.isRed (m.child side.other other) then do
        let m := (m.paint .black (m.child side other)).setColor other .red
        let m ← m.rotate side.other other
        let other ← deref (m.child side.other parent)
        pure (m, other)
      else pure (m, other)
    let m := (m.setColor other (m.color parent)).setColor parent .black
    let m ← (m.paint .black (m.child side.other other)).rotate side parent
    -- `node = root->rb_node` and the last line of the function
    return m.paint .black m.root

/-- `__rb_erase_color`. -/
def eraseColor : Nat → Mem N → Option N → Option N → Except Fault (Mem N)
  | 0, _, _, _ => .error .fuel
  | fuel + 1, m, node, parent =>
    if m.isRed node ∨ node = m.root then return m.paint .black node
    else do
      let parent ← deref parent
      let side := if m.child .left parent = node then Side.left else .right
      let other ← deref (m.child side.other parent)
      if m.color other = .red then
        let m ← ((m.setColor other .black).setColor parent .red).rotate side parent
        let other ← deref (m.child side.other parent)
        m.eraseBlack (eraseColor fuel) side parent other
      else m.eraseBlack (eraseColor fuel) side parent other

/-- `child` in the place of `node`, whose parent is `parent`. -/
def spliceOut (m : Mem N) (parent : Option N) (node : N) (child : Option N) : Mem N :=
  (m.adopt parent child).replaceChild .left parent node child

/-- `while ((left = node->rb_left)) node = left`, on the other side for `rb_prev`. -/
def descend (m : Mem N) (side : Side) : Nat → N → Except Fault N
  | 0, _ => .error .fuel
  | fuel + 1, node =>
    match m.child side node with
    | some next => descend m side fuel next
    | none => .ok node

/-- `node` with the parent, the colour and the children of `old`. -/
def takePlace (m : Mem N) (old node : N) : Except Fault (Mem N) := do
  let m := m.setParent node (m.parent old)
  let m := m.setColor node (m.color old)
  let m := m.setChild .right node (m.child .right old)
  let m := m.setChild .left node (m.child .left old)
  let m := m.replaceChild .left (m.parent old) old (some node)
  let left ← deref (m.child .left old)
  let m := m.setParent left (some node)
  return m.adopt (some node) (m.child .right old)

/-- `rb_erase`. -/
def erase (fuel : Nat) (m : Mem N) (node : N) : Except Fault (Mem N) := do
  match m.child .left node, m.child .right node with
  | some _, some right =>
    let old := node
    let node ← m.descend .left fuel right
    let child := m.child .right node
    let parent := m.parent node
    let color := m.color node
    let m := m.spliceOut parent node child
    let parent := if m.parent node = some old then some node else parent
    let m ← m.takePlace old node
    if color = .black then eraseColor fuel m child parent else return m
  | left, right =>
    let child := if left = none then right else left
    let parent := m.parent node
    let color := m.color node
    let m := m.spliceOut parent node child
    if color = .black then eraseColor fuel m child parent else return m

/-- `while (node->rb_parent && node == node->rb_parent->rb_right) node = node->rb_parent` and then
`node->rb_parent`, on the other side for `rb_prev`. -/
def ascend (m : Mem N) (side : Side) : Nat → N → Except Fault (Option N)
  | 0, _ => .error .fuel
  | fuel + 1, node =>
    match m.parent node with
    | some parent =>
      if m.child side parent = some node then ascend m side fuel parent else .ok (some parent)
    | none => .ok none

/-- `rb_next` for the right side, `rb_prev` for the left one. -/
def neighbour (fuel : Nat) (m : Mem N) (side : Side) (node : N) : Except Fault (Option N) :=
  match m.child side node with
  | some next => return some (← m.descend side.other fuel next)
  | none => m.ascend side fuel node

/-- `rb_link_node`. -/
def linkNode (m : Mem N) (node : N) (parent : Option N) (link : Link N) : Mem N :=
  let m := (m.setParent node parent).setColor node .red
  let m := (m.setChild .right node none).setChild .left node none
  m.write (some node) link

end Mem

end WorkflowKernel.Rbtree
