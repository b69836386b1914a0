import WorkflowKernel.Lib.LinkedTree

/-!
# A tree around one of its subtrees

A subtree and the path from it to the root: each `Frame` is an ancestor with the subtree on its other
side, the innermost first. What is done below a path is done to the whole tree (`plug`), and its
sequence lies between `before` and `after`.

`fork` builds a node from the subtree on a given side and the one on the other side, so that what
mirrored code does is said once.

## What is proved

- `inorder_plug`: the sequence of a tree around a subtree.
- `exists_plug`: every element is the root of a subtree.
- `inorder_fork_rotate`: a rotation keeps the sequence.
-/

namespace WorkflowKernel.Lib

inductive Side
  | left
  | right
  deriving DecidableEq, Repr

def Side.other : Side → Side
  | .left => .right
  | .right => .left

@[simp] theorem Side.other_other (side : Side) : side.other.other = side := by
  cases side <;> rfl

theorem Side.other_ne (side : Side) : side.other ≠ side := by
  cases side <;> nofun

/-- There are two sides. -/
theorem Side.eq_or_eq_other (side a : Side) : a = side ∨ a = side.other := by
  cases side <;> cases a <;> simp [Side.other]

namespace RbTree

variable {α : Type}

/-- `x` on the side, `y` on the other. -/
def fork (side : Side) (c : Color) (x : RbTree α) (a : α) (y : RbTree α) : RbTree α :=
  match side with
  | .left => node c x a y
  | .right => node c y a x

/-- The root's element. -/
def top : RbTree α → Option α
  | nil => none
  | node _ _ a _ => some a

/-- The node of a fork is its top, -/
@[simp] theorem top_fork (side : Side) (c : Color) (x : RbTree α) (a : α) (y : RbTree α) :
    (fork side c x a y).top = some a := by
  cases side <;> rfl

theorem fork_ne_nil {side : Side} {c : Color} {x : RbTree α} {a : α} {y : RbTree α} :
    fork side c x a y ≠ nil := by
  cases side <;> nofun

/-- Seen from the other side the subtrees are swapped. -/
theorem fork_other (side : Side) (c : Color) (x : RbTree α) (a : α) (y : RbTree α) :
    fork side.other c x a y = fork side c y a x := by
  cases side <;> rfl

/-- and a tree with a top is a fork. -/
theorem eq_fork (side : Side) {t : RbTree α} {a : α} (h : t.top = some a) :
    ∃ c x y, t = fork side c x a y := by
  cases t with
  | nil => cases h
  | node c l b r =>
    cases h
    cases side with
    | left => exact ⟨c, l, r, rfl⟩
    | right => exact ⟨c, r, l, rfl⟩

/-- Only the empty tree has no top. -/
theorem top_eq_none {t : RbTree α} : t.top = none ↔ t = nil := by
  cases t with
  | nil => simp [top]
  | node c l a r => simp [top]

theorem top_mem {t : RbTree α} {a : α} (h : t.top = some a) : a ∈ t.inorder := by
  cases t with
  | nil => cases h
  | node c l b r =>
    cases h
    simp

@[simp] theorem mem_fork {side : Side} {c : Color} {x : RbTree α} {a b : α} {y : RbTree α} :
    b ∈ (fork side c x a y).inorder ↔ b = a ∨ b ∈ x.inorder ∨ b ∈ y.inorder := by
  cases side with
  | left =>
    rw [fork, inorder_node, List.mem_append, List.mem_cons]
    exact or_left_comm
  | right =>
    rw [fork, inorder_node, List.mem_append, List.mem_cons]
    constructor
    · rintro (h | h | h)
      · exact .inr (.inr h)
      · exact .inl h
      · exact .inr (.inl h)
    · rintro (h | h | h)
      · exact .inr (.inl h)
      · exact .inr (.inr h)
      · exact .inl h

/-- A fork has its node and those of its subtrees. -/
theorem perm_fork (side : Side) (c : Color) (x : RbTree α) (a : α) (y : RbTree α) :
    (fork side c x a y).inorder.Perm (a :: (x.inorder ++ y.inorder)) := by
  cases side with
  | left => exact List.perm_middle
  | right => exact List.perm_middle.trans (List.perm_append_comm.cons a)

/-- The lower node goes up, and its subtree between the two changes the parent. -/
theorem inorder_fork_rotate (side : Side) (c c' d d' : Color) (x y z : RbTree α) (a b : α) :
    (fork side d' (fork side d x a y) b z).inorder =
      (fork side c x a (fork side c' y b z)).inorder := by
  cases side with
  | left => simp [fork]
  | right => simp [fork]

/-- Colours do not matter for the sequence. -/
theorem inorder_fork_color (side : Side) (c c' : Color) (x y : RbTree α) (a : α) :
    (fork side c x a y).inorder = (fork side c' x a y).inorder := by
  cases side <;> rfl

/-- The sequence of a fork does not depend on its colour. -/
theorem inorder_fork_congr {side : Side} {c c' : Color} {x x' y y' : RbTree α} {a : α}
    (hx : x.inorder = x'.inorder) (hy : y.inorder = y'.inorder) :
    (fork side c x a y).inorder = (fork side c' x' a y').inorder := by
  cases side <;> simp [fork, hx, hy]

/-! ## Paths -/

/-- An ancestor: the subtree is on `side`, `sibling` on the other one. -/
structure Frame (α : Type) where
  side : Side
  color : Color
  item : α
  sibling : RbTree α

/-- The tree below an ancestor. -/
def Frame.attach (t : RbTree α) (f : Frame α) : RbTree α := fork f.side f.color t f.item f.sibling

/-- The whole tree. -/
def plug (t : RbTree α) (path : List (Frame α)) : RbTree α := path.foldl Frame.attach t

/-- The elements in front of the subtree. -/
def before : List (Frame α) → List α
  | [] => []
  | f :: path =>
    match f.side with
    | .left => before path
    | .right => before path ++ (f.sibling.inorder ++ [f.item])

/-- The elements behind it. -/
def after : List (Frame α) → List α
  | [] => []
  | f :: path =>
    match f.side with
    | .left => f.item :: f.sibling.inorder ++ after path
    | .right => after path

/-- The elements around the subtree. -/
def around : List (Frame α) → List α
  | [] => []
  | f :: path => f.item :: f.sibling.inorder ++ around path

@[simp] theorem plug_nil (t : RbTree α) : plug t [] = t := rfl

@[simp] theorem plug_cons (t : RbTree α) (f : Frame α) (path : List (Frame α)) :
    plug t (f :: path) = plug (f.attach t) path := rfl

/-- A path is plugged in from its inner end. -/
theorem plug_append (t : RbTree α) (path path' : List (Frame α)) :
    plug t (path ++ path') = plug (plug t path) path' := List.foldl_append ..

/-- The sequence of a tree on a path: what the path has before it, its own, and what is after. -/
theorem inorder_plug : ∀ (t : RbTree α) (path : List (Frame α)),
    (plug t path).inorder = before path ++ t.inorder ++ after path
  | t, [] => by simp [before, after]
  | t, f :: path => by
    rw [plug_cons, inorder_plug (f.attach t) path]
    obtain ⟨side, c, a, s⟩ := f
    cases side with
    | left => simp [Frame.attach, fork, before, after]
    | right => simp [Frame.attach, fork, before, after]

/-- A tree may be replaced by one with its sequence. -/
theorem inorder_plug_congr {t t' : RbTree α} (h : t.inorder = t'.inorder)
    (path : List (Frame α)) : (plug t path).inorder = (plug t' path).inorder := by
  rw [inorder_plug, inorder_plug, h]

theorem plug_ne_nil {t : RbTree α} (ht : t ≠ nil) (path : List (Frame α)) : plug t path ≠ nil := by
  induction path generalizing t with
  | nil => exact ht
  | cons f path ih =>
    exact ih fork_ne_nil

/-- The same elements, the subtree's first. -/
theorem perm_plug : ∀ (t : RbTree α) (path : List (Frame α)),
    (plug t path).inorder.Perm (t.inorder ++ around path)
  | t, [] => by simp [around]
  | t, f :: path => by
    rw [plug_cons]
    refine (perm_plug (f.attach t) path).trans ?_
    obtain ⟨side, c, a, s⟩ := f
    rw [around, ← List.append_assoc]
    refine List.Perm.append_right _ ?_
    cases side with
    | left => exact List.Perm.refl _
    | right =>
      show (s.inorder ++ a :: t.inorder).Perm (t.inorder ++ a :: s.inorder)
      refine List.perm_append_comm.trans ?_
      rw [List.cons_append]
      exact List.perm_middle.symm

/-- Every element is the root of a subtree. -/
theorem exists_plug {t : RbTree α} {a : α} (ha : a ∈ t.inorder) :
    ∃ path c l r, t = plug (node c l a r) path := by
  suffices h : ∀ path, ∃ path' c l r, plug t path = plug (node c l a r) path' from h []
  intro path
  induction t generalizing path with
  | nil => cases ha
  | node c l b r ihl ihr =>
    rw [inorder_node, List.mem_append, List.mem_cons] at ha
    rcases ha with ha | rfl | ha
    · exact ihl ha (⟨.left, c, b, r⟩ :: path)
    · exact ⟨path, c, l, r, rfl⟩
    · exact ihr ha (⟨.right, c, b, l⟩ :: path)

/-! ## From either side -/

/-- The sequence from the side on. -/
def order : Side → RbTree α → List α
  | .left, t => t.inorder
  | .right, t => t.inorder.reverse

/-- The sequence towards a side. -/
theorem order_fork (side : Side) (c : Color) (x : RbTree α) (a : α) (y : RbTree α) :
    (fork side c x a y).order side = x.order side ++ a :: y.order side := by
  cases side with
  | left => rfl
  | right => simp [order, fork]

/-- The elements on the side of a subtree, the nearest first. -/
def beyond (side : Side) : List (Frame α) → List α
  | [] => []
  | f :: path =>
    if f.side = side then beyond side path
    else f.item :: f.sibling.order side.other ++ beyond side path

/-- What lies beyond a path on the right is what comes after it, -/
theorem beyond_right (path : List (Frame α)) : beyond .right path = after path := by
  induction path with
  | nil => rfl
  | cons f path ih =>
    obtain ⟨side, c, a, s⟩ := f
    cases side with
    | left => simp [beyond, after, order, Side.other, ih]
    | right => simp [beyond, after, ih]

/-- and on the left what comes before it, backwards. -/
theorem beyond_left (path : List (Frame α)) : beyond .left path = (before path).reverse := by
  induction path with
  | nil => rfl
  | cons f path ih =>
    obtain ⟨side, c, a, s⟩ := f
    cases side with
    | left => simp [beyond, before, ih]
    | right => simp [beyond, before, order, Side.other, ih]

/-- The nodes of a path are around what is plugged in, -/
theorem item_mem_around {path : List (Frame α)} {f : Frame α} (h : f ∈ path) :
    f.item ∈ around path := by
  induction path with
  | nil => cases h
  | cons g path ih =>
    rw [around, List.cons_append, List.mem_cons, List.mem_append]
    rcases List.mem_cons.mp h with rfl | h
    · exact .inl rfl
    · exact .inr (.inr (ih h))

/-- each of them. -/
theorem length_le_around (path : List (Frame α)) : path.length ≤ (around path).length := by
  induction path with
  | nil => exact Nat.le_refl 0
  | cons f path ih =>
    rw [around, List.cons_append, List.length_cons, List.length_cons, List.length_append]
    omega

end RbTree

end WorkflowKernel.Lib
