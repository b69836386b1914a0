import Mathlib.Data.List.Basic
import Mathlib.Data.List.Nodup

/-!
# Coloured binary trees and their sequence

A search tree whose insertion is a descent that the caller writes: `slot` is the child pointer where
the descent ends and `descend` the tree with a new node linked there. `linkRight` links below a
given node instead. What a caller relies on is the in-order sequence, which rotations keep.

## What is proved

- `descend_split`: a descent that goes left from some element on puts the new one before exactly
  these, next to the node it was linked to.
- `head?_descend`, `getLast?_descend`: how the ends of the sequence move.
- `inorder_linkRight`: linking to the right of the last element appends.
- `next_head`, `prev_getLast`: the neighbours of the first and of the last element.
-/

namespace WorkflowKernel.Lib

inductive Color
  | red
  | black
  deriving DecidableEq, Repr

inductive RbTree (α : Type) where
  | nil
  | node (color : Color) (left : RbTree α) (item : α) (right : RbTree α)
  deriving DecidableEq, Repr

namespace RbTree

variable {α : Type}

def inorder : RbTree α → List α
  | nil => []
  | node _ l a r => l.inorder ++ a :: r.inorder

/-- A node just linked. -/
def leaf (x : α) : RbTree α := node .red nil x nil

/-- The tree with `x` linked where the descent ends. -/
def descend (goLeft : α → Bool) (x : α) : RbTree α → RbTree α
  | nil => leaf x
  | node c l a r =>
    if goLeft a then node c (descend goLeft x l) a r else node c l a (descend goLeft x r)

/-- The node whose child pointer the descent ends at, and whether that is the left one. -/
def slot (goLeft : α → Bool) : RbTree α → Option (α × Bool)
  | nil => none
  | node _ l a r =>
    if goLeft a then (slot goLeft l).or (some (a, true)) else (slot goLeft r).or (some (a, false))

/-- The tree with `x` stored in the right child pointer of `y`. -/
def linkRight [DecidableEq α] (y x : α) : RbTree α → RbTree α
  | nil => nil
  | node c l a r =>
    if a = y then node c l a (leaf x) else node c (linkRight y x l) a (linkRight y x r)

@[simp] theorem inorder_nil : (nil : RbTree α).inorder = [] := rfl

@[simp] theorem inorder_node (c : Color) (l : RbTree α) (a : α) (r : RbTree α) :
    (node c l a r).inorder = l.inorder ++ a :: r.inorder := rfl

@[simp] theorem inorder_leaf (x : α) : (leaf x).inorder = [x] := rfl

/-- Only the empty tree has an empty sequence. -/
theorem inorder_eq_nil {t : RbTree α} : t.inorder = [] ↔ t = nil := by
  cases t with
  | nil => simp
  | node c l a r => simp

section Descent

variable {goLeft : α → Bool} {x : α} {t : RbTree α}

/-- The descent goes left at every element behind one at which it goes left. -/
def Monotone (goLeft : α → Bool) (xs : List α) : Prop :=
  xs.Pairwise fun a b => goLeft a = true → goLeft b = true

/-- The parts of an ordered sequence are ordered, and the first is before the second. -/
theorem Monotone.of_append {xs ys : List α} (h : Monotone goLeft (xs ++ ys)) :
    Monotone goLeft xs ∧ Monotone goLeft ys ∧
      ∀ a ∈ xs, ∀ b ∈ ys, goLeft a = true → goLeft b = true :=
  List.pairwise_append.mp h

/-- Only the empty tree has no slot. -/
theorem slot_eq_none (h : slot goLeft t = none) : t = nil := by
  cases t with
  | nil => rfl
  | node c l a r =>
    simp only [slot] at h
    split at h
    · simp at h
    · simp at h

/-- The new element parts those at which the descent goes right from those at which it goes left;
the sequence on either side is as it was. -/
theorem descend_split (hmono : Monotone goLeft t.inorder) : ∃ front back,
    t.inorder = front ++ back ∧ (descend goLeft x t).inorder = front ++ x :: back ∧
      (∀ a ∈ front, goLeft a = false) ∧ (∀ b ∈ back, goLeft b = true) ∧
      (∀ p, slot goLeft t = some (p, true) → back.head? = some p) ∧
      (∀ p, slot goLeft t = some (p, false) → front.getLast? = some p) := by
  induction t with
  | nil => exact ⟨[], [], rfl, rfl, by simp, by simp, by simp [slot], by simp [slot]⟩
  | node c l a r ihl ihr =>
    rw [inorder_node] at hmono
    obtain ⟨hl, har, hcross⟩ := hmono.of_append
    obtain ⟨ha, hr⟩ := List.pairwise_cons.mp har
    cases hgo : goLeft a with
    | true =>
      obtain ⟨front, back, hsplit, hdesc, hfront, hback, hleft, hright⟩ := ihl hl
      refine ⟨front, back ++ a :: r.inorder, ?_, ?_, hfront, ?_, ?_, ?_⟩
      · rw [inorder_node, hsplit, List.append_assoc]
      · simp only [descend, hgo, if_true, inorder_node, hdesc, List.append_assoc,
          List.cons_append]
      · intro b hb
        obtain hb | hb := List.mem_append.mp hb
        · exact hback b hb
        · obtain rfl | hb := List.mem_cons.mp hb
          · exact hgo
          · exact ha b hb hgo
      · intro p hp
        simp only [slot, hgo, if_true] at hp
        cases hs : slot goLeft l with
        | none =>
          -- The left child is missing: the new element comes right before `a`.
          obtain rfl := slot_eq_none hs
          have hempty : front = [] ∧ back = [] := by simpa using hsplit.symm
          rw [hs] at hp
          simp only [Option.none_or, Option.some.injEq, Prod.mk.injEq, and_true] at hp
          simp [hempty.2, hp]
        | some q =>
          rw [hs] at hp
          have hhead := hleft p (by simpa [hs] using hp)
          rw [List.head?_append, hhead]
          rfl
      · intro p hp
        simp only [slot, hgo, if_true] at hp
        cases hs : slot goLeft l with
        | none =>
          rw [hs] at hp
          simp at hp
        | some q => exact hright p (by simpa [hs] using hp)
    | false =>
      obtain ⟨front, back, hsplit, hdesc, hfront, hback, hleft, hright⟩ := ihr hr
      refine ⟨l.inorder ++ a :: front, back, ?_, ?_, ?_, hback, ?_, ?_⟩
      · rw [inorder_node, hsplit, List.append_assoc, List.cons_append]
      · simp only [descend, hgo, Bool.false_eq_true, if_false, inorder_node, hdesc,
          List.append_assoc, List.cons_append]
      · intro b hb
        obtain hb | hb := List.mem_append.mp hb
        · cases hgb : goLeft b with
          | false => rfl
          | true => exact absurd (hcross b hb a List.mem_cons_self hgb) (by simp [hgo])
        · obtain rfl | hb := List.mem_cons.mp hb
          · exact hgo
          · exact hfront b hb
      · intro p hp
        simp only [slot, hgo, Bool.false_eq_true, if_false] at hp
        cases hs : slot goLeft r with
        | none =>
          rw [hs] at hp
          simp at hp
        | some q => exact hleft p (by simpa [hs] using hp)
      · intro p hp
        simp only [slot, hgo, Bool.false_eq_true, if_false] at hp
        cases hs : slot goLeft r with
        | none =>
          obtain rfl := slot_eq_none hs
          have hempty : front = [] ∧ back = [] := by simpa using hsplit.symm
          rw [hs] at hp
          simp only [Option.none_or, Option.some.injEq, Prod.mk.injEq, and_true] at hp
          simp [hempty.1, hp]
        | some q =>
          have hlast := hright p (by simpa [hs] using hp)
          simp [List.getLast?_append, List.getLast?_cons, hlast]

/-- The new element comes first exactly when it is the left child of the old first one. -/
theorem head?_descend [DecidableEq α] (hmono : Monotone goLeft t.inorder)
    (hnodup : t.inorder.Nodup) (hne : t ≠ nil) : (descend goLeft x t).inorder.head? =
      if slot goLeft t = t.inorder.head?.map (·, true) then some x else t.inorder.head? := by
  obtain ⟨front, back, hsplit, hdesc, -, -, hleft, hright⟩ := descend_split (x := x) hmono
  rw [hsplit] at hnodup
  rw [hdesc, hsplit]
  cases hslot : slot goLeft t with
  | none => exact absurd (slot_eq_none hslot) hne
  | some p =>
    obtain ⟨p, isLeft⟩ := p
    cases front with
    | nil =>
      cases isLeft with
      | true =>
        rw [List.nil_append, List.nil_append, hleft p hslot]
        exact (if_pos rfl).symm
      | false => cases hright p hslot
    | cons b front =>
      symm
      apply if_neg
      intro heq
      simp only [List.cons_append, List.head?_cons, Option.map_some, Option.some.injEq,
        Prod.mk.injEq] at heq
      obtain ⟨rfl, rfl⟩ := heq
      have hmem : p ∈ back := List.mem_of_mem_head? (hleft p hslot)
      exact (List.nodup_append.mp hnodup).2.2 p List.mem_cons_self p hmem rfl

/-- A descent that goes left at the last element leaves it last. -/
theorem getLast?_descend {a : α} (hmono : Monotone goLeft t.inorder)
    (hlast : t.inorder.getLast? = some a) (ha : goLeft a = true) :
    (descend goLeft x t).inorder.getLast? = some a := by
  obtain ⟨front, back, hsplit, hdesc, hfront, -, -, -⟩ := descend_split (x := x) hmono
  rw [hsplit] at hlast
  have hback : back ≠ [] := by
    rintro rfl
    rw [List.append_nil] at hlast
    have hright := hfront a (List.mem_of_mem_getLast? hlast)
    rw [ha] at hright
    cases hright
  rw [List.getLast?_append_of_ne_nil _ hback] at hlast
  rw [hdesc, List.getLast?_append, List.getLast?_cons, hlast]
  rfl

end Descent

section Ends

variable [DecidableEq α] {x y : α} {t : RbTree α}

/-- A node that is not in the tree has no place to link to. -/
theorem linkRight_of_notMem (hy : y ∉ t.inorder) : linkRight y x t = t := by
  induction t with
  | nil => rfl
  | node c l a r ihl ihr =>
    simp only [inorder_node, List.mem_append, List.mem_cons, not_or] at hy
    obtain ⟨hl, ha, hr⟩ := hy
    rw [linkRight, if_neg (Ne.symm ha), ihl hl, ihr hr]

/-- Linking to the right of the last element appends. -/
theorem inorder_linkRight {xs : List α} (ht : t.inorder = xs ++ [y]) (hy : y ∉ xs) :
    (linkRight y x t).inorder = xs ++ [y, x] := by
  induction t generalizing xs with
  | nil => simp at ht
  | node c l a r ihl ihr =>
    rw [inorder_node] at ht
    by_cases hay : a = y
    · subst hay
      rw [linkRight, if_pos rfl]
      have hr : r.inorder = [] := by
        obtain hnil | ⟨front, z, hsnoc⟩ := List.eq_nil_or_concat' r.inorder
        · exact hnil
        · rw [hsnoc, ← List.cons_append, ← List.append_assoc] at ht
          have hxs := (List.append_inj' ht rfl).1
          exact absurd (by simp [← hxs]) hy
      rw [hr] at ht
      have hl := (List.append_inj' ht rfl).1
      simp [hl]
    · rw [linkRight, if_neg hay]
      obtain hnil | ⟨front, z, hsnoc⟩ := List.eq_nil_or_concat' r.inorder
      · rw [hnil] at ht
        have hlast := (List.append_inj' ht rfl).2
        exact absurd (List.cons.inj hlast).1 hay
      · rw [hsnoc, ← List.cons_append, ← List.append_assoc] at ht
        obtain ⟨hxs, hz⟩ := List.append_inj' ht rfl
        obtain rfl := (List.cons.inj hz).1
        rw [← hxs] at hy
        simp only [List.mem_append, List.mem_cons, not_or] at hy
        rw [inorder_node, linkRight_of_notMem hy.1, ihr hsnoc hy.2.2, ← hxs]
        simp

/-- The element after `x`. -/
def nextIn (x : α) : List α → Option α
  | [] => none
  | a :: as => if a = x then as.head? else nextIn x as

/-- The element before `x`. -/
def prevIn (x : α) (xs : List α) : Option α := nextIn x xs.reverse

/-- The in-order successor. -/
def next (x : α) (t : RbTree α) : Option α := nextIn x t.inorder

/-- The in-order predecessor. -/
def prev (x : α) (t : RbTree α) : Option α := prevIn x t.inorder

/-- The first node is followed by the next of the sequence, -/
theorem next_head {xs : List α} (ht : t.inorder = x :: xs) : next x t = xs.head? := by
  rw [next, ht, nextIn, if_pos rfl]

/-- and the last one by the one in front of it. -/
theorem prev_getLast {xs : List α} (ht : t.inorder = xs ++ [x]) : prev x t = xs.getLast? := by
  rw [prev, ht, prevIn, List.reverse_append, List.reverse_singleton, List.singleton_append, nextIn,
    if_pos rfl, List.head?_reverse]

end Ends

end RbTree

end WorkflowKernel.Lib
