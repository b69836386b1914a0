import WorkflowKernel.Lib.Zipper

/-!
# Red-black balance, seen from a subtree

`Balanced t n` is the balance of a tree whose paths pass `n` black nodes each. While code repairs a
tree from the bottom up the balance is split in two: that of a subtree, and what the path above asks
of one (`Takes`). The two make a balanced tree (`Fits`) if not both ends of the link between them are
red.

## What is proved

- `fits_cons_black`, `fits_cons_red`: one ancestor more or less.
- `redBlack_plug`: a tree is a red-black tree exactly if each of its subtrees fits the path above.
-/

namespace WorkflowKernel.Lib.RbTree

variable {α : Type}

/-- A missing child counts as black. -/
def color : RbTree α → Color
  | nil => .black
  | node c _ _ _ => c

/-- No red node has a red child, and all paths pass `n` black nodes. -/
def Balanced : RbTree α → Nat → Prop
  | nil, n => n = 0
  | node .red l _ r, n => l.color = .black ∧ r.color = .black ∧ l.Balanced n ∧ r.Balanced n
  | node .black l _ r, n => ∃ k, n = k + 1 ∧ l.Balanced k ∧ r.Balanced k

/-- A balanced tree with a black root. -/
def RedBlack (t : RbTree α) : Prop := t.color = .black ∧ ∃ n, t.Balanced n

@[simp] theorem color_nil : (nil : RbTree α).color = .black := rfl

@[simp] theorem color_fork (side : Side) (c : Color) (x : RbTree α) (a : α) (y : RbTree α) :
    (fork side c x a y).color = c := by
  cases side <;> rfl

/-- A red node has black children. -/
theorem balanced_fork_red {side : Side} {x y : RbTree α} {a : α} {n : Nat} :
    (fork side .red x a y).Balanced n ↔
      x.color = .black ∧ y.color = .black ∧ x.Balanced n ∧ y.Balanced n := by
  cases side with
  | left => exact Iff.rfl
  | right =>
    show _ ∧ _ ∧ _ ∧ _ ↔ _
    rw [and_left_comm, and_comm (a := y.Balanced n)]

/-- A black node counts. -/
theorem balanced_fork_black {side : Side} {x y : RbTree α} {a : α} {n : Nat} :
    (fork side .black x a y).Balanced (n + 1) ↔ x.Balanced n ∧ y.Balanced n := by
  have hnode : ∀ l r : RbTree α, (node .black l a r).Balanced (n + 1) ↔
      l.Balanced n ∧ r.Balanced n := by
    intro l r
    constructor
    · rintro ⟨k, hk, hl, hr⟩
      obtain rfl := Nat.succ_inj.mp hk
      exact ⟨hl, hr⟩
    · rintro ⟨hl, hr⟩
      exact ⟨n, rfl, hl, hr⟩
  cases side with
  | left => exact hnode x y
  | right => exact (hnode y x).trans and_comm

/-- A black node is on each path through it. -/
theorem Balanced.pos {side : Side} {x y : RbTree α} {a : α} {n : Nat}
    (h : (fork side .black x a y).Balanced n) : ∃ k, n = k + 1 := by
  cases side with
  | left => exact ⟨h.choose, h.choose_spec.1⟩
  | right => exact ⟨h.choose, h.choose_spec.1⟩

/-- A tree that has black nodes has a root. -/
theorem Balanced.ne_nil {t : RbTree α} {n : Nat} (h : t.Balanced (n + 1)) : t ≠ nil := by
  rintro rfl
  cases h

/-- The tree with a black root. -/
def blacken : RbTree α → RbTree α
  | nil => nil
  | node _ l a r => node .black l a r

@[simp] theorem blacken_fork (side : Side) (c : Color) (x : RbTree α) (a : α) (y : RbTree α) :
    (fork side c x a y).blacken = fork side .black x a y := by
  cases side <;> rfl

/-- Blackening the root keeps the sequence. -/
@[simp] theorem inorder_blacken (t : RbTree α) : t.blacken.inorder = t.inorder := by
  cases t <;> rfl

@[simp] theorem color_blacken (t : RbTree α) : t.blacken.color = .black := by
  cases t <;> rfl

/-- A black root stays as it is. -/
theorem blacken_of_black {t : RbTree α} (h : t.color = .black) : t.blacken = t := by
  cases t with
  | nil => rfl
  | node c l a r =>
    cases h
    rfl

/-- Repainted black, a red tree passes one black node more. -/
theorem Balanced.blacken {t : RbTree α} {n : Nat} (h : t.Balanced n) (hred : t.color = .red) :
    t.blacken.Balanced (n + 1) := by
  cases t with
  | nil => cases hred
  | node c l a r =>
    cases hred
    obtain ⟨-, -, hl, hr⟩ := h
    exact ⟨n, rfl, hl, hr⟩

/-! ## Above a subtree -/

/-- The colour of the parent. At the root it is red: a root has to be black. -/
def lid : List (Frame α) → Color
  | [] => .red
  | f :: _ => f.color

/-- Any subtree with `n` black nodes on its paths keeps the tree balanced here. -/
def Takes : List (Frame α) → Nat → Prop
  | [], _ => True
  | ⟨_, .black, _, s⟩ :: path, n => s.Balanced n ∧ Takes path (n + 1)
  | ⟨_, .red, _, s⟩ :: path, n =>
    s.Balanced n ∧ s.color = .black ∧ lid path = .black ∧ Takes path n

structure Fits (path : List (Frame α)) (t : RbTree α) (n : Nat) : Prop where
  takes : Takes path n
  balanced : t.Balanced n
  joint : t.color = .black ∨ lid path = .black

variable {path : List (Frame α)} {t s : RbTree α} {side : Side} {a : α} {n : Nat}

/-- A tree fits below a black node if the fork of the two fits above, -/
theorem fits_cons_black : Fits (⟨side, .black, a, s⟩ :: path) t n ↔
    Fits path (fork side .black t a s) (n + 1) := by
  constructor
  · rintro ⟨⟨hs, hpath⟩, ht, -⟩
    exact ⟨hpath, balanced_fork_black.mpr ⟨ht, hs⟩, .inl (color_fork ..)⟩
  · rintro ⟨hpath, ht, -⟩
    obtain ⟨ht, hs⟩ := balanced_fork_black.mp ht
    exact ⟨⟨hs, hpath⟩, ht, .inr rfl⟩

/-- and below a red one likewise, which does not count. -/
theorem fits_cons_red : Fits (⟨side, .red, a, s⟩ :: path) t n ↔
    Fits path (fork side .red t a s) n := by
  constructor
  · rintro ⟨⟨hs, hcolor, hlid, hpath⟩, ht, hjoint⟩
    exact ⟨hpath, balanced_fork_red.mpr ⟨hjoint.resolve_right nofun, hcolor, ht, hs⟩, .inr hlid⟩
  · rintro ⟨hpath, ht, hjoint⟩
    obtain ⟨htop, hcolor, ht, hs⟩ := balanced_fork_red.mp ht
    rw [color_fork] at hjoint
    exact ⟨⟨hs, hcolor, hjoint.resolve_left nofun, hpath⟩, ht, .inl htop⟩

/-- The sibling has the height of the tree that a path takes. -/
theorem Takes.sibling {c : Color} (h : Takes (⟨side, c, a, s⟩ :: path) n) : s.Balanced n := by
  cases c with
  | red => exact h.1
  | black => exact h.1

/-- What a path takes does not depend on the elements. -/
theorem Takes.item {c : Color} {path' : List (Frame α)} (h : Takes (path' ++ ⟨side, c, a, s⟩ :: path) n)
    (b : α) : Takes (path' ++ ⟨side, c, b, s⟩ :: path) n := by
  induction path' generalizing n with
  | nil => cases c <;> exact h
  | cons f path' ih =>
    obtain ⟨side', d, e, u⟩ := f
    cases d with
    | black => exact ⟨h.1, ih h.2⟩
    | red =>
      have hlid : lid (path' ++ ⟨side, c, b, s⟩ :: path) = lid (path' ++ ⟨side, c, a, s⟩ :: path) := by
        cases path' <;> rfl
      exact ⟨h.1, h.2.1, hlid.trans h.2.2.1, ih h.2.2.2⟩

/-- A red-black tree fits the empty path, -/
theorem redBlack_iff : t.RedBlack ↔ ∃ n, Fits [] t n := by
  constructor
  · rintro ⟨hcolor, n, ht⟩
    exact ⟨n, trivial, ht, .inl hcolor⟩
  · rintro ⟨n, -, ht, hjoint⟩
    exact ⟨hjoint.resolve_right nofun, n, ht⟩

/-- and a tree on a path is one if it fits there. -/
theorem redBlack_plug : (plug t path).RedBlack ↔ ∃ n, Fits path t n := by
  induction path generalizing t with
  | nil => exact redBlack_iff
  | cons f path ih =>
    obtain ⟨side, c, a, s⟩ := f
    rw [plug_cons, ih]
    cases c with
    | black =>
      constructor
      · rintro ⟨n, h⟩
        obtain ⟨k, rfl⟩ := h.balanced.pos
        exact ⟨k, fits_cons_black.mpr h⟩
      · rintro ⟨n, h⟩
        exact ⟨n + 1, fits_cons_black.mp h⟩
    | red => exact exists_congr fun n => fits_cons_red.symm

end WorkflowKernel.Lib.RbTree
