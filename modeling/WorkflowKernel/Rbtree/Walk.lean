import WorkflowKernel.Rbtree.Represent

/-!
# rb_next, rb_prev and the way down

## What is proved

- `descend_spec`: the way down on one side ends at the first node from that side.
- `neighbour_spec`: `rb_next` and `rb_prev` find the neighbours in the sequence.
-/

namespace WorkflowKernel.Rbtree

open WorkflowKernel.Lib
open WorkflowKernel.Lib.RbTree

variable {N : Type} [DecidableEq N] {m : Mem N} {path : List (Frame N)} {t x y l r : RbTree N}
  {side : Side} {c : Color} {o : Option N} {a b : N} {fuel : Nat}

omit [DecidableEq N] in
/-- The descent to a side ends at the first node of the sequence from there. -/
theorem descend_spec (side : Side) (h : Holds m o t) (ha : t.top = some a) (hfuel : t.inorder.length ≤ fuel) :
    ∃ p c b y, m.descend side fuel a = .ok b ∧ t = plug (fork side c nil b y) p ∧
      t.order side = b :: (plug y p).order side := by
  induction fuel generalizing t a o with
  | zero =>
    have hmem := top_mem ha
    rw [List.length_eq_zero_iff.mp (Nat.le_zero.mp hfuel)] at hmem
    cases hmem
  | succ fuel ih =>
    obtain ⟨c, x, y, rfl⟩ := eq_fork side ha
    obtain ⟨-, hax, -, -, hx, -⟩ := holds_fork.mp h
    rw [(perm_fork side c x a y).length_eq, List.length_cons, List.length_append] at hfuel
    cases htop : x.top with
    | none =>
      obtain rfl := top_eq_none.mp htop
      refine ⟨[], c, a, y, ?_, rfl, ?_⟩
      · rw [Mem.descend, hax]
        rfl
      · rw [order_fork]
        cases side <;> rfl
    | some e =>
      obtain ⟨p, d, b, z, hrun, hplug, horder⟩ := ih hx htop (by omega)
      refine ⟨p ++ [⟨side, c, a, y⟩], d, b, z, ?_, ?_, ?_⟩
      · rw [Mem.descend, hax, htop]
        exact hrun
      · rw [plug_append, ← hplug]
        rfl
      · rw [plug_append, order_fork, horder, plug_cons, plug_nil, Frame.attach, order_fork]
        rfl

/-- The ascent ends at the first node beyond the path, or at NULL. -/
theorem ascend_spec (h : At m path t) (ha : t.top = some a) (hfuel : path.length < fuel) :
    m.ascend side fuel a = .ok (beyond side path).head? := by
  induction fuel generalizing path t a with
  | zero => exact absurd hfuel (Nat.not_lt_zero _)
  | succ fuel ih =>
    rw [Mem.ascend, h.holds.parent ha]
    cases path with
    | nil => rfl
    | cons f path =>
      obtain ⟨-, hside, hother, -, -, -⟩ := h.holdsPath
      rw [beyond]
      show (if m.child side f.item = some a then _ else _) = _
      by_cases heq : f.side = side
      · rw [if_pos heq, if_pos (by rw [← heq, hside, ha])]
        exact ih (at_cons.mp h) (top_fork ..) (Nat.lt_of_succ_lt_succ hfuel)
      · rw [if_neg heq, if_neg]
        · rfl
        · intro hchild
          have hf : f.side.other = side := by
            rcases Side.eq_or_eq_other side f.side with hs | hs
            · exact absurd hs heq
            · rw [hs, Side.other_other]
          rw [← hf, hother] at hchild
          have hdisj := (List.nodup_append.mp h.nodup).2.2 a (top_mem ha) a
          exact hdisj (List.mem_cons_of_mem _ (List.mem_append_left _ (top_mem hchild))) rfl

/-- The neighbour of a node is the next one of the sequence: in its subtree, or beyond its path. -/
theorem neighbour_spec (h : At m path (fork side.other c x a y))
    (hfuel : y.inorder.length + path.length < fuel) :
    m.neighbour fuel side a = .ok (y.order side.other ++ beyond side path).head? := by
  obtain ⟨-, -, hay, -, -, hy⟩ := holds_fork.mp h.holds
  rw [Side.other_other] at hay
  rw [Mem.neighbour, hay]
  cases htop : y.top with
  | none =>
    obtain rfl := top_eq_none.mp htop
    show m.ascend side fuel a = _
    rw [ascend_spec h (top_fork ..) (by omega)]
    cases side <;> rfl
  | some e =>
    have hle : y.inorder.length ≤ fuel := by omega
    obtain ⟨p, d, b, z, hrun, -, horder⟩ :=
      descend_spec side.other hy htop hle
    simp only [hrun, horder, bind, Except.bind, pure, Except.pure, List.cons_append,
      List.head?_cons]

/-- `rb_next` finds the node behind, `rb_prev` the one in front. -/
theorem neighbour_eq {xs ys : List N} (h : Represents m t) (ht : t.inorder = xs ++ a :: ys)
    (hfuel : t.inorder.length < fuel) : m.neighbour fuel .right a = .ok ys.head? ∧
      m.neighbour fuel .left a = .ok xs.getLast? := by
  obtain ⟨path, c, l, r, -, hat, rfl, rfl, hlen⟩ := h.focus ht
  have hpath := length_le_around path
  rw [inorder_node, List.length_append, List.length_cons] at hlen
  constructor
  · have hnext : At m path (fork Side.right.other c l a r) := hat
    rw [neighbour_spec hnext (by omega), beyond_right]
    rfl
  · have hprev : At m path (fork Side.left.other c r a l) := hat
    rw [neighbour_spec hprev (by omega), beyond_left, ← List.head?_reverse, List.reverse_append]
    rfl

end WorkflowKernel.Rbtree
