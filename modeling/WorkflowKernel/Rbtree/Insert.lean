import WorkflowKernel.Rbtree.Represent

/-!
# rb_insert_color

The node that the loop is at is red and its parent may be. Everything else is a red-black tree: the
subtree is balanced and the path above takes it.

## What is proved

- `insertColor_spec`: the call ends with a red-black tree of the same sequence.
-/

namespace WorkflowKernel.Rbtree

open WorkflowKernel.Lib
open WorkflowKernel.Lib.RbTree

variable {N : Type} [DecidableEq N] {m : Mem N} {path : List (Frame N)} {t s u x y : RbTree N}
  {side : Side} {a b e : N} {n fuel : Nat}

theorem blackenRoot_spec (h : Represents m t) (ht : t ≠ nil) :
    ∃ m', m.blackenRoot = .ok m' ∧ Represents m' t.blacken := by
  have hpath : m.root = t.top := h.holdsPath
  cases htop : t.top with
  | none => exact absurd (top_eq_none.mp htop) ht
  | some a =>
    refine ⟨m.setColor a .black, ?_, ?_⟩
    · rw [Mem.blackenRoot, hpath, htop]
      rfl
    · have hpaint := At.blacken h
      rw [htop] at hpaint
      exact hpaint

/-- There is no red parent: the loop is over. -/
theorem insertColor_done (h : At m path t) (ha : t.top = some a)
    (hup : m.isRed (above path) = false) : ∃ m', m.insertColor (fuel + 1) a = .ok m' ∧
      Represents m' (plug t path).blacken := by
  have ht : t ≠ nil := by
    rintro rfl
    cases ha
  obtain ⟨m', hrun, hm'⟩ := blackenRoot_spec (at_iff.mp h) (plug_ne_nil ht path)
  refine ⟨m', ?_, hm'⟩
  rw [Mem.insertColor, h.holds.parent ha, hup]
  exact hrun

/-- The uncle is red: the three are repainted, and the loop goes on at the grandparent. -/
theorem insertColor_repaint {f : Side} (h : At m (⟨f, .red, b, s⟩ :: ⟨side, .black, e, u⟩ :: path) t)
    (ha : t.top = some a) (hu : u.color = .red) : ∃ m',
      m.insertColor (fuel + 1) a = m'.insertColor fuel e ∧
        At m' path (fork side .red (fork f .black t b s) e u.blacken) := by
  have hparent : m.parent a = some b := h.holds.parent ha
  have hb := at_cons.mp h
  have hred := hb.holds.isRed
  have hgparent : m.parent b = some e := hb.holds.parent (top_fork ..)
  have hside := hb.side_eq (.inl fork_ne_nil)
  obtain ⟨-, -, hother, -, hhu, -⟩ := hb.holdsPath
  have huncle := hhu.isRed
  obtain ⟨c, ul, v, ur, rfl⟩ : ∃ c ul v ur, u = node c ul v ur := by
    cases u with
    | nil => cases hu
    | node c ul v ur => exact ⟨c, ul, v, ur, rfl⟩
  have hu' := (at_sibling.mp hb).blacken
  have hb' := (at_sibling.mpr hu').setColor .black
  have he' := (at_cons.mp hb').setColor .red
  refine ⟨_, ?_, he'⟩
  simp only [Frame.attach, top_fork, color_fork, decide_true] at hred hside
  rw [Mem.insertColor, hparent, if_pos hred]
  simp only [deref, bind, Except.bind, hgparent, hside]
  rw [hother, if_pos (huncle.trans (decide_eq_true hu))]
  rfl

/-- The grandparent comes down between its parent and the uncle. -/
theorem rotate_gparent (h : At m (⟨side, .red, b, s⟩ :: ⟨side, .black, e, u⟩ :: path) t) : ∃ m',
    ((m.setColor b .black).setColor e .red).rotate side.other e = .ok m' ∧
      At m' (⟨side, .black, b, fork side .red s e u⟩ :: path) t := by
  have hb := (at_cons.mp h).setColor .black
  have he : At _ path (fork side .red (fork side .black t b s) e u) := (at_cons.mp hb).setColor .red
  rw [← fork_other side _ u, ← fork_other side _ s] at he
  obtain ⟨m', hrun, hm'⟩ := he.rotate
  rw [fork_other, fork_other] at hm'
  exact ⟨m', hrun, at_cons.mpr hm'⟩

/-- The uncle is black: what is left of the loop's body. -/
theorem insertColor_black {f : Side}
    (h : At m (⟨f, .red, b, s⟩ :: ⟨side, .black, e, u⟩ :: path) t) (ha : t.top = some a)
    (hu : u.color = .black) : m.insertColor (fuel + 1) a =
      let next := fun (m : Mem N) (parent node : N) =>
        (((m.setColor parent .black).setColor e .red).rotate side.other e).bind
          (Mem.insertColor fuel · node)
      if m.child side.other b = some a then (m.rotate side b).bind (next · a b)
      else next m b a := by
  have hparent : m.parent a = some b := h.holds.parent ha
  have hb := at_cons.mp h
  have hred := hb.holds.isRed
  have hgparent : m.parent b = some e := hb.holds.parent (top_fork ..)
  have hside := hb.side_eq (.inl fork_ne_nil)
  obtain ⟨-, -, hother, -, hhu, -⟩ := hb.holdsPath
  have huncle := hhu.isRed
  simp only [Frame.attach, top_fork, color_fork, decide_true] at hred hside
  rw [hu] at huncle
  rw [Mem.insertColor, hparent, if_pos hred]
  simp only [deref, bind, hgparent, hside, Except.bind]
  rw [hother, if_neg (by rw [huncle]; decide)]
  split <;> rfl

/-- One or two rotations leave a black parent. -/
theorem insertColor_rotate {f : Side}
    (h : At m (⟨f, .red, b, s⟩ :: ⟨side, .black, e, u⟩ :: path) t) (ha : t.top = some a)
    (hu : u.color = .black) (ht : t.Balanced n) (hred : t.color = .red) (hs : s.Balanced n)
    (hblack : s.color = .black) : ∃ m' a' b' x y,
      m.insertColor (fuel + 1) a = m'.insertColor fuel a' ∧
        At m' (⟨side, .black, b', fork side .red y e u⟩ :: path) x ∧
        x.top = some a' ∧ x.Balanced n ∧ x.color = .red ∧ y.Balanced n ∧ y.color = .black ∧
        (fork side .black x b' (fork side .red y e u)).inorder =
          (fork side .black (fork f .red t b s) e u).inorder := by
  rw [insertColor_black h ha hu]
  obtain ⟨-, hin, hout, -, -, -⟩ := h.holdsPath
  rcases Side.eq_or_eq_other side f with rfl | rfl
  · -- the node is on the outer side
    have hnot : m.child f.other b ≠ some a := by
      intro heq
      have hmem : a ∈ s.inorder := top_mem (hout.symm.trans heq)
      have hdisj := (List.nodup_append.mp h.nodup).2.2 a (top_mem ha) a
      exact hdisj (List.mem_cons_of_mem _ (List.mem_append_left _ hmem)) rfl
    obtain ⟨m', hrot, hm'⟩ := rotate_gparent h
    refine ⟨m', a, b, t, s, ?_, hm', ha, ht, hred, hs, hblack, ?_⟩
    · simp only [if_neg hnot, hrot, Except.bind]
    · exact (inorder_fork_rotate ..).symm
  · -- the node is on the inner side: its parent goes below it first
    obtain ⟨c, x, y, rfl⟩ := eq_fork side ha
    rw [color_fork] at hred
    subst hred
    obtain ⟨hx, hy, hbx, hby⟩ := balanced_fork_red.mp ht
    have hb : At m (⟨side, .black, e, u⟩ :: path) (fork side .red s b (fork side .red x a y)) := by
      have hcons := at_cons.mp h
      rw [Frame.attach, fork_other] at hcons
      exact hcons
    obtain ⟨m₁, hrot₁, hm₁⟩ := hb.rotate
    obtain ⟨m', hrot, hm'⟩ := rotate_gparent (at_cons.mpr hm₁)
    refine ⟨m', b, a, fork side .red s b x, y, ?_, hm', top_fork .., ?_, color_fork .., hby, hy, ?_⟩
    · rw [top_fork] at hin
      simp only [if_pos hin, hrot₁, hrot, Except.bind]
    · exact balanced_fork_red.mpr ⟨hblack, hx, hs, hbx⟩
    · rw [fork_other]
      refine (inorder_fork_rotate side .black .red .red .black ..).symm.trans ?_
      exact inorder_fork_congr (inorder_fork_rotate side .red .red .red .red ..) rfl

/-- The loop ends, and the tree is balanced. -/
theorem insertColor_spec (hfuel : path.length < fuel) (h : At m path t) (ha : t.top = some a)
    (hred : t.color = .red) (ht : t.Balanced n) (hpath : Takes path n) :
    Restores (m.insertColor fuel a) (plug t path).inorder := by
  induction fuel generalizing m path t a n with
  | zero => exact absurd hfuel (Nat.not_lt_zero _)
  | succ fuel ih =>
    match path with
    | [] =>
      obtain ⟨m', hrun, hm'⟩ := insertColor_done h ha rfl
      exact ⟨m', _, hrun, hm', ⟨color_blacken t, _, ht.blacken hred⟩, inorder_blacken t⟩
    | ⟨side, .black, b, s⟩ :: path =>
      obtain ⟨-, -, -, hcolor, -, -⟩ := h.holdsPath
      have hup : m.isRed (some b) = false := by
        show decide (m.color b = .red) = false
        rw [hcolor]
        rfl
      obtain ⟨m', hrun, hm'⟩ := insertColor_done h ha hup
      have hbalanced := redBlack_plug.mpr ⟨n, hpath, ht, .inr rfl⟩
      rw [blacken_of_black hbalanced.1] at hm'
      exact ⟨m', _, hrun, hm', hbalanced, rfl⟩
    | [⟨_, .red, _, _⟩] => exact absurd hpath.2.2.1 nofun
    | ⟨_, .red, _, _⟩ :: ⟨_, .red, _, _⟩ :: _ => exact absurd hpath.2.2.1 nofun
    | ⟨f, .red, b, s⟩ :: ⟨side, .black, e, u⟩ :: path =>
      obtain ⟨hs, hblack, -, hu, hup⟩ := hpath
      rw [List.length_cons, List.length_cons] at hfuel
      cases hcolor : u.color with
      | red =>
        obtain ⟨m₁, hstep, hm₁⟩ := insertColor_repaint h ha hcolor
        have hbalanced : (fork side .red (fork f .black t b s) e u.blacken).Balanced (n + 1) :=
          balanced_fork_red.mpr ⟨color_fork .., color_blacken u, balanced_fork_black.mpr ⟨ht, hs⟩,
            hu.blacken hcolor⟩
        obtain ⟨m', t', hrun, hm', hrb, hin⟩ :=
          ih (by omega) hm₁ (top_fork ..) (color_fork ..) hbalanced hup
        refine ⟨m', t', hstep.trans hrun, hm', hrb, hin.trans ?_⟩
        exact inorder_plug_congr (inorder_fork_congr (inorder_fork_color ..) (inorder_blacken u)) _
      | black =>
        obtain ⟨m₁, a', b', x, y, hstep, hm₁, ha', hx, hredx, hy, hblacky, hseq⟩ :=
          insertColor_rotate h ha hcolor ht hred hs hblack
        have htakes : Takes (⟨side, .black, b', fork side .red y e u⟩ :: path) n :=
          ⟨balanced_fork_red.mpr ⟨hblacky, hcolor, hy, hu⟩, hup⟩
        obtain ⟨m', t', hrun, hm', hrb, hin⟩ :=
          ih (by rw [List.length_cons]; omega) hm₁ ha' hredx hx htakes
        refine ⟨m', t', hstep.trans hrun, hm', hrb, hin.trans ?_⟩
        exact inorder_plug_congr hseq path

/-! ## A new node -/

/-- A node is linked where a path ends. -/
theorem At.linkNode (h : At m path nil) (ha : a ∉ around path) :
    At (m.linkNode a (above path) (holeLink path)) path (leaf a) := by
  let m₁ := (((m.setParent a (above path)).setColor a .red).setChild .right a none).setChild
    .left a none
  have hsame : ∀ b ∈ around path, Same m m₁ b := by
    intro b hb
    have hne : b ≠ a := fun heq => ha (heq ▸ hb)
    exact (((Same.setParent hne).trans (.setColor hne)).trans (.setChild hne)).trans
      (.setChild hne)
  have hnew : Same m₁ (m.linkNode a (above path) (holeLink path)) a := .write ha
  have hpath : HoldsPath m₁ path none := h.holdsPath.congr rfl hsame
  refine ⟨⟨?_, ?_, ?_, ?_, trivial, trivial⟩, hpath.write h.nodup (some a), ?_⟩
  · rw [hnew.parent]
    simp [m₁, Mem.setParent_parent]
  · rw [hnew.child]
    simp [m₁, Mem.setChild_child, top]
  · rw [hnew.child]
    simp [m₁, Mem.setChild_child, top]
  · rw [hnew.color]
    simp [m₁, Mem.setColor_color]
  · exact List.nodup_cons.mpr ⟨ha, h.nodup⟩

/-- A new node stands where its path ends, and the tree is a red-black tree again. -/
theorem insert_spec (h : Represents m (plug nil path)) (hrb : (plug nil path).RedBlack)
    (ha : a ∉ (plug nil path).inorder) (hfuel : (plug nil path).inorder.length < fuel) :
    Restores ((m.linkNode a (above path) (holeLink path)).insertColor fuel a)
      (before path ++ a :: after path) := by
  have hperm := perm_plug nil path
  rw [inorder_nil, List.nil_append] at hperm
  have hhole := (at_iff.mpr h).linkNode fun hin => ha (hperm.mem_iff.mpr hin)
  obtain ⟨n, htakes, hnil, -⟩ := redBlack_plug.mp hrb
  obtain rfl : n = 0 := hnil
  have hlen := length_le_around path
  rw [← hperm.length_eq] at hlen
  have hleaf : (leaf a).Balanced 0 := ⟨rfl, rfl, rfl, rfl⟩
  obtain ⟨m', t, hrun, hm', hrb', hin⟩ :=
    insertColor_spec (Nat.lt_of_le_of_lt hlen hfuel) hhole rfl rfl hleaf htakes
  refine ⟨m', t, hrun, hm', hrb', hin.trans ?_⟩
  rw [inorder_plug, inorder_leaf, List.append_assoc]
  rfl

end WorkflowKernel.Rbtree
