import WorkflowKernel.Lib.RedBlack
import WorkflowKernel.Rbtree.Model

/-!
# The tree in the nodes

`Holds` says that a tree is in the nodes below a parent, `HoldsPath` that a path is in the nodes above
a subtree, and `At` is a whole tree seen from one of its subtrees. A call touches the nodes next to
the one it is at, so what it does to a tree is said at the subtree; `at_cons` moves between the two.

## What is proved

- `Holds.congr`, `HoldsPath.congr`: a tree stays where its nodes are left alone.
- `replaceChild_path`, `replaceChild_same`: the pointer to a subtree is turned to another one.
- `At.rotate`, `At.setColor`: a rotation and a colour at a subtree.
-/

namespace WorkflowKernel.Rbtree

open WorkflowKernel.Lib
open WorkflowKernel.Lib.RbTree

variable {N : Type}

/-- The tree is below `parent`. -/
def Holds (m : Mem N) : Option N → RbTree N → Prop
  | _, nil => True
  | parent, node c l a r => m.parent a = parent ∧ m.child .left a = l.top ∧
      m.child .right a = r.top ∧ m.color a = c ∧ Holds m (some a) l ∧ Holds m (some a) r

/-- The parent below a path. -/
def above : List (Frame N) → Option N
  | [] => none
  | f :: _ => some f.item

/-- The pointer that a path leads through. -/
def holeLink : List (Frame N) → Link N
  | [] => .root
  | f :: _ => .child f.side f.item

/-- The path leads to `top`. -/
def HoldsPath (m : Mem N) : List (Frame N) → Option N → Prop
  | [], top => m.root = top
  | f :: path, top => m.parent f.item = above path ∧ m.child f.side f.item = top ∧
      m.child f.side.other f.item = f.sibling.top ∧ m.color f.item = f.color ∧
      Holds m (some f.item) f.sibling ∧ HoldsPath m path (some f.item)

/-- The tree around `t` is the one in memory, each node once. -/
structure At (m : Mem N) (path : List (Frame N)) (t : RbTree N) : Prop where
  holds : Holds m (above path) t
  holdsPath : HoldsPath m path t.top
  nodup : (t.inorder ++ around path).Nodup

/-- The whole tree is in memory. -/
def Represents (m : Mem N) (t : RbTree N) : Prop := At m [] t

/-- A call that leaves a red-black tree with this sequence. -/
def Restores (r : Except Fault (Mem N)) (xs : List N) : Prop :=
  ∃ m t, r = .ok m ∧ Represents m t ∧ t.RedBlack ∧ t.inorder = xs

variable {m m' : Mem N} {path : List (Frame N)} {t x y z : RbTree N} {o o' : Option N}
  {side : Side} {c d : Color} {a b : N}

theorem Represents.inorder_nodup (h : Represents m t) : t.inorder.Nodup := by
  have hnodup := At.nodup h
  rw [around, List.append_nil] at hnodup
  exact hnodup

theorem holds_fork : Holds m o (fork side c x a y) ↔ m.parent a = o ∧ m.child side a = x.top ∧
    m.child side.other a = y.top ∧ m.color a = c ∧ Holds m (some a) x ∧ Holds m (some a) y := by
  cases side with
  | left => exact Iff.rfl
  | right =>
    show _ ∧ _ ∧ _ ∧ _ ∧ _ ∧ _ ↔ _
    constructor
    · rintro ⟨hp, hy, hx, hc, hhy, hhx⟩
      exact ⟨hp, hx, hy, hc, hhx, hhy⟩
    · rintro ⟨hp, hx, hy, hc, hhx, hhy⟩
      exact ⟨hp, hy, hx, hc, hhy, hhx⟩

/-- The fields of a node are the same in both memories. -/
structure Same (m m' : Mem N) (a : N) : Prop where
  parent : m'.parent a = m.parent a
  child : ∀ side, m'.child side a = m.child side a
  color : m'.color a = m.color a

theorem Holds.parent (h : Holds m o t) (ha : t.top = some a) : m.parent a = o := by
  cases t with
  | nil => cases ha
  | node c l b r =>
    cases ha
    exact h.1

theorem Holds.isRed (h : Holds m o t) : m.isRed t.top = decide (t.color = .red) := by
  cases t with
  | nil => rfl
  | node c l a r =>
    show decide (m.color a = .red) = _
    rw [h.2.2.2.1]
    rfl

/-- The nodes below are left alone, and the root has the parent `o'`. -/
theorem Holds.reparent (h : Holds m o t) (hparent : ∀ a, t.top = some a → m'.parent a = o')
    (hchild : ∀ a ∈ t.inorder, ∀ side, m'.child side a = m.child side a)
    (hcolor : ∀ a ∈ t.inorder, m'.color a = m.color a)
    (hrest : ∀ a ∈ t.inorder, t.top ≠ some a → m'.parent a = m.parent a)
    (hnodup : t.inorder.Nodup) : Holds m' o' t := by
  induction t generalizing o o' with
  | nil => trivial
  | node c l a r ihl ihr =>
    obtain ⟨hp, hleft, hright, hc, hl, hr⟩ := h
    rw [inorder_node] at hchild hcolor hrest hnodup
    obtain ⟨hnodupl, hnodupar, hdisj⟩ := List.nodup_append.mp hnodup
    obtain ⟨har, hnodupr⟩ := List.nodup_cons.mp hnodupar
    have ha : a ∈ l.inorder ++ a :: r.inorder := List.mem_append_right _ List.mem_cons_self
    have hinl : ∀ b ∈ l.inorder, b ∈ l.inorder ++ a :: r.inorder := fun b hb =>
      List.mem_append_left _ hb
    have hinr : ∀ b ∈ r.inorder, b ∈ l.inorder ++ a :: r.inorder := fun b hb =>
      List.mem_append_right _ (List.mem_cons_of_mem _ hb)
    have hnel : ∀ b ∈ l.inorder, (node c l a r).top ≠ some b := by
      rintro b hb heq
      cases heq
      exact hdisj a hb a List.mem_cons_self rfl
    have hner : ∀ b ∈ r.inorder, (node c l a r).top ≠ some b := by
      rintro b hb heq
      cases heq
      exact har hb
    -- in the subtrees no parent changes
    have hstay : ∀ s : RbTree N, (∀ b ∈ s.inorder, b ∈ l.inorder ++ a :: r.inorder) →
        (∀ b ∈ s.inorder, (node c l a r).top ≠ some b) → Holds m (some a) s →
        ∀ b, s.top = some b → m'.parent b = some a := by
      intro s hin hne hs b hb
      rw [hrest b (hin b (top_mem hb)) (hne b (top_mem hb))]
      cases s with
      | nil => cases hb
      | node _ _ b' _ =>
        cases hb
        exact hs.1
    refine ⟨hparent a rfl, (hchild a ha .left).trans hleft, (hchild a ha .right).trans hright,
      (hcolor a ha).trans hc, ?_, ?_⟩
    · exact ihl hl (hstay l hinl hnel hl) (fun b hb => hchild b (hinl b hb))
        (fun b hb => hcolor b (hinl b hb)) (fun b hb _ => hrest b (hinl b hb) (hnel b hb)) hnodupl
    · exact ihr hr (hstay r hinr hner hr) (fun b hb => hchild b (hinr b hb))
        (fun b hb => hcolor b (hinr b hb)) (fun b hb _ => hrest b (hinr b hb) (hner b hb)) hnodupr

/-- The nodes below are left alone. -/
theorem Holds.congr (h : Holds m o t) (hsame : ∀ a ∈ t.inorder, Same m m' a) : Holds m' o t := by
  induction t generalizing o with
  | nil => trivial
  | node c l a r ihl ihr =>
    obtain ⟨hp, hleft, hright, hc, hl, hr⟩ := h
    have ha : a ∈ l.inorder ++ a :: r.inorder := List.mem_append_right _ List.mem_cons_self
    have hs := hsame a ha
    exact ⟨hs.parent.trans hp, (hs.child _).trans hleft, (hs.child _).trans hright,
      hs.color.trans hc, ihl hl fun b hb => hsame b (List.mem_append_left _ hb),
      ihr hr fun b hb => hsame b (List.mem_append_right _ (List.mem_cons_of_mem _ hb))⟩

/-- The nodes above are left alone. -/
theorem HoldsPath.congr (h : HoldsPath m path o) (hroot : m'.root = m.root)
    (hsame : ∀ a ∈ around path, Same m m' a) : HoldsPath m' path o := by
  induction path generalizing o with
  | nil => exact hroot.trans h
  | cons f path ih =>
    obtain ⟨hp, hside, hother, hc, hs, hpath⟩ := h
    have hitem := hsame f.item List.mem_cons_self
    refine ⟨hitem.parent.trans hp, (hitem.child _).trans hside, (hitem.child _).trans hother,
      hitem.color.trans hc, hs.congr fun a ha => ?_, ih hpath fun a ha => ?_⟩
    · exact hsame a (List.mem_cons_of_mem _ (List.mem_append_left _ ha))
    · exact hsame a (List.mem_cons_of_mem _ (List.mem_append_right _ ha))

theorem HoldsPath.read (h : HoldsPath m path o) : m.read (holeLink path) = o := by
  cases path with
  | nil => exact h
  | cons f path => exact h.2.1

/-- One ancestor more or less. -/
theorem at_cons {f : Frame N} : At m (f :: path) t ↔ At m path (f.attach t) := by
  have hperm : ((f.attach t).inorder ++ around path).Perm (t.inorder ++ around (f :: path)) := by
    have hattach := perm_plug t [f]
    rw [plug_cons, plug_nil, around, around, List.append_nil] at hattach
    rw [around, ← List.append_assoc]
    exact hattach.append_right _
  constructor
  · rintro ⟨ht, ⟨hp, hside, hother, hc, hs, hpath⟩, hnodup⟩
    refine ⟨holds_fork.mpr ⟨hp, hside, hother, hc, ht, hs⟩, ?_, hperm.nodup_iff.mpr hnodup⟩
    rw [Frame.attach, top_fork]
    exact hpath
  · rintro ⟨ht, hpath, hnodup⟩
    obtain ⟨hp, hside, hother, hc, ht, hs⟩ := holds_fork.mp ht
    rw [Frame.attach, top_fork] at hpath
    exact ⟨ht, ⟨hp, hside, hother, hc, hs, hpath⟩, hperm.nodup_iff.mp hnodup⟩

/-- From one child of a node to the other. -/
theorem at_sibling : At m (⟨side, c, a, y⟩ :: path) x ↔ At m (⟨side.other, c, a, x⟩ :: path) y := by
  rw [at_cons, at_cons]
  show At m path (fork side c x a y) ↔ At m path (fork side.other c y a x)
  rw [fork_other]

/-- From a node to the outer grandchild. -/
theorem at_outer : At m path (fork side c x a (fork side d y b z)) ↔
    At m (⟨side.other, d, b, y⟩ :: ⟨side.other, c, a, x⟩ :: path) z := by
  rw [at_cons, at_cons]
  show _ ↔ At m path (fork side.other c (fork side.other d z b y) a x)
  rw [fork_other, fork_other]

theorem at_append {path' : List (Frame N)} :
    At m (path' ++ path) t ↔ At m path (plug t path') := by
  induction path' generalizing t with
  | nil => exact Iff.rfl
  | cons f path' ih => exact at_cons.trans ih

theorem at_iff : At m path t ↔ Represents m (plug t path) := by
  rw [Represents, ← at_append, List.append_nil]

theorem At.apart (h : At m path (fork side c x a y)) :
    (a :: (x.inorder ++ y.inorder) ++ around path).Nodup :=
  ((perm_fork side c x a y).append_right (around path)).nodup_iff.mp h.nodup

/-- A node, its subtrees and the path to it, from its place in the sequence. -/
theorem Represents.focus {xs ys : List N} (h : Represents m t) (ht : t.inorder = xs ++ a :: ys) :
    ∃ path c l r, t = plug (node c l a r) path ∧ At m path (node c l a r) ∧
      xs = before path ++ l.inorder ∧ ys = r.inorder ++ after path ∧
      t.inorder.length = (node c l a r).inorder.length + (around path).length := by
  have hmem : a ∈ t.inorder := by
    rw [ht]
    exact List.mem_append_right _ List.mem_cons_self
  obtain ⟨path, c, l, r, rfl⟩ := exists_plug hmem
  have hat := at_iff.mpr h
  have hnodup : (plug (node c l a r) path).inorder.Nodup :=
    (perm_plug _ path).nodup_iff.mpr hat.nodup
  rw [ht] at hnodup
  obtain ⟨-, hys, hxs⟩ := List.nodup_append.mp hnodup
  have hparts : xs ++ a :: ys = (before path ++ l.inorder) ++ a :: (r.inorder ++ after path) := by
    rw [← ht, inorder_plug]
    simp
  have hax : a ∉ xs := fun hin => hxs a hin a List.mem_cons_self rfl
  have hay : a ∉ ys := (List.nodup_cons.mp hys).1
  obtain ⟨hx, -, hy⟩ := (List.append_cons_inj_of_notMem hax hay).mp hparts
  refine ⟨path, c, l, r, rfl, hat, hx, hy, ?_⟩
  rw [(perm_plug _ path).length_eq, List.length_append]

/-- The code finds out on which side of its parent it is. -/
theorem At.side_eq {f : Frame N} [DecidableEq N] (h : At m (f :: path) t)
    (hne : t ≠ nil ∨ f.sibling ≠ nil) :
    (if m.child .left f.item = t.top then Side.left else .right) = f.side := by
  obtain ⟨-, hside, hother, -⟩ := h.holdsPath
  have hdiff : f.sibling.top ≠ t.top := by
    intro heq
    cases htop : t.top with
    | none =>
      rw [htop] at heq
      rcases hne with ht | hs
      · exact ht (top_eq_none.mp htop)
      · exact hs (top_eq_none.mp heq)
    | some b =>
      rw [htop] at heq
      have hdisj := (List.nodup_append.mp h.nodup).2.2 b (top_mem htop) b
      exact hdisj (List.mem_cons_of_mem _ (List.mem_append_left _ (top_mem heq))) rfl
  obtain ⟨side, c, a, s⟩ := f
  cases side with
  | left => exact if_pos hside
  | right => exact if_neg fun heq => hdiff (hother.symm.trans heq)

/-! ## Writing -/

theorem Same.trans {m'' : Mem N} (h : Same m m' a) (h' : Same m' m'' a) : Same m m'' a :=
  ⟨h'.parent.trans h.parent, fun s => (h'.child s).trans (h.child s), h'.color.trans h.color⟩

theorem Same.setRoot : Same m (m.setRoot o) a := ⟨rfl, fun _ => rfl, rfl⟩

section Write

variable [DecidableEq N]

theorem Same.setParent (hne : a ≠ b) : Same m (m.setParent b o) a :=
  ⟨by rw [Mem.setParent_parent, if_neg hne], fun _ => rfl, rfl⟩

theorem Same.setChild (hne : a ≠ b) : Same m (m.setChild side b o) a :=
  ⟨rfl, fun s => by rw [Mem.setChild_child, if_neg fun h => hne h.2], rfl⟩

theorem Same.setColor (hne : a ≠ b) : Same m (m.setColor b c) a :=
  ⟨rfl, fun _ => rfl, by rw [Mem.setColor_color, if_neg hne]⟩

theorem Same.adopt (hne : o ≠ some a) : Same m (m.adopt o' o) a :=
  ⟨by rw [Mem.adopt_parent, if_neg hne], fun _ => Mem.adopt_child .., Mem.adopt_color ..⟩

/-- The root's colour is changed. -/
theorem At.setColor (h : At m path (fork side c x a y)) (d : Color) :
    At (m.setColor a d) path (fork side d x a y) := by
  have hapart := h.apart
  rw [List.cons_append, List.nodup_cons, List.mem_append, List.mem_append] at hapart
  obtain ⟨hp, hx, hy, hc, hhx, hhy⟩ := holds_fork.mp h.holds
  have hsame : ∀ b, b ≠ a → Same m (m.setColor a d) b := fun b hne => .setColor hne
  constructor
  · refine holds_fork.mpr ⟨hp, hx, hy, ?_, hhx.congr fun b hb => ?_, hhy.congr fun b hb => ?_⟩
    · rw [Mem.setColor_color, if_pos rfl]
    · exact hsame b fun heq => hapart.1 (.inl (.inl (heq ▸ hb)))
    · exact hsame b fun heq => hapart.1 (.inl (.inr (heq ▸ hb)))
  · rw [top_fork]
    have hpath := h.holdsPath
    rw [top_fork] at hpath
    exact hpath.congr rfl fun b hb => hsame b fun heq => hapart.1 (.inr (heq ▸ hb))
  · rw [inorder_fork_color side d c]
    exact h.nodup

theorem At.blacken (h : At m path t) : At (m.paint .black t.top) path t.blacken := by
  cases t with
  | nil => exact h
  | node c l a r =>
    have hfork : At m path (fork .left c l a r) := h
    exact hfork.setColor .black

/-- The pointer that a path leads through is written. -/
theorem HoldsPath.write (h : HoldsPath m path o) (hnodup : (around path).Nodup) (new : Option N) :
    HoldsPath (m.write new (holeLink path)) path new := by
  cases path with
  | nil => rfl
  | cons f path =>
    obtain ⟨hp, hside, hother, hc, hs, hpath⟩ := h
    rw [around, List.cons_append, List.nodup_cons, List.mem_append] at hnodup
    have hsame : ∀ b, b ≠ f.item → Same m (m.setChild f.side f.item new) b := fun b hne =>
      .setChild hne
    refine ⟨hp, ?_, ?_, hc, hs.congr fun b hb => ?_, hpath.congr rfl fun b hb => ?_⟩
    · exact (Mem.setChild_child ..).trans (if_pos ⟨rfl, rfl⟩)
    · refine (Mem.setChild_child ..).trans ?_
      rw [if_neg fun heq => Side.other_ne _ heq.1]
      exact hother
    · exact hsame b fun heq => hnodup.1 (.inl (heq ▸ hb))
    · exact hsame b fun heq => hnodup.1 (.inr (heq ▸ hb))

/-- Off the path nothing is written. -/
theorem Same.write {new : Option N} (hb : b ∉ around path) :
    Same m (m.write new (holeLink path)) b := by
  cases path with
  | nil => exact .setRoot
  | cons f path =>
    refine .setChild ?_
    rintro rfl
    exact hb List.mem_cons_self

/-- The source finds the pointer that leads to `old`. -/
theorem replaceChild_eq {old : N} {new : Option N} (h : HoldsPath m path (some old))
    (hold : old ∉ around path) (s : Side) :
    m.replaceChild s (above path) old new = m.write new (holeLink path) := by
  cases path with
  | nil => rfl
  | cons f path =>
    obtain ⟨-, hside, hother, -, -, -⟩ := h
    show (if m.child s f.item = some old then _ else _) = m.setChild f.side f.item new
    rcases Side.eq_or_eq_other f.side s with rfl | rfl
    · rw [if_pos hside]
    · rw [if_neg, Side.other_other]
      intro heq
      rw [hother] at heq
      exact hold (List.mem_cons_of_mem _ (List.mem_append_left _ (top_mem heq)))

theorem replaceChild_path {old : N} {new : Option N} (h : HoldsPath m path (some old))
    (hold : old ∉ around path) (hnodup : (around path).Nodup) (s : Side) :
    HoldsPath (m.replaceChild s (above path) old new) path new := by
  rw [replaceChild_eq h hold]
  exact h.write hnodup new

theorem replaceChild_same {old : N} {new : Option N} (h : HoldsPath m path (some old))
    (hold : old ∉ around path) (s : Side) (hb : b ∉ around path) :
    Same m (m.replaceChild s (above path) old new) b := by
  rw [replaceChild_eq h hold]
  exact .write hb

/-- What a rotation has written. -/
structure Rotated (m m' : Mem N) (path : List (Frame N)) (side : Side) (a b : N) (y : RbTree N) :
    Prop where
  parent : ∀ n, m'.parent n = if n = a then some b else if n = b then above path
    else if y.top = some n then some a else m.parent n
  child : ∀ n, n ∉ around path → ∀ s, m'.child s n = if s = side ∧ n = b then some a
    else if s = side.other ∧ n = a then y.top else m.child s n
  color : ∀ n, m'.color n = m.color n
  path : HoldsPath m' path (some b)

theorem Rotated.same {y : RbTree N} (h : Rotated m m' path side a b y) {n : N}
    (hn : n ∉ around path) (hna : n ≠ a) (hnb : n ≠ b) (hny : y.top ≠ some n) : Same m m' n := by
  refine ⟨?_, fun s => ?_, h.color n⟩
  · rw [h.parent, if_neg hna, if_neg hnb, if_neg hny]
  · rw [h.child n hn, if_neg fun heq => hnb heq.2, if_neg fun heq => hna heq.2]

omit [DecidableEq N] in
/-- The nodes at a rotation are apart. -/
theorem At.rotate_apart (h : At m path (fork side c x a (fork side d y b z))) :
    (a :: (x.inorder ++ (b :: (y.inorder ++ z.inorder))) ++ around path).Nodup :=
  ((((perm_fork side d y b z).append_left x.inorder).cons a).append_right
    (around path)).nodup_iff.mp h.apart

theorem At.rotate_run (h : At m path (fork side c x a (fork side d y b z))) :
    ∃ m', m.rotate side a = .ok m' ∧ Rotated m m' path side a b y := by
  obtain ⟨hpa, -, hab, -, -, hin⟩ := holds_fork.mp h.holds
  obtain ⟨-, hby, -, -, -, -⟩ := holds_fork.mp hin
  have hpath := h.holdsPath
  rw [top_fork] at hab hpath
  have hapart := h.rotate_apart
  simp only [List.cons_append, List.append_assoc, List.nodup_cons, List.nodup_append,
    List.mem_append, List.mem_cons, not_or] at hapart
  obtain ⟨⟨-, hne, hay, -, hap⟩, -, ⟨⟨-, -, hbp⟩, -, ⟨-, hnodup, -⟩, hy⟩, -⟩ := hapart
  have hytop : ∀ n ∈ around path, y.top ≠ some n := fun n hn htop =>
    hy n (top_mem htop) n (.inr hn) rfl
  -- the writes, one after the other
  let m₁ := (m.setChild side.other a y.top).adopt (some a) y.top
  let m₂ := (m₁.setChild side b (some a)).setParent b (above path)
  let m₃ := m₂.replaceChild side (above path) a (some b)
  have hpath₂ : HoldsPath m₂ path (some a) := by
    refine hpath.congr ?_ fun n hn => ?_
    · simp [m₂, m₁]
    · have hna : n ≠ a := fun heq => hap (heq ▸ hn)
      have hnb : n ≠ b := fun heq => hbp (heq ▸ hn)
      exact (((Same.setChild hna).trans (.adopt (hytop n hn))).trans (.setChild hnb)).trans
        (.setParent hnb)
  have hread : (m.setChild side.other a y.top).child side b = y.top := by
    rw [Mem.setChild_child, if_neg fun heq => Side.other_ne side heq.1.symm, hby]
  have hup : (m₁.setChild side b (some a)).parent a = above path := by
    rw [Mem.setChild_parent, Mem.adopt_parent, if_neg fun htop => hay (top_mem htop)]
    exact hpa
  have hup₂ : m₂.parent a = above path := by
    rw [Mem.setParent_parent, if_neg hne, hup]
  refine ⟨m₃.setParent a (some b), ?_, ?_, ?_, ?_, ?_⟩
  · unfold Mem.rotate
    rw [hab]
    show Except.ok _ = _
    rw [hby, hread, hup, hup₂]
  · intro n
    simp only [m₃, m₂, m₁, Mem.setParent_parent, Mem.replaceChild_parent, Mem.setChild_parent,
      Mem.adopt_parent]
  · intro n hn s
    rw [Mem.setParent_child, (replaceChild_same hpath₂ hap side hn).child]
    simp only [m₂, m₁, Mem.setParent_child, Mem.setChild_child, Mem.adopt_child]
  · intro n
    simp [m₃, m₂, m₁]
  · refine (replaceChild_path hpath₂ hap hnodup side).congr rfl fun n hn => .setParent ?_
    exact fun heq => hap (heq ▸ hn)

/-- The lower node goes up. -/
theorem At.rotate (h : At m path (fork side c x a (fork side d y b z))) : ∃ m',
    m.rotate side a = .ok m' ∧ At m' path (fork side d (fork side c x a y) b z) := by
  obtain ⟨m', hrun, hm'⟩ := h.rotate_run
  refine ⟨m', hrun, ?_⟩
  obtain ⟨-, hax, -, hca, hx, hin⟩ := holds_fork.mp h.holds
  obtain ⟨-, -, hbz, hcb, hy, hz⟩ := holds_fork.mp hin
  have hapart := h.rotate_apart
  simp only [List.cons_append, List.append_assoc, List.nodup_cons, List.nodup_append,
    List.mem_append, List.mem_cons, not_or] at hapart
  obtain ⟨⟨hanx, hne, hany, hanz, hanp⟩, -, ⟨⟨hbny, hbnz, hbnp⟩, hndy, ⟨-, -, hzp⟩, hyzp⟩, hxr⟩ :=
    hapart
  have hytop : ∀ n, n ∉ y.inorder → y.top ≠ some n := fun n hn htop => hn (top_mem htop)
  constructor
  · have hx' : Holds m' (some a) x := hx.congr fun n hn => by
      have hoff := fun k hk => hxr n hn k hk
      exact hm'.same (by grind) (by grind) (by grind) (hytop n (by grind))
    have hz' : Holds m' (some b) z := hz.congr fun n hn => by
      exact hm'.same (by grind) (by grind) (by grind) (hytop n (by grind))
    have hyin : ∀ n ∈ y.inorder, n ∉ around path ∧ n ≠ a ∧ n ≠ b := by
      grind
    have hy' : Holds m' (some a) y := by
      refine hy.reparent (fun n hn => ?_) (fun n hn s => ?_) (fun n hn => hm'.color n)
        (fun n hn htop => ?_) hndy
      · obtain ⟨-, hna, hnb⟩ := hyin n (top_mem hn)
        rw [hm'.parent, if_neg hna, if_neg hnb, if_pos hn]
      · obtain ⟨hnp, hna, hnb⟩ := hyin n hn
        rw [hm'.child n hnp, if_neg fun heq => hnb heq.2, if_neg fun heq => hna heq.2]
      · obtain ⟨-, hna, hnb⟩ := hyin n hn
        rw [hm'.parent, if_neg hna, if_neg hnb, if_neg htop]
    have hother := Side.other_ne side
    refine holds_fork.mpr ⟨?_, ?_, ?_, (hm'.color b).trans hcb,
      holds_fork.mpr ⟨?_, ?_, ?_, (hm'.color a).trans hca, hx', hy'⟩, hz'⟩
    · rw [hm'.parent, if_neg (Ne.symm hne), if_pos rfl]
    · rw [hm'.child b hbnp, if_pos ⟨rfl, rfl⟩, top_fork]
    · rw [hm'.child b hbnp, if_neg fun heq => hother heq.1, if_neg fun heq => hne heq.2.symm, hbz]
    · rw [hm'.parent, if_pos rfl]
    · rw [hm'.child a hanp, if_neg fun heq => hne heq.2, if_neg fun heq => hother heq.1.symm, hax]
    · rw [hm'.child a hanp, if_neg fun heq => hne heq.2, if_pos ⟨rfl, rfl⟩]
  · rw [top_fork]
    exact hm'.path
  · rw [inorder_fork_rotate side c d]
    exact h.nodup

end Write

end WorkflowKernel.Rbtree
