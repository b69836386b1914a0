import Mathlib.Data.List.Pairwise
import WorkflowKernel.Poller.Table.Model

/-!
# What the lists and the tree hold

`listAddTail` on a list that is not empty links the entry in front of the last one and leaves
`head->prev`, so a walk misses what was added in between. As long as every list it is called on is
empty, both lists hold at most one node, `Boxes` says which, and the timeout tree takes all others.
A list operation then only goes through heads and through nodes whose union holds a `list`.

## What is proved

- `unlink_boxes`: a node leaves its container, and the rest stays.
- `treeInsert_boxes`: the tree stays sorted and both caches right, whatever the timeout.
- `addTail_timeo_boxes`, `addTail_noTimeo_boxes`: an empty list gets its node.
-/

namespace WorkflowKernel.Poller.Table

open WorkflowKernel.Lib

/-! ## Lists of at most one node -/

/-- The list from `head` holds `x` and no other node. -/
def ListIs (l : Links) (head : Cell) : Option NodeId → Prop
  | none => l.next head = head ∧ l.prev head = head
  | some n =>
    l.next head = .node n ∧ l.prev head = .node n ∧ l.next (.node n) = head ∧
      l.prev (.node n) = head

section Lists

variable {l : Links} {head other : Cell} {n : NodeId} {x : Option NodeId}

theorem ListIs.empty_iff (h : ListIs l head x) (hhead : ∀ n, head ≠ .node n) :
    listEmpty l head = true ↔ x = none := by
  cases x with
  | none => simpa [listEmpty] using h.1
  | some n => simp [listEmpty, h.1, (hhead n).symm]

/-- Taking out the node of a list leaves it empty. -/
theorem ListIs.delete (h : ListIs l head (some n)) (hhead : ∀ n, head ≠ .node n) :
    ListIs (listDelete l (.node n)) head none := by
  obtain ⟨-, -, hnext, hprev⟩ := h
  simp only [ListIs, listDelete, hnext, hprev, Function.update_of_ne (hhead n).symm,
    Function.update_self, and_self]

/-- Taking out a node does not touch a list that it is not in. -/
theorem ListIs.delete_other (h : ListIs l other x) (hn : ListIs l head (some n))
    (hhead : ∀ n, head ≠ .node n) (hne : other ≠ head) : ListIs (listDelete l (.node n)) other x := by
  obtain ⟨-, -, hnext, hprev⟩ := hn
  cases x with
  | none =>
    simp only [ListIs, listDelete, hnext, hprev, Function.update_of_ne (hhead n).symm,
      Function.update_of_ne hne] at h ⊢
    exact h
  | some m =>
    simp only [ListIs, listDelete, hnext, hprev, Function.update_of_ne (hhead n).symm,
      Function.update_of_ne hne, Function.update_of_ne (hhead m).symm] at h ⊢
    exact h

/-- An entry added to an empty list is the only one. -/
theorem ListIs.add (h : ListIs l head none) (hhead : ∀ n, head ≠ .node n) :
    ListIs (listAddTail l (l.prev head) (.node n)) head (some n) := by
  obtain ⟨hnext, hprev⟩ := h
  have hempty : listEmpty l head = true := by simpa [listEmpty] using hnext
  simp only [ListIs, listAddTail, hprev, hempty, if_true, Function.update_self,
    Function.update_of_ne (hhead n), and_self]

theorem ListIs.add_other (h : ListIs l other x) (hn : ListIs l head none)
    (hother : ∀ n, other ≠ .node n) (hhead : ∀ n, head ≠ .node n) (hne : other ≠ head)
    (hx : x ≠ some n) : ListIs (listAddTail l (l.prev head) (.node n)) other x := by
  obtain ⟨hnext, hprev⟩ := hn
  have hempty : listEmpty l head = true := by simpa [listEmpty] using hnext
  cases x with
  | none =>
    simp only [ListIs, listAddTail, hprev, hempty, if_true, Function.update_of_ne (hother n),
      Function.update_of_ne hne] at h ⊢
    exact h
  | some m =>
    have hmn : Cell.node m ≠ .node n := by
      intro heq
      exact hx (congrArg some (Cell.node.inj heq))
    simp only [ListIs, listAddTail, hprev, hempty, if_true, Function.update_of_ne (hother n),
      Function.update_of_ne hne, Function.update_of_ne hmn, Function.update_of_ne (hhead m).symm]
      at h ⊢
    exact h

end Lists

/-! ## The containers -/

/-- `timeo_list` holds `x`, `no_timeo_list` holds `y`, and the tree is in order with its caches. -/
structure Boxes (s : State) (x y : Option NodeId) : Prop where
  timeo : ListIs s.links .timeoList x
  noTimeo : ListIs s.links .noTimeoList y
  sorted : s.tree.inorder.Pairwise fun a b => (s.node a).timeout.ns ≤ (s.node b).timeout.ns
  nodup : s.tree.inorder.Nodup
  first : s.treeFirst = s.tree.inorder.head?
  last : s.treeLast = s.tree.inorder.getLast?
  inRbtree : ∀ n, (s.node n).inRbtree = true ↔ n ∈ s.tree.inorder
  timeo_apart : ∀ n, x = some n → n ∉ s.tree.inorder ∧ y ≠ some n
  noTimeo_apart : ∀ n, y = some n → n ∉ s.tree.inorder
  held : ∀ n, x = some n ∨ y = some n → s.holdsList n = true
  defined : s.undefined = false

/-- The node is in `timeo_list` or in the tree. -/
def Timed (s : State) (x : Option NodeId) (n : NodeId) : Prop :=
  x = some n ∨ n ∈ s.tree.inorder

/-- The node is in one of the containers. -/
def Boxed (s : State) (x y : Option NodeId) (n : NodeId) : Prop := Timed s x n ∨ y = some n

theorem timeoList_ne (n : NodeId) : Cell.timeoList ≠ .node n := Cell.noConfusion

theorem noTimeoList_ne (n : NodeId) : Cell.noTimeoList ≠ .node n := Cell.noConfusion

/-- The containers look at nothing else of a poller, and at no other node. -/
theorem Boxes.congr {s s' : State} {x y : Option NodeId} (hb : Boxes s x y)
    (hlinks : s'.links = s.links) (hholds : s'.holdsList = s.holdsList)
    (hundefined : s'.undefined = s.undefined) (htree : s'.tree = s.tree)
    (hfirst : s'.treeFirst = s.treeFirst) (hlast : s'.treeLast = s.treeLast)
    (htimeout : ∀ m, Boxed s x y m → (s'.node m).timeout = (s.node m).timeout)
    (hflag : ∀ m, (s'.node m).inRbtree = (s.node m).inRbtree) : Boxes s' x y where
  timeo := by
    rw [hlinks]
    exact hb.timeo
  noTimeo := by
    rw [hlinks]
    exact hb.noTimeo
  sorted := by
    rw [htree]
    apply hb.sorted.imp_of_mem
    intro a b ha hb' hab
    rw [htimeout a (.inl (.inr ha)), htimeout b (.inl (.inr hb'))]
    exact hab
  nodup := by
    rw [htree]
    exact hb.nodup
  first := by rw [hfirst, htree, hb.first]
  last := by rw [hlast, htree, hb.last]
  inRbtree m := by rw [hflag, htree, hb.inRbtree]
  timeo_apart := by
    rw [htree]
    exact hb.timeo_apart
  noTimeo_apart := by
    rw [htree]
    exact hb.noTimeo_apart
  held := by
    rw [hholds]
    exact hb.held
  defined := hundefined.trans hb.defined

section Unlink

variable {R : Rebalance} {s : State} {x y : Option NodeId} {n : NodeId}

/-- What is in front of an element and behind it, when the element is taken out. -/
theorem erase_of_split {front back : List NodeId} (h : (front ++ n :: back).Nodup) :
    (front ++ n :: back).erase n = front ++ back := by
  have hn : n ∉ front := by
    intro hmem
    exact (List.nodup_append.mp h).2.2 n hmem n List.mem_cons_self rfl
  rw [List.erase_append_right _ hn, List.erase_cons_head]

theorem treeErase_first (hb : Boxes s x y) : (treeErase R s n).treeFirst =
    (s.tree.inorder.erase n).head? := by
  show (if s.treeFirst = some n then s.tree.next n else s.treeFirst) = _
  rw [hb.first]
  cases hlist : s.tree.inorder with
  | nil => rfl
  | cons a as =>
    by_cases han : a = n
    · subst han
      rw [List.head?_cons, if_pos rfl, RbTree.next_head hlist, List.erase_cons_head]
    · rw [List.head?_cons, if_neg (by simpa using han), List.erase_cons_tail (by simpa using han),
        List.head?_cons]

theorem treeErase_last (hb : Boxes s x y) : (treeErase R s n).treeLast =
    (s.tree.inorder.erase n).getLast? := by
  show (if s.treeLast = some n then s.tree.prev n else s.treeLast) = _
  rw [hb.last]
  obtain hnil | ⟨as, a, hlist⟩ := List.eq_nil_or_concat' s.tree.inorder
  · rw [hnil]
    rfl
  · have hnodup := hb.nodup
    rw [hlist] at hnodup
    rw [hlist, List.getLast?_concat]
    by_cases han : a = n
    · subst han
      rw [if_pos rfl, RbTree.prev_getLast hlist, erase_of_split hnodup, List.append_nil]
    · rw [if_neg (by simpa using han)]
      by_cases hmem : n ∈ as
      · rw [List.erase_append_left _ hmem, List.getLast?_concat]
      · rw [List.erase_append_right _ hmem, List.erase_cons_tail (by simpa using han),
          List.erase_nil, List.getLast?_concat]

theorem treeErase_inorder : (treeErase R s n).tree.inorder = s.tree.inorder.erase n :=
  R.inorder_erase n s.tree

theorem treeErase_node : (treeErase R s n).node =
    Function.update s.node n { s.node n with inRbtree := false } := rfl

/-- Only the flag of the node changes in the nodes. -/
theorem unlink_node : (unlink R s n).node =
    Function.update s.node n { s.node n with inRbtree := false } := by
  unfold unlink
  split
  · rfl
  · next hflag =>
    have hsame : { s.node n with inRbtree := false } = s.node n := by
      cases hk : s.node n
      simp_all
    rw [hsame, Function.update_eq_self]
    rfl

theorem unlink_timeout (m : NodeId) : ((unlink R s n).node m).timeout = (s.node m).timeout := by
  rw [unlink_node, Function.update_apply]
  split
  · next h => rw [h]
  · rfl

theorem treeErase_boxes (hb : Boxes s x y) : Boxes (treeErase R s n) x y where
  timeo := hb.timeo
  noTimeo := hb.noTimeo
  sorted := by
    rw [treeErase_inorder]
    apply (hb.sorted.sublist List.erase_sublist).imp
    intro a b hab
    simp only [treeErase_node, Function.update_apply]
    split <;> split <;> simp_all
  nodup := by
    rw [treeErase_inorder]
    exact hb.nodup.erase n
  first := by rw [treeErase_first hb, treeErase_inorder]
  last := by rw [treeErase_last hb, treeErase_inorder]
  inRbtree := by
    intro m
    rw [treeErase_inorder, hb.nodup.mem_erase_iff, treeErase_node, Function.update_apply]
    split
    · next h => simp [h]
    · next h => simp [h, hb.inRbtree m]
  timeo_apart := by
    intro m hm
    obtain ⟨hout, hy⟩ := hb.timeo_apart m hm
    rw [treeErase_inorder]
    exact ⟨fun h => hout (List.mem_of_mem_erase h), hy⟩
  noTimeo_apart := by
    intro m hm
    rw [treeErase_inorder]
    exact fun h => hb.noTimeo_apart m hm (List.mem_of_mem_erase h)
  held := hb.held
  defined := hb.defined

/-- The lists change, by an operation that only went through a `struct list`. -/
theorem Boxes.of_links {l : Links} {holds : NodeId → Bool} {cells : List Cell}
    {x' y' : Option NodeId} (hb : Boxes s x y) (hcells : ∀ c ∈ cells, s.isList c = true)
    (htimeo : ListIs l .timeoList x') (hnoTimeo : ListIs l .noTimeoList y')
    (hx : ∀ m, x' = some m → m ∉ s.tree.inorder ∧ y' ≠ some m)
    (hy : ∀ m, y' = some m → m ∉ s.tree.inorder)
    (hheld : ∀ m, x' = some m ∨ y' = some m → holds m = true) :
    Boxes { s with
      links := l
      holdsList := holds
      undefined := s.undefined || !cells.all s.isList } x' y' where
  timeo := htimeo
  noTimeo := hnoTimeo
  sorted := hb.sorted
  nodup := hb.nodup
  first := hb.first
  last := hb.last
  inRbtree := hb.inRbtree
  timeo_apart := hx
  noTimeo_apart := hy
  held := hheld
  defined := by
    show (s.undefined || !cells.all s.isList) = false
    rw [hb.defined, List.all_eq_true.mpr hcells]
    rfl

/-- The cells that `list_delete` goes through. -/
theorem isList_around {head : Cell} (hlist : ListIs s.links head (some n))
    (hhead : s.isList head = true) (hn : s.holdsList n = true) :
    ∀ c ∈ [.node n, s.links.prev (.node n), s.links.next (.node n)], s.isList c = true := by
  obtain ⟨-, -, hnext, hprev⟩ := hlist
  rw [hnext, hprev]
  intro c hc
  simp only [List.mem_cons, List.not_mem_nil, or_false] at hc
  obtain rfl | rfl | rfl := hc
  · exact hn
  · exact hhead
  · exact hhead

/-- A node leaves its container. -/
theorem unlink_boxes (hb : Boxes s x y) (hn : Boxed s x y n) : ∃ x' y',
    Boxes (unlink R s n) x' y' ∧
      (∀ m, Timed (unlink R s n) x' m ↔ Timed s x m ∧ m ≠ n) ∧
      (∀ m, x' = some m → x = some m) ∧ (∀ m, y' = some m ↔ y = some m ∧ m ≠ n) := by
  by_cases htree : n ∈ s.tree.inorder
  · have hflag := (hb.inRbtree n).mpr htree
    rw [unlink, if_pos hflag]
    refine ⟨x, y, treeErase_boxes hb, ?_, fun m hm => hm, ?_⟩
    · intro m
      have hx := hb.timeo_apart m
      simp only [Timed, treeErase_inorder, hb.nodup.mem_erase_iff]
      constructor
      · rintro (hm | ⟨hne, hm⟩)
        · exact ⟨.inl hm, fun h => (hx hm).1 (h ▸ htree)⟩
        · exact ⟨.inr hm, hne⟩
      · rintro ⟨hm | hm, hne⟩
        · exact .inl hm
        · exact .inr ⟨hne, hm⟩
    · intro m
      constructor
      · intro hm
        exact ⟨hm, fun h => hb.noTimeo_apart m hm (h ▸ htree)⟩
      · exact fun h => h.1
  · have hflag : ¬ (s.node n).inRbtree = true := fun h => htree ((hb.inRbtree n).mp h)
    rw [unlink, if_neg hflag]
    obtain (hx | hin) | hy := hn
    · -- in `timeo_list`
      have hlist := hb.timeo
      rw [hx] at hlist
      have hyn := (hb.timeo_apart n hx).2
      refine ⟨none, y, ?_, ?_, by simp, ?_⟩
      · apply hb.of_links (isList_around hlist rfl (hb.held n (.inl hx)))
          (hlist.delete timeoList_ne)
        · exact hb.noTimeo.delete_other hlist timeoList_ne (by simp)
        · intro m hm
          cases hm
        · exact hb.noTimeo_apart
        · intro m hm
          exact hb.held m (.inr (hm.resolve_left nofun))
      · intro m
        simp only [Timed, reduceCtorEq, false_or, hx, Option.some.injEq]
        constructor
        · intro hm
          exact ⟨.inr hm, fun h => htree (h ▸ hm)⟩
        · rintro ⟨rfl | hm, hne⟩
          · exact absurd rfl hne
          · exact hm
      · intro m
        constructor
        · intro hm
          exact ⟨hm, fun h => hyn (h ▸ hm)⟩
        · exact fun h => h.1
    · exact absurd hin htree
    · -- in `no_timeo_list`
      have hlist := hb.noTimeo
      rw [hy] at hlist
      have hxn : x ≠ some n := fun hx => (hb.timeo_apart n hx).2 hy
      refine ⟨x, none, ?_, ?_, fun m hm => hm, ?_⟩
      · apply hb.of_links (isList_around hlist rfl (hb.held n (.inr hy))) _
          (hlist.delete noTimeoList_ne)
        · intro m hm
          exact ⟨(hb.timeo_apart m hm).1, by simp⟩
        · intro m hm
          cases hm
        · intro m hm
          exact hb.held m (.inl (hm.resolve_right nofun))
        · exact hb.timeo.delete_other hlist noTimeoList_ne (by simp)
      · intro m
        simp only [Timed]
        constructor
        · rintro (hm | hm)
          · exact ⟨.inl hm, fun h => hxn (h ▸ hm)⟩
          · exact ⟨.inr hm, fun h => htree (h ▸ hm)⟩
        · exact fun h => h.1
      · intro m
        simp only [reduceCtorEq, hy, Option.some.injEq, false_iff, not_and, not_not]
        exact fun h => h.symm

end Unlink

section Insert

variable {R : Rebalance} {s : State} {x y : Option NodeId} {n : NodeId}

/-- A list that grows by an element at its place stays in order. -/
theorem pairwise_insert {front back : List NodeId} {key : NodeId → Nat}
    (h : (front ++ back).Pairwise fun a b => key a ≤ key b) (hfront : ∀ a ∈ front, key a ≤ key n)
    (hback : ∀ b ∈ back, key n ≤ key b) :
    (front ++ n :: back).Pairwise fun a b => key a ≤ key b := by
  obtain ⟨hf, hb, hcross⟩ := List.pairwise_append.mp h
  apply List.pairwise_append.mpr
  refine ⟨hf, List.pairwise_cons.mpr ⟨hback, hb⟩, ?_⟩
  intro a ha b hb'
  obtain rfl | hb' := List.mem_cons.mp hb'
  · exact hfront a ha
  · exact hcross a ha b hb'

/-- The test of the descent: the node is earlier. -/
def goesLeft (s : State) (n e : NodeId) : Bool :=
  decide (timeoutCmp (s.node n).timeout (s.node e).timeout < 0)

theorem goesLeft_iff {e : NodeId} :
    goesLeft s n e = true ↔ (s.node n).timeout.ns < (s.node e).timeout.ns := by
  rw [goesLeft, decide_eq_true_eq, timeoutCmp_neg]

theorem goesLeft_monotone (hb : Boxes s x y) : RbTree.Monotone (goesLeft s n) s.tree.inorder := by
  apply hb.sorted.imp
  intro a b hab
  rw [goesLeft_iff, goesLeft_iff]
  omega

/-- The node parts the tree into what is not later and what is. -/
structure Linked (s : State) (n : NodeId) (t : RbTree NodeId) (front back : List NodeId) : Prop where
  before : s.tree.inorder = front ++ back
  after : t.inorder = front ++ n :: back
  front_le : ∀ a ∈ front, (s.node a).timeout.ns ≤ (s.node n).timeout.ns
  lt_back : ∀ b ∈ back, (s.node n).timeout.ns < (s.node b).timeout.ns

/-- The node is not earlier than the last one. -/
theorem linked_right {front : List NodeId} {a : NodeId} (hb : Boxes s x y)
    (hlist : s.tree.inorder = front ++ [a]) (hle : (s.node a).timeout.ns ≤ (s.node n).timeout.ns) :
    Linked s n (s.tree.linkRight a n) (front ++ [a]) [] := by
  have hnodup := hb.nodup
  have hsorted := hb.sorted
  rw [hlist] at hnodup hsorted
  obtain ⟨-, -, hcross⟩ := List.pairwise_append.mp hsorted
  constructor
  · rw [hlist, List.append_nil]
  · rw [RbTree.inorder_linkRight hlist, List.append_assoc]
    · rfl
    · intro hmem
      exact (List.nodup_append.mp hnodup).2.2 a hmem a List.mem_cons_self rfl
  · intro b hb'
    obtain hb' | hb' := List.mem_append.mp hb'
    · exact Nat.le_trans (hcross b hb' a List.mem_cons_self) hle
    · obtain rfl := List.mem_singleton.mp hb'
      exact hle
  · intro b hb'
    cases hb'

/-- The node goes where the descent ends. -/
theorem linked_descend (hb : Boxes s x y) :
    ∃ front back, Linked s n (s.tree.descend (goesLeft s n) n) front back := by
  obtain ⟨front, back, hsplit, hdesc, hfront, hback, -, -⟩ :=
    RbTree.descend_split (x := n) (goesLeft_monotone (n := n) hb)
  refine ⟨front, back, hsplit, hdesc, ?_, ?_⟩
  · intro a ha
    have hright := hfront a ha
    have hiff := goesLeft_iff (s := s) (n := n) (e := a)
    rw [hright] at hiff
    simpa using hiff
  · intro b hb'
    exact goesLeft_iff.mp (hback b hb')

/-- Where `__poller_tree_insert` links the node, and that the caches follow. -/
theorem treeLink_spec (hb : Boxes s x y) : ∃ front back,
    Linked s n (treeLink s n).tree front back ∧
      (treeLink s n).treeFirst = (treeLink s n).tree.inorder.head? ∧
      (treeLink s n).treeLast = (treeLink s n).tree.inorder.getLast? := by
  unfold treeLink
  by_cases hnil : s.tree = .nil
  · simp only [hnil, if_true]
    refine ⟨[], [], ?_, rfl, rfl⟩
    constructor
    · rw [hnil]
      rfl
    · rfl
    · intro a ha
      cases ha
    · intro b hb'
      cases hb'
  · simp only [hnil, if_false]
    obtain hempty | ⟨front, a, hlist⟩ := List.eq_nil_or_concat' s.tree.inorder
    · exact absurd (RbTree.inorder_eq_nil.mp hempty) hnil
    · have hlast : s.tree.inorder.getLast? = some a := by rw [hlist, List.getLast?_concat]
      rw [hb.last, hlast, Option.getD_some]
      split
      · next hge =>
        have hlinked := linked_right (n := n) hb hlist (timeoutCmp_nonneg.mp hge)
        refine ⟨front ++ [a], [], hlinked, ?_, ?_⟩
        · show s.treeFirst = _
          rw [hb.first, hlinked.after, hlist, List.append_assoc, List.head?_append,
            List.head?_append]
          rfl
        · rw [hlinked.after, List.getLast?_concat]
      · next hlt =>
        have ha : goesLeft s n a = true := by
          rw [goesLeft_iff]
          rw [timeoutCmp_nonneg] at hlt
          omega
        obtain ⟨pre, post, hlinked⟩ := linked_descend (n := n) hb
        refine ⟨pre, post, hlinked, ?_, ?_⟩
        · show (if s.tree.slot (goesLeft s n) = s.treeFirst.map (·, true) then some n
            else s.treeFirst) = (s.tree.descend (goesLeft s n) n).inorder.head?
          rw [hb.first, RbTree.head?_descend (goesLeft_monotone hb) hb.nodup hnil]
        · show some a = (s.tree.descend (goesLeft s n) n).inorder.getLast?
          rw [RbTree.getLast?_descend (goesLeft_monotone hb) hlast ha]

theorem treeLink_keeps : (treeLink s n).node = s.node ∧ (treeLink s n).links = s.links ∧
    (treeLink s n).holdsList = s.holdsList ∧ (treeLink s n).undefined = s.undefined := by
  unfold treeLink
  simp only
  split
  · exact ⟨rfl, rfl, rfl, rfl⟩
  · split
    · exact ⟨rfl, rfl, rfl, rfl⟩
    · exact ⟨rfl, rfl, rfl, rfl⟩

theorem treeInsert_node : (treeInsert R s n).node =
    Function.update s.node n { s.node n with inRbtree := true } := by
  simp only [treeInsert, State.setNode, treeLink_keeps.1]

theorem treeInsert_links : (treeInsert R s n).links = s.links :=
  treeLink_keeps.2.1

/-- `rb_link_node` writes over the node's `list`, and over no other. -/
theorem treeInsert_holdsList :
    (treeInsert R s n).holdsList = Function.update s.holdsList n false := by
  simp only [treeInsert, State.setNode, treeLink_keeps.2.2.1]

theorem treeInsert_inorder : (treeInsert R s n).tree.inorder = (treeLink s n).tree.inorder :=
  R.inorder_insertColor n _

theorem treeInsert_timeout (m : NodeId) :
    ((treeInsert R s n).node m).timeout = (s.node m).timeout := by
  rw [treeInsert_node, Function.update_apply]
  split
  · next h => rw [h]
  · rfl

/-- The tree takes any node that is in no container. -/
theorem treeInsert_boxes (hb : Boxes s x y) (hn : ¬ Boxed s x y n) :
    Boxes (treeInsert R s n) x y ∧
      ∀ m, m ∈ (treeInsert R s n).tree.inorder ↔ m ∈ s.tree.inorder ∨ m = n := by
  obtain ⟨front, back, hlinked, hfirst, hlast⟩ := treeLink_spec (n := n) hb
  obtain ⟨hbefore, hafter, hfront, hback⟩ := hlinked
  simp only [Boxed, Timed, not_or] at hn
  obtain ⟨⟨hx, htree⟩, hy⟩ := hn
  have hmem : ∀ m, m ∈ (treeInsert R s n).tree.inorder ↔ m ∈ s.tree.inorder ∨ m = n := by
    intro m
    rw [treeInsert_inorder, hafter, hbefore]
    simp only [List.mem_append, List.mem_cons]
    constructor
    · rintro (h | h | h)
      · exact .inl (.inl h)
      · exact .inr h
      · exact .inl (.inr h)
    · rintro ((h | h) | h)
      · exact .inl h
      · exact .inr (.inr h)
      · exact .inr (.inl h)
  refine ⟨?_, hmem⟩
  constructor
  case timeo =>
    rw [treeInsert_links]
    exact hb.timeo
  case noTimeo =>
    rw [treeInsert_links]
    exact hb.noTimeo
  case sorted =>
    have hsorted := hb.sorted
    rw [hbefore] at hsorted
    simp only [treeInsert_timeout]
    rw [treeInsert_inorder, hafter]
    apply pairwise_insert hsorted hfront
    intro b hb'
    exact Nat.le_of_lt (hback b hb')
  case nodup =>
    rw [treeInsert_inorder, hafter, List.nodup_middle, List.nodup_cons, ← hbefore]
    exact ⟨htree, hb.nodup⟩
  case first =>
    rw [treeInsert_inorder, ← hfirst]
    rfl
  case last =>
    rw [treeInsert_inorder, ← hlast]
    rfl
  case inRbtree =>
    intro m
    rw [hmem, treeInsert_node, Function.update_apply]
    split
    · next h => simp [h]
    · next h => simp [h, hb.inRbtree m]
  case timeo_apart =>
    intro m hm
    rw [hmem, not_or]
    obtain ⟨hout, hym⟩ := hb.timeo_apart m hm
    exact ⟨⟨hout, fun h => hx (h ▸ hm)⟩, hym⟩
  case noTimeo_apart =>
    intro m hm
    rw [hmem, not_or]
    exact ⟨hb.noTimeo_apart m hm, fun h => hy (h ▸ hm)⟩
  case held =>
    intro m hm
    have hmn : m ≠ n := by
      rintro rfl
      obtain hm | hm := hm
      · exact hx hm
      · exact hy hm
    rw [treeInsert_holdsList, Function.update_of_ne hmn]
    exact hb.held m hm
  case defined => exact treeLink_keeps.2.2.2.trans hb.defined

/-- The cells that `list_add_tail` goes through on an empty list. -/
theorem isList_tail {head : Cell} (hlist : ListIs s.links head none) (hhead : s.isList head = true) :
    ∀ c ∈ if listEmpty s.links (s.links.prev head) then [s.links.prev head]
      else [s.links.prev head, s.links.prev (s.links.prev head)], s.isList c = true := by
  obtain ⟨hnext, hprev⟩ := hlist
  have hempty : listEmpty s.links head = true := by simpa [listEmpty] using hnext
  rw [hprev, hempty, if_pos rfl]
  intro c hc
  obtain rfl := List.mem_singleton.mp hc
  exact hhead

/-- The list of a new entry holds it, and the lists that hold others still do. -/
theorem held_update {holds : NodeId → Bool} {m : NodeId} (h : m = n ∨ holds m = true) :
    Function.update holds n true m = true := by
  rw [Function.update_apply]
  split
  · rfl
  · next hne => exact h.resolve_left hne

/-- `timeo_list` gets its only node. -/
theorem addTail_timeo_boxes (hb : Boxes s none y) (hn : ¬ Boxed s none y n) :
    Boxes (addTail s .timeoList n) (some n) y := by
  simp only [Boxed, Timed, not_or] at hn
  obtain ⟨⟨-, htree⟩, hy⟩ := hn
  apply hb.of_links (isList_tail hb.timeo rfl) (hb.timeo.add timeoList_ne)
  · exact hb.noTimeo.add_other hb.timeo noTimeoList_ne timeoList_ne (by simp) hy
  · intro m hm
    obtain rfl := Option.some.inj hm
    exact ⟨htree, hy⟩
  · exact hb.noTimeo_apart
  · intro m hm
    apply held_update
    exact hm.imp (fun hm => (Option.some.inj hm).symm) fun hm => hb.held m (.inr hm)

/-- `no_timeo_list` gets its only node. -/
theorem addTail_noTimeo_boxes (hb : Boxes s x none) (hn : ¬ Boxed s x none n) :
    Boxes (addTail s .noTimeoList n) x (some n) := by
  simp only [Boxed, Timed, not_or] at hn
  obtain ⟨⟨hx, htree⟩, -⟩ := hn
  apply hb.of_links (isList_tail hb.noTimeo rfl) _ (hb.noTimeo.add noTimeoList_ne)
  · intro m hm
    refine ⟨(hb.timeo_apart m hm).1, ?_⟩
    intro hnm
    obtain rfl := Option.some.inj hnm
    exact hx hm
  · intro m hm
    obtain rfl := Option.some.inj hm
    exact htree
  · intro m hm
    apply held_update
    exact hm.symm.imp (fun hm => (Option.some.inj hm).symm) fun hm => hb.held m (.inl hm)
  · exact hb.timeo.add_other hb.noTimeo timeoList_ne noTimeoList_ne (by simp) hx

end Insert

end WorkflowKernel.Poller.Table
