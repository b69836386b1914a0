import WorkflowKernel.Poller.Table.Containers

/-!
# Inserting a node and arming the timer

`__poller_insert_node` arms the timer when the new node is the earliest, which it finds by comparing
with the first node of the other container.

## What is proved

- `Frame`: what no operation on the containers touches.
- `insertNode_spec`: while `timeo_list` is not appended to, the node is inserted, and a timer that
  stood no later than any node still does.
- `place_boxes`: a node that is placed where it fits is in a container, and the others stay.
-/

namespace WorkflowKernel.Poller.Table

open WorkflowKernel.Communicator
open WorkflowKernel.Lib

/-! ## What the containers' operations leave alone -/

structure Frame (s s' : State) : Prop where
  data : ∀ m, (s'.node m).data = (s.node m).data
  removed : ∀ m, (s'.node m).removed = (s.node m).removed
  timeout : ∀ m, (s'.node m).timeout = (s.node m).timeout
  nodes : s'.nodes = s.nodes
  allocated : s'.allocated = s.allocated
  deadline : s'.deadline = s.deadline
  clock : s'.clock = s.clock

theorem Frame.trans {s t u : State} (h : Frame s t) (h' : Frame t u) : Frame s u where
  data m := (h'.data m).trans (h.data m)
  removed m := (h'.removed m).trans (h.removed m)
  timeout m := (h'.timeout m).trans (h.timeout m)
  nodes := h'.nodes.trans h.nodes
  allocated := h'.allocated.trans h.allocated
  deadline := h'.deadline.trans h.deadline
  clock := h'.clock.trans h.clock

section Operations

variable {R : Rebalance} {s : State} {x y : Option NodeId} {n : NodeId} {t : Timespec}

/-- The flag of a node may change. -/
theorem Frame.of_flag {s' : State} (b : Bool)
    (hnode : s'.node = Function.update s.node n { s.node n with inRbtree := b })
    (hnodes : s'.nodes = s.nodes) (hallocated : s'.allocated = s.allocated)
    (hdeadline : s'.deadline = s.deadline) (hclock : s'.clock = s.clock) : Frame s s' := by
  constructor
  case nodes => exact hnodes
  case allocated => exact hallocated
  case deadline => exact hdeadline
  case clock => exact hclock
  all_goals
    intro m
    rw [hnode, Function.update_apply]
    split
    · next h => rw [h]
    · rfl

theorem Frame.unlink (n : NodeId) : Frame s (unlink R s n) := by
  apply Frame.of_flag false unlink_node
  all_goals
    unfold Table.unlink
    split
    · rfl
    · rfl

theorem Frame.treeInsert : Frame s (treeInsert R s n) := by
  apply Frame.of_flag true treeInsert_node
  all_goals
    simp only [Table.treeInsert, treeLink, State.setNode]
    split
    · rfl
    · split
      · rfl
      · rfl

theorem Frame.addTail (head : Cell) : Frame s (addTail s head n) :=
  ⟨fun _ => rfl, fun _ => rfl, fun _ => rfl, rfl, rfl, rfl, rfl⟩

theorem Frame.setTimerfd (abstime : Timespec) : Frame s (setTimerfd s abstime) :=
  ⟨fun _ => rfl, fun _ => rfl, fun _ => rfl, rfl, rfl, rfl, rfl⟩

theorem Frame.insertNode (n : NodeId) : Frame s (insertNode R s n) := by
  unfold Table.insertNode
  simp only
  split
  · split
    · exact (Frame.addTail _).trans (Frame.setTimerfd _)
    · split
      · exact (Frame.addTail _).trans (Frame.setTimerfd _)
      · exact Frame.addTail _
  · split
    · exact Frame.addTail _
    · split
      · exact Frame.treeInsert
      · split
        · exact Frame.treeInsert.trans (Frame.setTimerfd _)
        · exact Frame.treeInsert

theorem alloc_self (s : State) (k : Node) : (s.alloc k).node s.allocated = k :=
  Function.update_self ..

theorem alloc_of_ne {m : NodeId} (k : Node) (h : m ≠ s.allocated) :
    (s.alloc k).node m = s.node m := Function.update_of_ne h ..

/-- A node of the containers is not a new one. -/
theorem timeout_alloc (hn : ¬ Boxed s x y s.allocated) (k : Node) (m : NodeId) (hm : x = some m) :
    ((s.alloc k).node m).timeout = (s.node m).timeout := by
  rw [alloc_of_ne k]
  rintro rfl
  exact hn (.inl (.inl hm))

/-- A new node is in no container. -/
theorem Boxes.alloc {k : Node} (hb : Boxes s x y) (hflag : k.inRbtree = false)
    (hn : ¬ Boxed s x y s.allocated) : Boxes (s.alloc k) x y := by
  refine hb.congr rfl rfl rfl rfl rfl rfl ?_ ?_
  · intro m hm
    rw [alloc_of_ne k fun heq => hn (heq ▸ hm)]
  · intro m
    by_cases hm : m = s.allocated
    · have hout : (s.node s.allocated).inRbtree ≠ true := fun hin =>
        hn (.inl (.inr ((hb.inRbtree _).mp hin)))
      rw [hm, alloc_self, hflag, Bool.eq_false_iff.mpr hout]
    · rw [alloc_of_ne k hm]

/-- A new poller has empty containers. -/
theorem boxes_created (maxOpenFiles : Nat) (stopped : Bool) (clock : Timespec) :
    Boxes (State.created maxOpenFiles stopped clock) none none where
  timeo := ⟨rfl, rfl⟩
  noTimeo := ⟨rfl, rfl⟩
  sorted := .nil
  nodup := .nil
  first := rfl
  last := rfl
  inRbtree n := by simp [State.created, Node.blank]
  timeo_apart n hn := by cases hn
  noTimeo_apart n hn := by cases hn
  held n hn := by
    obtain hn | hn := hn
    · cases hn
    · cases hn
  defined := rfl

/-! ## The timer and the containers -/

/-- The timer does not stand later than any node of the containers. -/
def Armed (s : State) (x : Option NodeId) : Prop :=
  ∀ n, Timed s x n → ∃ a, s.timerfd = some a ∧ a.ns ≤ (s.node n).timeout.ns

theorem setTimerfd_timerfd (h : 0 < t.ns) : (setTimerfd s t).timerfd = some t :=
  if_neg (Timespec.ne_zero h)

theorem Boxes.setTimerfd (hb : Boxes s x y) (t : Timespec) : Boxes (setTimerfd s t) x y :=
  hb.congr rfl rfl rfl rfl rfl rfl (fun _ _ => rfl) fun _ => rfl

/-- Armed for a node that is not later than any other. -/
theorem armed_setTimerfd (hpos : 0 < t.ns)
    (hmin : ∀ m, Timed s x m → t.ns ≤ (s.node m).timeout.ns) : Armed (setTimerfd s t) x := by
  intro m hm
  exact ⟨t, setTimerfd_timerfd hpos, hmin m hm⟩

/-- The first node of the tree is not later than the others. -/
theorem Boxes.first_le {f m : NodeId} (hb : Boxes s x y) (hf : s.treeFirst = some f)
    (hm : m ∈ s.tree.inorder) : (s.node f).timeout.ns ≤ (s.node m).timeout.ns := by
  have hsorted := hb.sorted
  rw [hb.first] at hf
  obtain ⟨as, hlist⟩ := List.head?_eq_some_iff.mp hf
  rw [hlist] at hsorted hm
  obtain rfl | hm := List.mem_cons.mp hm
  · exact Nat.le_refl _
  · exact (List.pairwise_cons.mp hsorted).1 m hm

theorem Boxes.first_mem {f : NodeId} (hb : Boxes s x y) (hf : s.treeFirst = some f) :
    f ∈ s.tree.inorder := by
  rw [hb.first] at hf
  exact List.mem_of_mem_head? hf

theorem Boxes.first_none (hb : Boxes s x y) (hf : s.treeFirst = none) :
    s.tree.inorder = [] := by
  rw [hb.first] at hf
  exact List.head?_eq_none_iff.mp hf

/-- A node that is not earlier than one the timer stands for needs no arming. -/
theorem armed_of_le {s' : State} {x' : Option NodeId} {e : NodeId} (harmed : Armed s x)
    (htimerfd : s'.timerfd = s.timerfd)
    (htimeout : ∀ m, (s'.node m).timeout = (s.node m).timeout)
    (htimed : ∀ m, Timed s' x' m → Timed s x m ∨ m = n) (he : Timed s x e)
    (hle : (s.node e).timeout.ns ≤ (s.node n).timeout.ns) : Armed s' x' := by
  intro m hm
  rw [htimerfd, htimeout]
  obtain hm | rfl := htimed m hm
  · exact harmed m hm
  · obtain ⟨a, ha, hae⟩ := harmed e he
    exact ⟨a, ha, Nat.le_trans hae hle⟩

/-- The first branch: `timeo_list` is empty. -/
theorem insertNode_empty (hb : Boxes s none y) (hn : ¬ Boxed s none y n) :
    Boxes (insertNode R s n) (some n) y ∧
      (Armed s none → 0 < (s.node n).timeout.ns → Armed (insertNode R s n) (some n)) ∧
      ∀ m, Timed (insertNode R s n) (some n) m ↔ Timed s none m ∨ m = n := by
  have hempty := (hb.timeo.empty_iff timeoList_ne).mpr rfl
  have hb' := addTail_timeo_boxes hb hn
  have htimed : ∀ m, Timed (addTail s .timeoList n) (some n) m ↔ Timed s none m ∨ m = n := by
    intro m
    show some n = some m ∨ m ∈ s.tree.inorder ↔ (none = some m ∨ m ∈ s.tree.inorder) ∨ m = n
    simp only [Option.some.injEq, reduceCtorEq, false_or, eq_comm (a := n), or_comm]
  simp only [insertNode, hempty, if_true]
  cases hfirst : (addTail s .timeoList n).treeFirst with
  | none =>
    refine ⟨hb'.setTimerfd _, ?_, htimed⟩
    intro _ hpos
    apply armed_setTimerfd hpos
    intro m hm
    have hnil := hb'.first_none hfirst
    obtain hm | hm := hm
    · obtain rfl := Option.some.inj hm
      exact Nat.le_refl _
    · rw [hnil] at hm
      cases hm
  | some f =>
    simp only [timeoutCmp_neg]
    split
    · next hlt =>
      refine ⟨hb'.setTimerfd _, ?_, htimed⟩
      intro _ hpos
      apply armed_setTimerfd hpos
      intro m hm
      obtain hm | hm := hm
      · obtain rfl := Option.some.inj hm
        exact Nat.le_refl _
      · exact Nat.le_trans (Nat.le_of_lt hlt) (hb'.first_le hfirst hm)
    · next hge =>
      refine ⟨hb', ?_, htimed⟩
      intro harmed _
      apply armed_of_le (n := n) (e := f) harmed rfl (fun _ => rfl)
      · exact fun m => (htimed m).mp
      · exact .inr (hb'.first_mem hfirst)
      · exact Nat.le_of_not_lt hge

theorem treeInsert_timerfd : (treeInsert R s n).timerfd = s.timerfd := by
  simp only [Table.treeInsert, treeLink, State.setNode]
  split
  · rfl
  · split
    · rfl
    · rfl

/-- The last branch: the node is earlier than the one in `timeo_list`. -/
theorem insertNode_tree {e : NodeId} (hb : Boxes s (some e) y) (hn : ¬ Boxed s (some e) y n)
    (hlt : (s.node n).timeout.ns < (s.node e).timeout.ns) :
    Boxes (insertNode R s n) (some e) y ∧
      (Armed s (some e) → 0 < (s.node n).timeout.ns → Armed (insertNode R s n) (some e)) ∧
      ∀ m, Timed (insertNode R s n) (some e) m ↔ Timed s (some e) m ∨ m = n := by
  have hempty : listEmpty s.links .timeoList = false := by
    rw [Bool.eq_false_iff]
    intro h
    cases (hb.timeo.empty_iff timeoList_ne).mp h
  have hnext : (treeInsert R s n).links.next .timeoList = .node e := by
    rw [treeInsert_links]
    exact hb.timeo.1
  have hprev : s.links.prev .timeoList = .node e := hb.timeo.2.1
  obtain ⟨hb', hmem⟩ := treeInsert_boxes (R := R) hb hn
  have htimed : ∀ m, Timed (treeInsert R s n) (some e) m ↔ Timed s (some e) m ∨ m = n := by
    intro m
    rw [Timed, hmem, Timed, or_assoc]
  have hnotlast : ¬ 0 ≤ timeoutCmp (s.node n).timeout (s.node e).timeout := by
    rw [timeoutCmp_nonneg]
    omega
  have hlt' : timeoutCmp (s.node n).timeout ((treeInsert R s n).node e).timeout < 0 := by
    rw [treeInsert_timeout, timeoutCmp_neg]
    exact hlt
  simp only [insertNode, hempty, hprev, hnext, listEntry, hnotlast, hlt', if_false, if_true,
    Bool.false_eq_true]
  split
  · next hfirst =>
    -- The first of the tree was there before.
    refine ⟨hb', ?_, htimed⟩
    intro harmed _
    cases hf : (treeInsert R s n).treeFirst with
    | none =>
      have hnil := hb'.first_none hf
      have hnmem := (hmem n).mpr (.inr rfl)
      rw [hnil] at hnmem
      cases hnmem
    | some f =>
      have hfn : f ≠ n := fun h => hfirst (by rw [hf, h])
      have hfmem : f ∈ s.tree.inorder := by
        obtain h | h := (hmem f).mp (hb'.first_mem hf)
        · exact h
        · exact absurd h hfn
      apply armed_of_le (n := n) (e := f) harmed treeInsert_timerfd treeInsert_timeout
      · exact fun m => (htimed m).mp
      · exact .inr hfmem
      · have hle := hb'.first_le hf ((hmem n).mpr (.inr rfl))
        rw [treeInsert_timeout, treeInsert_timeout] at hle
        exact hle
  · next hfirst =>
    rw [not_not] at hfirst
    refine ⟨hb'.setTimerfd _, ?_, htimed⟩
    intro _ hpos
    apply armed_setTimerfd hpos
    intro m hm
    rw [treeInsert_timeout]
    obtain hm | hm := hm
    · obtain rfl := Option.some.inj hm
      exact Nat.le_of_lt hlt
    · have hle := hb'.first_le hfirst hm
      rw [treeInsert_timeout, treeInsert_timeout] at hle
      exact hle

/-- `__poller_insert_node` keeps the timer in time, on lists that are not appended to. -/
theorem insertNode_spec (hb : Boxes s x y) (hn : ¬ Boxed s x y n)
    (hfit : ∀ e, x = some e → (s.node n).timeout.ns < (s.node e).timeout.ns) : ∃ x',
    Boxes (insertNode R s n) x' y ∧
      (Armed s x → 0 < (s.node n).timeout.ns → Armed (insertNode R s n) x') ∧
      ∀ m, Timed (insertNode R s n) x' m ↔ Timed s x m ∨ m = n := by
  cases x with
  | none => exact ⟨some n, insertNode_empty hb hn⟩
  | some e => exact ⟨some e, insertNode_tree hb hn (hfit e rfl)⟩

/-! ## Placing -/

/-- What a call places fits where it goes: the list it is appended to is empty. -/
def Fits (s : State) (x y : Option NodeId) : Option Timespec → Prop
  | none => y = none
  | some t => ∀ e, x = some e → t.ns < (s.node e).timeout.ns

/-- The timeout of a node that is in no container is read by none. -/
theorem Boxes.setTimeout (hb : Boxes s x y) (hn : ¬ Boxed s x y n) (t : Timespec) :
    Boxes (s.setNode n fun k => { k with timeout := t }) x y := by
  refine hb.congr rfl rfl rfl rfl rfl rfl ?_ ?_
  · intro m hm
    have hne : m ≠ n := fun heq => hn (heq ▸ hm)
    rw [State.setNode_of_ne s _ hne]
  · intro m
    simp only [State.setNode, Function.update_apply]
    split
    · next hm => rw [hm]
    · rfl

theorem Boxes.setDeadline (hb : Boxes s x y) (t : Option Timespec) :
    Boxes (s.setDeadline n t) x y :=
  hb.congr rfl rfl rfl rfl rfl rfl (fun _ _ => rfl) fun _ => rfl

/-- The node that gets its result, and goes into the pipe. -/
theorem Boxes.takeOut (hb : Boxes s x y) (n : NodeId) (state : PrState) :
    Boxes (takeOut s n state) x y := by
  have hset : ∀ f : Node → Node, (∀ k, (f k).timeout = k.timeout ∧ (f k).inRbtree = k.inRbtree) →
      ∀ t : State, Boxes t x y → Boxes (t.setNode n f) x y := by
    intro f hf t ht
    refine ht.congr rfl rfl rfl rfl rfl rfl ?_ ?_
    · intro m _
      simp only [State.setNode, Function.update_apply]
      split
      · next hm => rw [hm, (hf _).1]
      · rfl
    · intro m
      simp only [State.setNode, Function.update_apply]
      split
      · next hm => rw [hm, (hf _).2]
      · rfl
  have hqueues : ∀ (t : State) (p c : List NodeId), Boxes t x y →
      Boxes { t with pipe := p, called := c } x y := fun t p c ht =>
    ht.congr rfl rfl rfl rfl rfl rfl (fun _ _ => rfl) fun _ => rfl
  have hstate := hset (fun k => { k with state := state }) (fun _ => ⟨rfl, rfl⟩) s hb
  unfold Table.takeOut
  simp only
  split
  · exact hqueues _ _ _ hstate
  · exact hqueues _ _ _ (hset (fun k => { k with removed := true }) (fun _ => ⟨rfl, rfl⟩) _ hstate)

/-- A node that is placed is in a container, where it fits, and the others stay. -/
theorem place_boxes {t : Option Timespec} (hb : Boxes s x y) (hn : ¬ Boxed s x y n)
    (hfits : Fits s x y t) : ∃ x' y', Boxes (place R s n t) x' y' ∧
      ∀ m, Boxed (place R s n t) x' y' m ↔ Boxed s x y m ∨ m = n := by
  cases t with
  | none =>
    obtain rfl : y = none := hfits
    refine ⟨x, some n, (addTail_noTimeo_boxes hb hn).setDeadline none, ?_⟩
    intro m
    show Timed s x m ∨ some n = some m ↔ (Timed s x m ∨ none = some m) ∨ m = n
    simp only [Option.some.injEq, reduceCtorEq, or_false, eq_comm (a := n)]
  | some t =>
    have hfit : ∀ e, x = some e →
        ((s.setNode n fun k => { k with timeout := t }).node n).timeout.ns <
          ((s.setNode n fun k => { k with timeout := t }).node e).timeout.ns := by
      intro e he
      have hne : e ≠ n := by
        rintro rfl
        exact hn (.inl (.inl he))
      rw [State.setNode_self, State.setNode_of_ne s _ hne]
      exact hfits e he
    obtain ⟨x', hb', -, htimed⟩ := insertNode_spec (R := R) (hb.setTimeout hn t) hn hfit
    refine ⟨x', y, hb'.setDeadline (some t), ?_⟩
    intro m
    show Timed (insertNode R _ n) x' m ∨ y = some m ↔ (Timed s x m ∨ y = some m) ∨ m = n
    rw [htimed]
    exact or_right_comm

end Operations

end WorkflowKernel.Poller.Table
