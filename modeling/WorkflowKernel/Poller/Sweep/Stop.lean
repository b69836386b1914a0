import WorkflowKernel.Poller.Sweep.Timeout

/-!
# A stopped poller hands over nothing

`poller_stop` splices `timeo_list` and `no_timeo_list` into its own list with `list_add_list`, which
links the head of the other list and does not make the list's own `prev` point to its last entry. So
the walk over the list on the stack comes from there, or from the one node of the tree that is linked
first, to the head of `no_timeo_list` and takes it for a node, whatever the poller holds.

## What is proved

- `pollerStop_undefined`: the call ends there, for every poller.
- `not_stops`: it never does what it is for.
- `noNode_undefined`: a poller that holds nothing.
-/

namespace WorkflowKernel.Poller.Sweep

open WorkflowKernel.Communicator WorkflowKernel.Lib WorkflowKernel.ListHead
open WorkflowKernel.Poller.Table (NodeId Fd Rebalance rebalanceSmall seconds)

/-- What `poller_stop` is for: it leaves `t`. The lists hold `xs` and `ys`. -/
structure Stops (xs ys : List NodeId) (s t : State) : Prop where
  /-- Every node is handed over once: the registered ones as stopped, those from the pipe as they
  are. -/
  called : ∃ ns : List (NodeId × PrState × Errno), t.called = s.called ++ ns ∧
    ns.Perm ((xs ++ ys ++ s.tree.inorder).map (fun n => (n, .stopped, 0)) ++
      s.pipe.reduceOption.map fun n => (n, (s.node n).state, (s.node n).error))
  nodes : ∀ n ∈ xs ++ ys ++ s.tree.inorder, 0 ≤ (s.node n).fd →
    t.nodes (s.node n).fd = none ∧ t.epoll (s.node n).fd = false
  removed : ∀ n ∈ xs ++ ys ++ s.tree.inorder, (s.node n).fd < 0 → (t.node n).removed = true
  timeoList : Ring t.links .timeoList []
  noTimeoList : Ring t.links .noTimeoList []
  tree : t.tree = .nil

variable {R : Rebalance} {s t : State} {l : Links Cell} {n : NodeId}

/-! ## The list on the stack -/

/-- The list on the stack is empty, or has one node behind its head at both ends. -/
def Anchored (l : Links Cell) : Prop :=
  l.next .stack = l.prev .stack ∧ (l.next .stack = .stack ∨ ∃ m, l.next .stack = .node m)

theorem listInit_anchored (l : Links Cell) : Anchored (listInit l .stack) := by
  obtain ⟨hnext, hprev⟩ := listInit_stack l
  exact ⟨hnext.trans hprev.symm, .inl hnext⟩

/-- `callback` writes to nodes only. -/
theorem callback_anchored (h : Anchored s.links) (n : NodeId) : Anchored (callback s n).links := by
  have hnext : (callback s n).links.next .stack = s.links.next .stack := by
    show putLinks s.links.next s.putTail n .stack = s.links.next .stack
    unfold putLinks
    cases s.putTail with
    | none => simp
    | some m => simp
  obtain ⟨heq, hends⟩ := h
  rw [← hnext] at heq hends
  exact ⟨heq, hends⟩

theorem addTail_anchored (h : Anchored l) (n : NodeId) :
    Anchored (listAddTail l .stack (.node n)) := by
  obtain ⟨heq, hends⟩ := h
  unfold listAddTail
  split
  · have hnext : Function.update (Function.update l.next .stack (.node n)) (.node n) .stack .stack =
        Cell.node n := by
      rw [Function.update_of_ne (by simp), Function.update_self]
    have hprev : Function.update (Function.update l.prev .stack (.node n)) (.node n) .stack .stack =
        Cell.node n := by
      rw [Function.update_of_ne (by simp), Function.update_self]
    exact ⟨hnext.trans hprev.symm, .inr ⟨n, hnext⟩⟩
  · next hempty =>
    -- the list has a first node `m`, which `head->prev` stays at
    have hm : ∃ m, l.next .stack = .node m := by
      rcases hends with hends | hm
      · exact absurd (by simpa [listEmpty] using hends) hempty
      · exact hm
    obtain ⟨m, hm⟩ := hm
    have hprev : Function.update l.prev (.node n) (l.next (l.prev .stack)) .stack = .node m := by
      rw [Function.update_of_ne (by simp), ← heq, hm]
    have hnext : Function.update (Function.update l.next (.node n) .stack) (.node m) (.node n)
        .stack = .node m := by
      rw [Function.update_of_ne (by simp), Function.update_of_ne (by simp), hm]
    simp only [Anchored, hprev, hnext, true_and]
    exact .inr ⟨m, rfl⟩

/-! ## Up to the splice -/

theorem handleMessages_anchored (ms : List (Option NodeId)) :
    ∀ s : State, Anchored s.links → Anchored (handleMessages s ms).1.links := by
  induction ms with
  | nil => exact fun _ h => h
  | cons m ms ih =>
    intro s h
    cases m with
    | none => exact ih s h
    | some n => exact ih _ (callback_anchored h n)

theorem handlePipe_anchored (h : Anchored s.links) : Anchored (handlePipe s).1.links :=
  handleMessages_anchored _ _ h

theorem pollerThread_anchored (fuel : Nat) :
    ∀ s : State, Anchored s.links → pollerThread fuel s = .done t → Anchored t.links := by
  induction fuel with
  | zero => simp [pollerThread]
  | succ fuel ih =>
    intro s h hdone
    unfold pollerThread at hdone
    simp only at hdone
    split at hdone
    · cases hdone
      exact handlePipe_anchored h
    · exact ih _ (handlePipe_anchored h) hdone

theorem stopTree_anchored (fuel : Nat) :
    ∀ s : State, Anchored s.links → stopTree R fuel s = .done t → Anchored t.links := by
  induction fuel with
  | zero => simp [stopTree]
  | succ fuel ih =>
    intro s h hdone
    unfold stopTree at hdone
    split at hdone
    · cases hdone
      exact h
    · next n _ _ => exact ih _ (addTail_anchored h n) hdone

/-- The messages up to NULL are read. -/
theorem handleMessages_snd (ms : List (Option NodeId)) :
    ∀ s : State, (handleMessages s ms).2 = true ↔ none ∈ ms := by
  induction ms with
  | nil => simp [handleMessages]
  | cons m ms ih =>
    intro s
    cases m with
    | none => simp [handleMessages]
    | some n => simpa [handleMessages] using ih _

theorem handleMessages_keeps (ms : List (Option NodeId)) :
    ∀ s : State, (handleMessages s ms).1.pipe = s.pipe ∧ (handleMessages s ms).1.tree = s.tree := by
  induction ms with
  | nil => exact fun _ => ⟨rfl, rfl⟩
  | cons m ms ih =>
    intro s
    cases m with
    | none => exact ih s
    | some n => exact ih _

theorem handlePipe_keeps (s : State) :
    (handlePipe s).1.pipe = s.pipe.drop pipeRead ∧ (handlePipe s).1.tree = s.tree :=
  handleMessages_keeps _ _

/-- The poller thread comes to a NULL that is in the pipe. -/
theorem pollerThread_done (fuel : Nat) : ∀ s : State, none ∈ s.pipe → s.pipe.length ≤ fuel →
    ∃ t, pollerThread fuel s = .done t ∧ t.tree = s.tree := by
  induction fuel with
  | zero =>
    intro s hnull hlength
    rw [List.length_eq_zero_iff.mp (Nat.le_zero.mp hlength)] at hnull
    cases hnull
  | succ fuel ih =>
    intro s hnull hlength
    obtain ⟨hpipe, htree⟩ := handlePipe_keeps s
    unfold pollerThread
    simp only
    split
    · exact ⟨_, rfl, htree⟩
    · next hstop =>
      -- NULL is not in the part that was read
      have htake : none ∉ s.pipe.take pipeRead := fun hmem =>
        hstop ((handleMessages_snd _ _).mpr hmem)
      have hdrop : none ∈ s.pipe.drop pipeRead := by
        rw [← List.take_append_drop pipeRead s.pipe] at hnull
        exact (List.mem_append.mp hnull).resolve_left htake
      have hshort : (s.pipe.drop pipeRead).length ≤ fuel := by
        rw [List.length_drop]
        unfold pipeRead
        omega
      rw [← hpipe] at hdrop hshort
      obtain ⟨t, hdone, hkeep⟩ := ih _ hdrop hshort
      exact ⟨t, hdone, hkeep.trans htree⟩

/-- Every turn takes a node out of the tree. -/
theorem stopTree_done (fuel : Nat) :
    ∀ s : State, s.tree.inorder.length < fuel → ∃ t, stopTree R fuel s = .done t := by
  induction fuel with
  | zero => simp
  | succ fuel ih =>
    intro s hlength
    unfold stopTree
    split
    · exact ⟨_, rfl⟩
    · next c left n right htree =>
      apply ih
      show (R.erase n s.tree).inorder.length < fuel
      have hmem : n ∈ s.tree.inorder := by
        rw [htree]
        exact List.mem_append_right _ List.mem_cons_self
      rw [R.inorder_erase, List.length_erase_of_mem hmem]
      have hpos := List.length_pos_of_mem hmem
      omega

/-! ## The walk behind the splice -/

/-- The two heads are linked behind the same entry. -/
theorem spliceLists_next (s : State) : (spliceLists s).links.next =
    Function.update (Function.update (Function.update (Function.update s.links.next
      (s.links.prev .stack) .timeoList) .timeoList .stack)
        (s.links.prev .stack) .noTimeoList) .noTimeoList .stack := by
  have hprev : (listAddList s.links .stack .timeoList).prev .stack = s.links.prev .stack := by
    unfold listAddList
    simp only
    rw [Function.update_of_ne (by simp)]
  unfold spliceLists State.setLinks
  simp only
  rw [listAddList, hprev]
  rfl

/-- The list on the stack leads to the head of `no_timeo_list`, at once or behind one node. -/
theorem spliceLists_stack (h : Anchored s.links) :
    (spliceLists s).links.next .stack = .noTimeoList ∨
      ∃ m, (spliceLists s).links.next .stack = .node m ∧
        (spliceLists s).links.next (.node m) = .noTimeoList := by
  obtain ⟨heq, hends⟩ := h
  rw [spliceLists_next, ← heq]
  rcases hends with hnext | ⟨m, hnext⟩
  · left
    rw [hnext, Function.update_of_ne (by simp), Function.update_self]
  · right
    refine ⟨m, ?_, ?_⟩
    · rw [hnext, Function.update_of_ne (by simp), Function.update_of_ne (by simp),
        Function.update_of_ne (by simp), Function.update_of_ne (by simp), hnext]
    · rw [hnext, Function.update_of_ne (by simp), Function.update_self]

/-- The walk ends at the head of `no_timeo_list`. -/
theorem removeList_spliceLists (h : Anchored s.links) (fuel : Nat) :
    removeList fuel (spliceLists s) ((spliceLists s).links.next .stack) = .running ∧ fuel < 2 ∨
      removeList fuel (spliceLists s) ((spliceLists s).links.next .stack) =
        .undefined .noTimeoList := by
  cases fuel with
  | zero => exact .inl ⟨rfl, Nat.zero_lt_two⟩
  | succ fuel =>
    rcases spliceLists_stack h with hnext | ⟨m, hnext, hm⟩
    · right
      rw [hnext]
      simp [removeList]
    · rw [hnext, removeList, if_neg (by simp)]
      simp only [removeNode_links, hm]
      cases fuel with
      | zero => exact .inl ⟨rfl, Nat.one_lt_two⟩
      | succ fuel =>
        right
        simp [removeList]

/-- The state in which the mutex is taken and the pipe emptied. -/
def closed (s : State) : State :=
  { (handlePipe { s with stopped := true }).1 with treeFirst := none, treeLast := none }

theorem closed_anchored (h : Anchored s.links) : Anchored (closed s).links :=
  handlePipe_anchored (s := { s with stopped := true }) h

/-- The section on the mutex does not come to an end either way. -/
theorem stopNodes_ne_done (fuel : Nat) (h : Anchored s.links) : stopNodes R fuel s ≠ .done t := by
  show (stopTree R fuel (closed s)).bind _ ≠ _
  cases htree : stopTree R fuel (closed s) with
  | running => simp [Outcome.bind]
  | undefined c => simp [Outcome.bind]
  | done u =>
    have hu : Anchored u.links := stopTree_anchored fuel _ (closed_anchored h) htree
    simp only [Outcome.bind]
    rcases removeList_spliceLists hu fuel with ⟨hrun, -⟩ | hrun
    · simp [hrun]
    · simp [hrun]

theorem stopNodes_undefined {fuel : Nat} (h : Anchored s.links)
    (hfuel : s.tree.inorder.length + 2 ≤ fuel) :
    stopNodes R fuel s = .undefined .noTimeoList := by
  have hkeep : (closed s).tree = s.tree := (handlePipe_keeps { s with stopped := true }).2
  have hlength : (closed s).tree.inorder.length < fuel := by
    rw [hkeep]
    omega
  obtain ⟨u, htree⟩ := stopTree_done (R := R) fuel (closed s) hlength
  have hu : Anchored u.links := stopTree_anchored fuel _ (closed_anchored h) htree
  show (stopTree R fuel (closed s)).bind _ = _
  rw [htree]
  simp only [Outcome.bind]
  rcases removeList_spliceLists hu fuel with ⟨-, hless⟩ | hrun
  · omega
  · simp [hrun]

/-- `poller_stop` does not come to its end. -/
theorem pollerStop_ne_done (fuel : Nat) (s : State) : pollerStop R fuel s ≠ .done t := by
  unfold pollerStop
  simp only
  cases hthread : pollerThread fuel { s with
      links := listInit s.links .stack, pipe := s.pipe ++ [none] } with
  | running => simp [Outcome.bind]
  | undefined c => simp [Outcome.bind]
  | done u =>
    exact stopNodes_ne_done fuel (pollerThread_anchored fuel _ (listInit_anchored s.links) hthread)

/-- It takes the head of `no_timeo_list` for a node, whatever the poller holds. -/
theorem pollerStop_undefined (R : Rebalance) (s : State) :
    ∃ fuel, pollerStop R fuel s = .undefined .noTimeoList := by
  refine ⟨s.pipe.length + s.tree.inorder.length + 2, ?_⟩
  obtain ⟨u, hdone, htree⟩ := pollerThread_done (s.pipe.length + s.tree.inorder.length + 2)
    { s with links := listInit s.links .stack, pipe := s.pipe ++ [none] }
    (List.mem_append_right _ List.mem_cons_self) (by simp; omega)
  have hu : Anchored u.links := pollerThread_anchored _ _ (listInit_anchored s.links) hdone
  unfold pollerStop
  simp only [hdone, Outcome.bind]
  apply stopNodes_undefined hu
  rw [htree]
  simp only
  omega

/-- `poller_stop` does what it is for in no state. -/
theorem not_stops (R : Rebalance) (s : State) (xs ys : List NodeId) :
    ¬ ∃ fuel t, pollerStop R fuel s = .done t ∧ Stops xs ys s t := by
  rintro ⟨fuel, t, hdone, -⟩
  exact pollerStop_ne_done fuel s hdone

/-! ## A poller that holds nothing -/

/-- A poller right behind its start. -/
def started : State where
  node _ := { fd := -1, state := .success, error := 0, removed := false, timeout := seconds 0 }
  nodes _ := none
  epoll _ := false
  links := { next := id, prev := id }
  tree := .nil
  treeFirst := none
  treeLast := none
  stopped := false
  pipe := []
  putTail := none
  called := []

/-- Even this one is not stopped. -/
theorem noNode_undefined : Ring started.links .timeoList [] ∧ Ring started.links .noTimeoList [] ∧
    pollerStop rebalanceSmall 2 started = .undefined .noTimeoList ∧
    ¬ ∃ fuel t, pollerStop rebalanceSmall fuel started = .done t ∧ Stops [] [] started t := by
  refine ⟨⟨rfl, rfl⟩, ⟨rfl, rfl⟩, rfl, ?_⟩
  rintro ⟨fuel, t, hdone, -⟩
  exact pollerStop_ne_done fuel started hdone

end WorkflowKernel.Poller.Sweep
