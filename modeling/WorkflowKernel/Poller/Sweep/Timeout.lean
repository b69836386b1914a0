import Mathlib.Data.List.Pairwise
import WorkflowKernel.Poller.Sweep.Model
import WorkflowKernel.Poller.Table.Timer

/-!
# The expired nodes are handed over

`__poller_handle_timeout` links an expired node into its own list before it reads the node's
successor, so the loop over `timeo_list` goes on in the list on the stack and takes its head for a
node. The last loop reads the successor behind the callback, where the message queue has stored
NULL. Either way the first expired node ends the call.

## What is proved

- `sweepList_undefined`, `callList_ne_done`: the two loops, at an expired node.
- `expires_iff`: from ordered containers, the call does what it is for if and only if no node of
  `timeo_list` and of the tree has expired.
- `oneTimer_undefined`: a single expired timer.
-/

namespace WorkflowKernel.Poller.Sweep

open WorkflowKernel.Communicator WorkflowKernel.Lib WorkflowKernel.ListHead
open WorkflowKernel.Poller.Table (NodeId Fd Timespec timeoutCmp timeoutCmp_nonpos Rebalance
  rebalanceSmall seconds)

/-- `timeo_list` holds `xs`, and both it and the tree are in ascending order. -/
structure Ordered (s : State) (xs : List NodeId) : Prop where
  list : Ring s.links .timeoList (xs.map .node)
  listSorted : xs.Pairwise fun a b => (s.node a).timeout.ns ≤ (s.node b).timeout.ns
  treeSorted : s.tree.inorder.Pairwise fun a b => (s.node a).timeout.ns ≤ (s.node b).timeout.ns
  first : s.treeFirst = s.tree.inorder.head?
  last : s.treeLast = s.tree.inorder.getLast?
  nodup : (xs ++ s.tree.inorder).Nodup

/-- The result that an expired node is to be handed over with. -/
def expiredResult (s : State) (n : NodeId) : NodeId × PrState × Errno :=
  if 0 ≤ (s.node n).fd then (n, .error, ETIMEDOUT) else (n, .finished, 0)

/-- What the call is for: it leaves `t`. -/
structure Expires (now : Timespec) (xs : List NodeId) (s t : State) : Prop where
  /-- The expired nodes are handed over, each once. -/
  called : ∃ ns : List NodeId, ns.Nodup ∧
    (∀ n, n ∈ ns ↔ n ∈ xs ++ s.tree.inorder ∧ due now (s.node n) = true) ∧
    t.called = s.called ++ ns.map (expiredResult s)
  nodes : ∀ fd, t.nodes fd =
    if ∃ n ∈ xs ++ s.tree.inorder, due now (s.node n) = true ∧ (s.node n).fd = fd ∧ 0 ≤ fd then none
    else s.nodes fd
  removed : ∀ n ∈ xs ++ s.tree.inorder, due now (s.node n) = true → (s.node n).fd < 0 →
    (t.node n).removed = true
  /-- The others stay where they are, in their order. -/
  list : Ring t.links .timeoList ((xs.filter fun n => !due now (s.node n)).map .node)
  tree : t.tree.inorder = s.tree.inorder.filter fun n => !due now (s.node n)
  first : t.treeFirst = t.tree.inorder.head?
  last : t.treeLast = t.tree.inorder.getLast?

variable {R : Rebalance} {s t : State} {l : Links Cell} {now : Timespec} {n : NodeId}
  {xs : List NodeId}

/-! ## The list on the stack -/

/-- The list on the stack leads to a node from either end. -/
def Leads (l : Links Cell) : Prop :=
  (∃ m, l.next .stack = .node m) ∧ ∃ m, l.prev .stack = .node m

theorem listInit_stack (l : Links Cell) : (listInit l .stack).next .stack = .stack ∧
    (listInit l .stack).prev .stack = .stack :=
  listInit_holds l .stack

/-- The first node added. -/
theorem addTail_first (hnext : l.next .stack = .stack) (hprev : l.prev .stack = .stack) :
    Leads (listAddTail l (l.prev .stack) (.node n)) ∧
      (listAddTail l (l.prev .stack) (.node n)).next (.node n) = .stack := by
  have hempty : listEmpty l .stack = true := by simpa [listEmpty] using hnext
  unfold listAddTail
  rw [hprev, if_pos hempty]
  simp only [Leads]
  refine ⟨⟨⟨n, ?_⟩, n, ?_⟩, Function.update_self ..⟩
  · rw [Function.update_of_ne (by simp), Function.update_self]
  · rw [Function.update_of_ne (by simp), Function.update_self]

/-- A later one: the two ends still lead to nodes. -/
theorem Leads.addTail (h : Leads l) : Leads (listAddTail l (l.prev .stack) (.node n)) := by
  obtain ⟨⟨m, hnext⟩, k, hprev⟩ := h
  unfold listAddTail
  rw [hprev]
  split
  · simp only [Leads]
    refine ⟨⟨m, ?_⟩, k, ?_⟩
    · rw [Function.update_of_ne (by simp), Function.update_of_ne (by simp), hnext]
    · rw [Function.update_of_ne (by simp), Function.update_of_ne (by simp), hprev]
  · simp only [Leads]
    refine ⟨?_, k, ?_⟩
    · -- `head->prev->next` may be the head of the list on the stack, and then leads to the new node
      by_cases hstack : Cell.stack =
          Function.update l.prev (.node n) (l.next (l.prev (.node k))) (.node k)
      · rw [← hstack, Function.update_self]
        exact ⟨n, rfl⟩
      · rw [Function.update_of_ne hstack, Function.update_of_ne (by simp)]
        exact ⟨m, hnext⟩
    · rw [Function.update_of_ne (by simp), hprev]

theorem removeNode_links (s : State) (n : NodeId) : (removeNode s n).links = s.links := by
  unfold removeNode
  simp only
  split <;> rfl

/-! ## The loops at an expired node -/

/-- The loop over `timeo_list` goes from an expired node to the list on the stack and takes its head
for a node. -/
theorem sweepList_undefined (hnext : s.links.next .stack = .stack)
    (hprev : s.links.prev .stack = .stack) (hdue : due now (s.node n) = true) (fuel : Nat) :
    sweepList now (fuel + 2) s (.node n) = .undefined .stack := by
  have hsucc := (addTail_first (n := n) hnext hprev).2
  rw [sweepList, if_neg (by simp)]
  simp only [hdue, if_true, removeNode_links, State.setLinks, hsucc]
  simp [sweepList]

/-- The last loop reads the successor of a node where the queue has its link. -/
theorem callList_ne_done (give : State → NodeId → State) :
    ∀ (fuel : Nat) (s t : State) (n : NodeId), callList give fuel s (.node n) ≠ .done t
  | 0, _, _, _ => by simp [callList]
  | fuel + 1, s, t, n => by
    rw [callList, if_neg (by simp)]
    simp only
    have hsucc : (callback (give s n) n).links.next (.node n) = .null ∨
        (callback (give s n) n).links.next (.node n) = .node n := by
      unfold callback putLinks
      cases (give s n).putTail with
      | none => exact .inl (Function.update_self ..)
      | some m =>
        by_cases hm : n = m
        · subst hm
          exact .inr (Function.update_self ..)
        · left
          simp only
          rw [Function.update_of_ne (by simpa using hm), Function.update_self]
    rcases hsucc with hsucc | hsucc
    · rw [hsucc]
      cases fuel with
      | zero => simp [callList]
      | succ fuel => simp [callList]
    · rw [hsucc]
      exact callList_ne_done give fuel _ t n

/-- Behind the loop over the tree the list on the stack still leads to a node. -/
theorem sweepTree_leads : ∀ (fuel : Nat) (s : State), Leads s.links →
    sweepTree R now fuel s = .done t → Leads t.links
  | 0, _, _, h => by simp [sweepTree] at h
  | fuel + 1, s, hleads, h => by
    rw [sweepTree] at h
    split at h
    · cases h
      exact hleads
    · next n hn =>
      split at h
      · apply sweepTree_leads fuel _ _ h
        show Leads (listAddTail (removeNode s n).links ((removeNode s n).links.prev .stack) (.node n))
        rw [removeNode_links]
        exact hleads.addTail
      · cases h
        exact hleads

/-- The first node of the tree has expired: the loop leaves it on the stack. -/
theorem sweepTree_first {fuel : Nat} (hnext : s.links.next .stack = .stack)
    (hprev : s.links.prev .stack = .stack) (hfirst : s.treeFirst = some n)
    (hdue : due now (s.node n) = true) (h : sweepTree R now fuel s = .done t) : Leads t.links := by
  cases fuel with
  | zero => simp [sweepTree] at h
  | succ fuel =>
    rw [sweepTree, hfirst] at h
    simp only [hdue, if_true] at h
    apply sweepTree_leads fuel _ _ h
    show Leads (listAddTail (removeNode s n).links ((removeNode s n).links.prev .stack) (.node n))
    rw [removeNode_links]
    exact (addTail_first hnext hprev).1

/-! ## No node has expired -/

/-- The loop over `timeo_list` stops at the first node. -/
theorem sweepList_done (hring : Ring s.links .timeoList (xs.map .node))
    (hnone : ∀ n ∈ xs, due now (s.node n) = false) (fuel : Nat) :
    sweepList now (fuel + 1) s (s.links.next .timeoList) = .done s := by
  cases xs with
  | nil =>
    have hnext : s.links.next .timeoList = .timeoList := hring.1
    simp [sweepList, hnext]
  | cons x xs =>
    have hnext : s.links.next .timeoList = .node x := hring.1.1
    rw [hnext]
    simp [sweepList, hnone x List.mem_cons_self]

/-- The loop over the tree stops at the first node. -/
theorem sweepTree_done (hfirst : s.treeFirst = s.tree.inorder.head?)
    (hnone : ∀ n ∈ s.tree.inorder, due now (s.node n) = false) (fuel : Nat) :
    sweepTree R now (fuel + 1) s = .done s := by
  rw [sweepTree]
  split
  · rfl
  · next n hn =>
    have hmem : n ∈ s.tree.inorder := List.mem_of_head? (hfirst.symm.trans hn)
    rw [hnone n hmem, if_neg Bool.false_ne_true]

theorem due_iff {k : Node} : due now k = true ↔ k.timeout.ns ≤ now.ns := by
  unfold due
  rw [decide_eq_true_iff, timeoutCmp_nonpos]

/-- In an ascending list the first node is due if any is. -/
theorem due_head {x : NodeId} {node : NodeId → Node}
    (hsorted : (x :: xs).Pairwise fun a b => (node a).timeout.ns ≤ (node b).timeout.ns)
    (hn : n ∈ x :: xs) (hdue : due now (node n) = true) : due now (node x) = true := by
  rcases List.mem_cons.mp hn with rfl | hn
  · exact hdue
  · have hle := (List.pairwise_cons.mp hsorted).1 n hn
    exact due_iff.mpr (Nat.le_trans hle (due_iff.mp hdue))

theorem setLinks_init_list (h : Ring s.links .timeoList (xs.map .node)) :
    Ring (listInit s.links .stack) .timeoList (xs.map .node) := by
  apply h.congr
  · exact listInit_other (by simp)
  · intro x hx
    obtain ⟨n, -, rfl⟩ := List.mem_map.mp hx
    exact listInit_other (by simp)

/-- The call goes through if nothing has expired. -/
theorem handleTimeout_done (h : Ordered s xs)
    (hnone : ∀ n ∈ xs ++ s.tree.inorder, due now (s.node n) = false) :
    handleTimeout R 1 s now = .done (s.setLinks (listInit s.links .stack)) := by
  have hring : Ring (s.setLinks (listInit s.links .stack)).links .timeoList (xs.map .node) :=
    setLinks_init_list h.list
  have hnone' : ∀ n ∈ xs ++ s.tree.inorder,
      due now ((s.setLinks (listInit s.links .stack)).node n) = false := hnone
  have hlist := sweepList_done hring (fun n hn => hnone' n (List.mem_append_left _ hn)) 0
  have htree : sweepTree R now 1 (s.setLinks (listInit s.links .stack)) =
      .done (s.setLinks (listInit s.links .stack)) := by
    apply sweepTree_done
    · exact h.first
    · exact fun n hn => hnone' n (List.mem_append_right _ hn)
  unfold handleTimeout
  simp only [hlist, Outcome.bind, htree]
  have hstack : (s.setLinks (listInit s.links .stack)).links.next .stack = .stack :=
    (listInit_stack s.links).1
  rw [hstack]
  simp [callList]

/-- The call does not go through if something has expired. -/
theorem handleTimeout_ne_done (h : Ordered s xs) (hn : n ∈ xs ++ s.tree.inorder)
    (hdue : due now (s.node n) = true) (fuel : Nat) : handleTimeout R fuel s now ≠ .done t := by
  obtain ⟨hnext, hprev⟩ := listInit_stack s.links
  have hring := setLinks_init_list h.list
  unfold handleTimeout
  simp only
  generalize hu : s.setLinks (listInit s.links .stack) = u
  have hlinks : u.links = listInit s.links .stack := by rw [← hu]; rfl
  have hnode : u.node = s.node := by rw [← hu]; rfl
  have htree : u.tree = s.tree := by rw [← hu]; rfl
  have hfirst : u.treeFirst = s.tree.inorder.head? := by rw [← hu]; exact h.first
  rw [← hlinks] at hnext hprev hring
  cases fuel with
  | zero => simp [sweepList, Outcome.bind]
  | succ fuel =>
    by_cases hlist : ∃ m ∈ xs, due now (s.node m) = true
    · obtain ⟨m, hm, hmdue⟩ := hlist
      cases xs with
      | nil => cases hm
      | cons x xs =>
        have hx : due now (u.node x) = true := by
          rw [hnode]
          exact due_head h.listSorted hm hmdue
        have hpos : u.links.next .timeoList = .node x := hring.1.1
        rw [hpos]
        cases fuel with
        | zero =>
          rw [sweepList, if_neg (by simp)]
          simp [hx, sweepList, Outcome.bind]
        | succ fuel =>
          rw [sweepList_undefined hnext hprev hx]
          simp [Outcome.bind]
    · have hnone : ∀ m ∈ xs, due now (u.node m) = false := by
        intro m hm
        rw [hnode]
        exact Bool.eq_false_iff.mpr fun hmdue => hlist ⟨m, hm, hmdue⟩
      have hmem : n ∈ s.tree.inorder := by
        rcases List.mem_append.mp hn with hn | hn
        · exact absurd ⟨n, hn, hdue⟩ hlist
        · exact hn
      rw [sweepList_done hring hnone]
      show (sweepTree R now (fuel + 1) u).bind _ ≠ .done t
      cases hsweep : sweepTree R now (fuel + 1) u with
      | running => simp [Outcome.bind]
      | undefined c => simp [Outcome.bind]
      | done v =>
        cases hinorder : s.tree.inorder with
        | nil =>
          rw [hinorder] at hmem
          cases hmem
        | cons x l =>
          rw [hinorder] at hmem hfirst
          have hx : due now (u.node x) = true := by
            rw [hnode]
            exact due_head (hinorder ▸ h.treeSorted) hmem hdue
          obtain ⟨⟨m, hm⟩, -⟩ := sweepTree_first hnext hprev hfirst hx hsweep
          show callList expire (fuel + 1) v (v.links.next .stack) ≠ .done t
          rw [hm]
          exact callList_ne_done expire (fuel + 1) v t m

/-- From ordered containers `__poller_handle_timeout` does what it is for if and only if no node of
`timeo_list` and of the tree has expired. -/
theorem expires_iff (R : Rebalance) (now : Timespec) (h : Ordered s xs) :
    (∃ fuel t, handleTimeout R fuel s now = .done t ∧ Expires now xs s t) ↔
      ∀ n ∈ xs ++ s.tree.inorder, now.ns < (s.node n).timeout.ns := by
  constructor
  · rintro ⟨fuel, t, hdone, -⟩ n hn
    by_contra hle
    exact handleTimeout_ne_done h hn (due_iff.mpr (Nat.not_lt.mp hle)) fuel hdone
  · intro hlate
    have hnone : ∀ n ∈ xs ++ s.tree.inorder, due now (s.node n) = false := by
      intro n hn
      exact Bool.eq_false_iff.mpr fun hdue => Nat.not_lt.mpr (due_iff.mp hdue) (hlate n hn)
    refine ⟨1, _, handleTimeout_done h hnone, ?_⟩
    have hkeep : ∀ ns : List NodeId, (∀ n ∈ ns, n ∈ xs ++ s.tree.inorder) →
        (ns.filter fun n => !due now (s.node n)) = ns := by
      intro ns hns
      apply List.filter_eq_self.mpr
      intro n hn
      rw [hnone n (hns n hn)]
      rfl
    refine ⟨⟨[], List.nodup_nil, ?_, (List.append_nil _).symm⟩, ?_, ?_, ?_, ?_, h.first, h.last⟩
    · intro n
      refine ⟨nofun, fun hn => ?_⟩
      rw [hnone n hn.1] at hn
      cases hn.2
    · intro fd
      rw [if_neg]
      · rfl
      · rintro ⟨n, hn, hdue, -⟩
        rw [hnone n hn] at hdue
        cases hdue
    · intro n hn hdue
      rw [hnone n hn] at hdue
      cases hdue
    · rw [hkeep xs fun n hn => List.mem_append_left _ hn]
      exact setLinks_init_list h.list
    · exact (hkeep s.tree.inorder fun n hn => List.mem_append_right _ hn).symm

/-! ## One timer -/

/-- `timeo_list` and node 0 point to each other. -/
def linkOne (c : Cell) : Cell :=
  if c = .timeoList then .node 0 else if c = .node 0 then .timeoList else c

/-- A poller with one timer, in `timeo_list`. -/
def oneTimer (timeout : Timespec) : State where
  node _ := { fd := -1, state := .success, error := 0, removed := false, timeout := timeout }
  nodes _ := none
  epoll _ := false
  links := { next := linkOne, prev := linkOne }
  tree := .nil
  treeFirst := none
  treeLast := none
  stopped := false
  pipe := []
  putTail := none
  called := []

theorem oneTimer_ordered (timeout : Timespec) : Ordered (oneTimer timeout) [0] where
  list := ⟨⟨rfl, rfl⟩, rfl, rfl⟩
  listSorted := List.pairwise_singleton ..
  treeSorted := List.Pairwise.nil
  first := rfl
  last := rfl
  nodup := List.nodup_singleton 0

/-- Besides it, a node with descriptor 5 in the tree. -/
def timerAndNode : State :=
  { oneTimer (seconds 2) with
    node := fun n =>
      { fd := if n = 1 then 5 else -1
        state := .success
        error := 0
        removed := false
        timeout := if n = 1 then seconds 3 else seconds 2 }
    nodes := fun fd => if fd = 5 then some 1 else none
    epoll := fun fd => fd = 5
    tree := .node .black .nil 1 .nil
    treeFirst := some 1
    treeLast := some 1 }

theorem timerAndNode_ordered : Ordered timerAndNode [0] where
  list := ⟨⟨rfl, rfl⟩, rfl, rfl⟩
  listSorted := List.pairwise_singleton ..
  treeSorted := List.pairwise_singleton ..
  first := rfl
  last := rfl
  nodup := by decide

/-- Before either is due. -/
theorem timerAndNode_early : ∃ fuel t, handleTimeout rebalanceSmall fuel timerAndNode (seconds 1) =
    .done t ∧ Expires (seconds 1) [0] timerAndNode t :=
  (expires_iff rebalanceSmall (seconds 1) timerAndNode_ordered).mpr (by decide)

/-- When it is due, the loop takes the head of the list on the stack for a node. -/
theorem oneTimer_undefined : Ordered (oneTimer (seconds 1)) [0] ∧
    handleTimeout rebalanceSmall 2 (oneTimer (seconds 1)) (seconds 2) = .undefined .stack ∧
    ¬ ∃ fuel t, handleTimeout rebalanceSmall fuel (oneTimer (seconds 1)) (seconds 2) = .done t ∧
      Expires (seconds 2) [0] (oneTimer (seconds 1)) t := by
  refine ⟨oneTimer_ordered _, rfl, ?_⟩
  rintro ⟨fuel, t, hdone, -⟩
  have hdue : due (seconds 2) ((oneTimer (seconds 1)).node 0) = true := by decide
  exact handleTimeout_ne_done (oneTimer_ordered _) List.mem_cons_self hdue fuel hdone

end WorkflowKernel.Poller.Sweep
