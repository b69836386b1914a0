import WorkflowKernel.Poller.Table.Timer

/-!
# The table and the epoll set

Which calls of a running poller keep `nodes` and the epoll set together, and what a failed one
leaves. The operations on the containers write no field that this is about (`Kept`), so it stands or
falls with their being defined: `poller_add` calls `list_add_tail` between `epoll_ctl` and the write
of `nodes[fd]`, and a stale `no_timeo_list->prev` may by then be a node of the tree.

## What is proved

- `Agree.call`: every call keeps the two together, writes what it takes out to the pipe once, and
  changes nothing when it returns -1.
- `Housed.call`: a call that appends to empty lists keeps every registered node in a container, and
  goes through no node that has no `list`.
- `registered_of_appendsToEmpty`: both, in every run of such calls.
- `append_reaches_tree_node`: five calls, the last of which takes a node of the tree for one of the
  list.
-/

namespace WorkflowKernel.Poller.Table

open WorkflowKernel.Transition
open WorkflowKernel.Communicator

/-- `__poller_remove_node`, and the `removed` that it returns. -/
def pollerRemoveNode (R : Rebalance) (s : State) (n : NodeId) : Bool × State :=
  if (s.node n).removed then (true, s)
  else
    let fd := (s.node n).data.fd
    (false, (unlink R (s.setEntry fd none) n).setEpoll fd none)

inductive Call
  | add (data : Data) (timeout : Int) (now : Timespec) (ctl : Option Errno)
  | mod (data : Data) (timeout : Int) (now : Timespec) (ctl : Option Errno)
  | setTimeout (fd : Fd) (timeout : Int) (now : Timespec)
  | del (fd : Fd)
  | removeNode (n : NodeId)
  deriving DecidableEq, Repr

def Call.run (R : Rebalance) (s : State) : Call → Except Errno Unit × State
  | .add data timeout now ctl => pollerAdd R s data timeout now ctl
  | .mod data timeout now ctl => pollerMod R s data timeout now ctl
  | .setTimeout fd timeout now => pollerSetTimeout R s fd timeout now
  | .del fd => pollerDel R s fd
  | .removeNode n => (.ok (), (pollerRemoveNode R s n).2)

/-- The node that a call takes out of the table for the pipe. -/
def Call.takesOut (R : Rebalance) (s : State) (c : Call) : List NodeId :=
  if (c.run R s).1.isOk then
    match c with
    | .mod data _ _ _ => (s.nodes data.fd).toList
    | .del fd => (s.nodes fd).toList
    | _ => []
  else []

/-- `__poller_remove_node` is called on a registered node, or on one that waits in the pipe. -/
def Call.enabled (s : State) : Call → Bool
  | .removeNode n => s.nodes (s.node n).data.fd = some n ∨ n ∈ s.pipe
  | _ => true

/-- A poller and the nodes that calls took out. -/
structure Run where
  poller : State
  takenOut : List NodeId

def callStep (R : Rebalance) (r : Run) (c : Call) : Option Run :=
  if c.enabled r.poller then
    some { poller := (c.run R r.poller).2, takenOut := r.takenOut ++ c.takesOut R r.poller }
  else none

/-- A running poller. -/
def calls (R : Rebalance) : System Run Call where
  Init r := ∃ maxOpenFiles clock,
    r = { poller := State.created maxOpenFiles false clock, takenOut := [] }
  step := callStep R

/-! ## What the containers' operations keep -/

structure Kept (s s' : State) : Prop where
  data : ∀ m, (s'.node m).data = (s.node m).data
  event : ∀ m, (s'.node m).event = (s.node m).event
  removed : ∀ m, (s'.node m).removed = (s.node m).removed
  nodes : s'.nodes = s.nodes
  epoll : s'.epoll = s.epoll
  pipe : s'.pipe = s.pipe
  allocated : s'.allocated = s.allocated
  stopped : s'.stopped = s.stopped

theorem Kept.trans {s t u : State} (h : Kept s t) (h' : Kept t u) : Kept s u where
  data m := (h'.data m).trans (h.data m)
  event m := (h'.event m).trans (h.event m)
  removed m := (h'.removed m).trans (h.removed m)
  nodes := h'.nodes.trans h.nodes
  epoll := h'.epoll.trans h.epoll
  pipe := h'.pipe.trans h.pipe
  allocated := h'.allocated.trans h.allocated
  stopped := h'.stopped.trans h.stopped

section Operations

variable {R : Rebalance} {s s' : State} {n : NodeId}

/-- A step that writes other fields of one node. -/
theorem Kept.of_node {k : Node} (hk : k.data = (s.node n).data ∧ k.event = (s.node n).event ∧
      k.removed = (s.node n).removed)
    (hnode : s'.node = Function.update s.node n k) (hnodes : s'.nodes = s.nodes)
    (hepoll : s'.epoll = s.epoll) (hpipe : s'.pipe = s.pipe)
    (hallocated : s'.allocated = s.allocated) (hstopped : s'.stopped = s.stopped) : Kept s s' := by
  constructor
  case nodes => exact hnodes
  case epoll => exact hepoll
  case pipe => exact hpipe
  case allocated => exact hallocated
  case stopped => exact hstopped
  all_goals
    intro m
    rw [hnode, Function.update_apply]
    split
    · next h =>
      rw [h]
      first | exact hk.1 | exact hk.2.1 | exact hk.2.2
    · rfl

theorem Kept.unlink (n : NodeId) : Kept s (unlink R s n) := by
  refine Kept.of_node (k := { s.node n with inRbtree := false }) ⟨rfl, rfl, rfl⟩ unlink_node
    ?_ ?_ ?_ ?_ ?_
  all_goals
    unfold Table.unlink
    split
    · rfl
    · rfl

theorem Kept.treeInsert : Kept s (treeInsert R s n) := by
  refine Kept.of_node (k := { s.node n with inRbtree := true }) ⟨rfl, rfl, rfl⟩ treeInsert_node
    ?_ ?_ ?_ ?_ ?_
  all_goals
    simp only [Table.treeInsert, treeLink, State.setNode]
    split
    · rfl
    · split
      · rfl
      · rfl

theorem Kept.addTail (head : Cell) : Kept s (addTail s head n) :=
  ⟨fun _ => rfl, fun _ => rfl, fun _ => rfl, rfl, rfl, rfl, rfl, rfl⟩

theorem Kept.setTimerfd (abstime : Timespec) : Kept s (setTimerfd s abstime) :=
  ⟨fun _ => rfl, fun _ => rfl, fun _ => rfl, rfl, rfl, rfl, rfl, rfl⟩

theorem Kept.setDeadline (t : Option Timespec) : Kept s (s.setDeadline n t) :=
  ⟨fun _ => rfl, fun _ => rfl, fun _ => rfl, rfl, rfl, rfl, rfl, rfl⟩

theorem Kept.insertNode (n : NodeId) : Kept s (insertNode R s n) := by
  unfold Table.insertNode
  simp only
  split
  · split
    · exact (Kept.addTail _).trans (Kept.setTimerfd _)
    · split
      · exact (Kept.addTail _).trans (Kept.setTimerfd _)
      · exact Kept.addTail _
  · split
    · exact Kept.addTail _
    · split
      · exact Kept.treeInsert
      · split
        · exact Kept.treeInsert.trans (Kept.setTimerfd _)
        · exact Kept.treeInsert

theorem Kept.place (n : NodeId) (t : Option Timespec) : Kept s (place R s n t) := by
  cases t with
  | none => exact (Kept.addTail _).trans (Kept.setDeadline _)
  | some t =>
    have htimeout : Kept s (s.setNode n fun k => { k with timeout := t }) :=
      Kept.of_node (k := { s.node n with timeout := t }) ⟨rfl, rfl, rfl⟩ rfl rfl rfl rfl rfl rfl
    exact (htimeout.trans (Kept.insertNode n)).trans (Kept.setDeadline _)

end Operations

section Edits

variable {s s' : State}

theorem Kept.setEntry (h : Kept s s') (fd : Fd) (n : Option NodeId) :
    Kept (s.setEntry fd n) (s'.setEntry fd n) :=
  { h with
    nodes := by
      show Function.update s'.nodes fd n = Function.update s.nodes fd n
      rw [h.nodes] }

theorem Kept.setEpoll (h : Kept s s') (fd : Fd) (data : Option (NodeId × Event)) :
    Kept (s.setEpoll fd data) (s'.setEpoll fd data) :=
  { h with
    epoll := by
      show Function.update s'.epoll fd data = Function.update s.epoll fd data
      rw [h.epoll] }

/-- `takeOut` without the order of its writes. -/
theorem takeOut_eq (hrun : s.stopped = false) (n : NodeId) (state : PrState) :
    takeOut s n state = { s.setNode n fun k => { k with state := state, removed := true } with
      pipe := s.pipe ++ [n] } := by
  simp [takeOut, hrun, State.setNode]

theorem takeOut_setEntry (fd : Fd) (m : Option NodeId) (n : NodeId) (state : PrState) :
    takeOut (s.setEntry fd m) n state = (takeOut s n state).setEntry fd m := by
  unfold takeOut
  cases hstopped : s.stopped with
  | true => simp [State.setNode, State.setEntry, hstopped]
  | false => simp [State.setNode, State.setEntry, hstopped]

theorem Kept.takeOut (h : Kept s s') (hrun : s.stopped = false) (n : NodeId) (state : PrState) :
    Kept (takeOut s n state) (takeOut s' n state) := by
  rw [takeOut_eq hrun, takeOut_eq (h.stopped.trans hrun)]
  have hnode : ∀ m, m ≠ n → ∀ s : State,
      (s.setNode n fun k => { k with state := state, removed := true }).node m = s.node m :=
    fun m hm s => State.setNode_of_ne s _ hm
  constructor
  case nodes => exact h.nodes
  case epoll => exact h.epoll
  case pipe => exact congrArg (· ++ [n]) h.pipe
  case allocated => exact h.allocated
  case stopped => exact h.stopped
  all_goals
    intro m
    by_cases heq : m = n
    · subst heq
      simp only [State.setNode_self, h.data, h.event]
    · simp only [hnode m heq, h.data, h.event, h.removed]

end Edits

/-! ## The table and the epoll set -/

structure Agree (s : State) (takenOut : List NodeId) : Prop where
  epoll : ∀ fd, s.epoll fd = (s.nodes fd).map fun n => (n, (s.node n).event)
  entry : ∀ fd n, s.nodes fd = some n →
    n < s.allocated ∧ (s.node n).data.fd = fd ∧ (s.node n).removed = false
  taken : ∀ n ∈ takenOut, n < s.allocated ∧ (s.node n).removed = true
  nodup : takenOut.Nodup
  pipe : s.pipe = takenOut
  running : s.stopped = false

/-- What a call that returns -1 leaves as it was. -/
structure Unchanged (s s' : State) : Prop where
  nodes : s'.nodes = s.nodes
  epoll : s'.epoll = s.epoll
  links : s'.links = s.links
  holdsList : s'.holdsList = s.holdsList
  undefined : s'.undefined = s.undefined
  tree : s'.tree = s.tree
  treeFirst : s'.treeFirst = s.treeFirst
  treeLast : s'.treeLast = s.treeLast
  timerfd : s'.timerfd = s.timerfd
  pipe : s'.pipe = s.pipe

section Agreement

variable {R : Rebalance} {s s' : State} {takenOut : List NodeId} {n orig : NodeId} {fd : Fd}

theorem Agree.kept (h : Agree s takenOut) (hkept : Kept s s') : Agree s' takenOut where
  epoll fd := by
    rw [hkept.epoll, hkept.nodes, h.epoll]
    simp only [hkept.event]
  entry fd n hn := by
    rw [hkept.allocated, hkept.data, hkept.removed]
    rw [hkept.nodes] at hn
    exact h.entry fd n hn
  taken n hn := by
    rw [hkept.allocated, hkept.removed]
    exact h.taken n hn
  nodup := h.nodup
  pipe := hkept.pipe.trans h.pipe
  running := hkept.stopped.trans h.running

/-- A node that no call has seen. -/
theorem Agree.alloc (h : Agree s takenOut) (k : Node) : Agree (s.alloc k) takenOut := by
  have hold : ∀ m, m < s.allocated → (s.alloc k).node m = s.node m := fun m hm =>
    alloc_of_ne k (Nat.ne_of_lt hm)
  constructor
  · intro fd
    show s.epoll fd = (s.nodes fd).map fun n => (n, ((s.alloc k).node n).event)
    rw [h.epoll]
    cases hn : s.nodes fd with
    | none => rfl
    | some n => simp only [Option.map_some, hold n (h.entry fd n hn).1]
  · intro fd n hn
    have hentry := h.entry fd n hn
    rw [hold n hentry.1]
    exact ⟨Nat.lt_succ_of_lt hentry.1, hentry.2⟩
  · intro n hn
    have htaken := h.taken n hn
    rw [hold n htaken.1]
    exact ⟨Nat.lt_succ_of_lt htaken.1, htaken.2⟩
  · exact h.nodup
  · exact h.pipe
  · exact h.running

/-- A node is registered. -/
theorem Agree.install (h : Agree s takenOut) (fd : Fd) (hborn : n < s.allocated)
    (hdata : (s.node n).data.fd = fd) (hremoved : (s.node n).removed = false) :
    Agree ((s.setEpoll fd (some (n, (s.node n).event))).setEntry fd (some n)) takenOut := by
  constructor
  · intro fd'
    show Function.update s.epoll fd (some (n, (s.node n).event)) fd' =
      (Function.update s.nodes fd (some n) fd').map fun n => (n, (s.node n).event)
    rw [Function.update_apply, Function.update_apply]
    split
    next => rfl
    next => exact h.epoll fd'
  · intro fd' m hm
    change Function.update s.nodes fd (some n) fd' = some m at hm
    rw [Function.update_apply] at hm
    split at hm
    next heq =>
      cases hm
      exact ⟨hborn, hdata.trans heq.symm, hremoved⟩
    next => exact h.entry fd' m hm
  · exact h.taken
  · exact h.nodup
  · exact h.pipe
  · exact h.running

/-- An entry is cleared. -/
theorem Agree.clear (h : Agree s takenOut) (fd : Fd) :
    Agree ((s.setEntry fd none).setEpoll fd none) takenOut := by
  constructor
  · intro fd'
    show Function.update s.epoll fd none fd' =
      (Function.update s.nodes fd none fd').map fun n => (n, (s.node n).event)
    rw [Function.update_apply, Function.update_apply]
    split
    next => rfl
    next => exact h.epoll fd'
  · intro fd' m hm
    change Function.update s.nodes fd none fd' = some m at hm
    rw [Function.update_apply] at hm
    split at hm
    next => cases hm
    next => exact h.entry fd' m hm
  · exact h.taken
  · exact h.nodup
  · exact h.pipe
  · exact h.running

/-- A node that is not registered any more goes into the pipe. -/
theorem Agree.takeOut (h : Agree s takenOut) (hborn : n < s.allocated)
    (hremoved : (s.node n).removed = false) (hgone : ∀ fd, s.nodes fd ≠ some n) (state : PrState) :
    Agree (Table.takeOut s n state) (takenOut ++ [n]) := by
  have hother : ∀ m, m ≠ n →
      (s.setNode n fun k => { k with state := state, removed := true }).node m = s.node m :=
    fun m hm => State.setNode_of_ne s _ hm
  rw [takeOut_eq h.running]
  constructor
  · intro fd
    show s.epoll fd = (s.nodes fd).map fun m =>
      (m, ((s.setNode n fun k => { k with state := state, removed := true }).node m).event)
    rw [h.epoll]
    cases hm : s.nodes fd with
    | none => rfl
    | some m =>
      have hne : m ≠ n := fun heq => hgone fd (heq ▸ hm)
      simp only [Option.map_some, hother m hne]
  · intro fd m hm
    have hne : m ≠ n := fun heq => hgone fd (heq ▸ hm)
    show m < s.allocated ∧ _
    rw [hother m hne]
    exact h.entry fd m hm
  · intro m hm
    show m < s.allocated ∧ _
    by_cases heq : m = n
    · rw [heq, State.setNode_self]
      exact ⟨hborn, rfl⟩
    · rw [hother m heq]
      refine h.taken m ?_
      rcases List.mem_append.mp hm with hmem | hlast
      · exact hmem
      · exact absurd (List.mem_singleton.mp hlast) heq
  · refine List.nodup_append.mpr ⟨h.nodup, List.nodup_singleton n, ?_⟩
    intro a ha b hb heq
    rw [List.mem_singleton] at hb
    have htaken := (h.taken a ha).2
    rw [heq, hb, hremoved] at htaken
    cases htaken
  · show s.pipe ++ [n] = takenOut ++ [n]
    rw [h.pipe]
  · exact h.running

end Agreement

/-! ## The calls -/

section Calls

variable {R : Rebalance} {s s' : State} {takenOut : List NodeId}

/-- `__poller_new_node` makes a node that is not removed. -/
theorem newNode_eq {data : Data} (h : newNode s data = .ok s') :
    ∃ k : Node, k.data = data ∧ k.removed = false ∧ s' = s.alloc k := by
  unfold newNode at h
  split at h
  · cases h
  · split at h
    · cases h
    · exact ⟨_, rfl, rfl, (Except.ok.inj h).symm⟩

theorem unchanged_alloc (s : State) (k : Node) : Unchanged s (s.alloc k) :=
  ⟨rfl, rfl, rfl, rfl, rfl, rfl, rfl, rfl, rfl, rfl⟩

theorem unchanged_refl (s : State) : Unchanged s s :=
  ⟨rfl, rfl, rfl, rfl, rfl, rfl, rfl, rfl, rfl, rfl⟩

theorem Agree.add (h : Agree s takenOut) (data : Data) (timeout : Int) (now : Timespec)
    (ctl : Option Errno) :
    Agree (pollerAdd R s data timeout now ctl).2 takenOut ∧
      ((pollerAdd R s data timeout now ctl).1.isOk = false →
        Unchanged s (pollerAdd R s data timeout now ctl).2) := by
  unfold pollerAdd
  cases hnew : newNode s data with
  | error errno => exact ⟨h, fun _ => unchanged_refl s⟩
  | ok s' =>
    obtain ⟨k, hdata, hremoved, rfl⟩ := newNode_eq hnew
    have halloc := h.alloc k
    have hself := alloc_self s k
    simp only
    split
    next => exact ⟨halloc, fun _ => unchanged_alloc s k⟩
    next => exact ⟨halloc, fun _ => unchanged_alloc s k⟩
    next =>
      have hinstalled := halloc.install (n := s.allocated) data.fd (Nat.lt_succ_self _)
        (by rw [hself, hdata]) (by rw [hself, hremoved])
      exact ⟨hinstalled.kept ((Kept.place _ _).setEntry _ _), nofun⟩

theorem Agree.setTimeout (h : Agree s takenOut) (fd : Fd) (timeout : Int) (now : Timespec) :
    Agree (pollerSetTimeout R s fd timeout now).2 takenOut ∧
      ((pollerSetTimeout R s fd timeout now).1.isOk = false →
        Unchanged s (pollerSetTimeout R s fd timeout now).2) := by
  unfold pollerSetTimeout
  split
  next => exact ⟨h, fun _ => unchanged_refl s⟩
  next =>
    split
    next => exact ⟨h, fun _ => unchanged_refl s⟩
    next n _ => exact ⟨h.kept ((Kept.unlink n).trans (Kept.place n _)), nofun⟩

theorem Agree.cleared (h : Agree s takenOut) {fd : Fd} {n : NodeId} (hn : s.nodes fd = some n)
    (fd' : Fd) : ((s.setEntry fd none).setEpoll fd none).nodes fd' ≠ some n := by
  intro hn'
  change Function.update s.nodes fd none fd' = some n at hn'
  rw [Function.update_apply] at hn'
  split at hn'
  next => cases hn'
  next hne => exact hne ((h.entry fd' n hn').2.1.symm.trans (h.entry fd n hn).2.1)

theorem takesOut_of_error {c : Call} (h : (c.run R s).1.isOk = false) : c.takesOut R s = [] := by
  unfold Call.takesOut
  rw [h]
  rfl

/-- What `poller_del` does. -/
theorem pollerDel_cases (R : Rebalance) (s : State) (fd : Fd) :
    (∃ errno, pollerDel R s fd = (.error errno, s)) ∨ ∃ n, s.nodes fd = some n ∧
      pollerDel R s fd = (.ok (), (takeOut ((unlink R (s.setEntry fd none) n).setEpoll fd none) n
        .deleted).setDeadline n none) := by
  unfold pollerDel
  split
  next errno _ => exact .inl ⟨errno, rfl⟩
  next =>
    split
    next => exact .inl ⟨_, rfl⟩
    next n hn => exact .inr ⟨n, hn, rfl⟩

theorem Agree.del (h : Agree s takenOut) (fd : Fd) :
    Agree (pollerDel R s fd).2 (takenOut ++ Call.takesOut R s (.del fd)) ∧
      ((pollerDel R s fd).1.isOk = false → Unchanged s (pollerDel R s fd).2) := by
  rcases pollerDel_cases R s fd with ⟨errno, heq⟩ | ⟨n, hn, heq⟩
  · have htakes : Call.takesOut R s (.del fd) = [] :=
      takesOut_of_error (by rw [Call.run, heq]; rfl)
    rw [htakes, List.append_nil, heq]
    exact ⟨h, fun _ => unchanged_refl s⟩
  · have htakes : Call.takesOut R s (.del fd) = [n] := by
      simp [Call.takesOut, Call.run, heq, hn, Except.isOk, Except.toBool]
    rw [htakes, heq]
    obtain ⟨hborn, -, hremoved⟩ := h.entry fd n hn
    have htaken := (h.clear fd).takeOut hborn hremoved (h.cleared hn) .deleted
    have hkept : Kept ((s.setEntry fd none).setEpoll fd none)
        ((unlink R (s.setEntry fd none) n).setEpoll fd none) := (Kept.unlink n).setEpoll fd none
    exact ⟨htaken.kept ((hkept.takeOut h.running n .deleted).trans (Kept.setDeadline _)),
      fun hok => Bool.noConfusion hok⟩

/-- What `poller_mod` does: `k` is the new node, freed when the call fails. -/
theorem pollerMod_cases (R : Rebalance) (s : State) (data : Data) (timeout : Int) (now : Timespec)
    (ctl : Option Errno) :
    (∃ errno, pollerMod R s data timeout now ctl = (.error errno, s)) ∨
    ∃ k : Node, k.data = data ∧ k.removed = false ∧
      ((∃ errno, pollerMod R s data timeout now ctl = (.error errno, s.alloc k)) ∨
      ∃ orig, s.nodes data.fd = some orig ∧ pollerMod R s data timeout now ctl =
        (.ok (), (place R ((takeOut (unlink R ((s.alloc k).setEpoll data.fd
          (some (s.allocated, k.event))) orig) orig .modified).setDeadline orig none) s.allocated
          (absTimeout timeout now)).setEntry data.fd (some s.allocated))) := by
  unfold pollerMod
  cases hnew : newNode s data with
  | error errno => exact .inl ⟨errno, rfl⟩
  | ok s' =>
    obtain ⟨k, hdata, hremoved, rfl⟩ := newNode_eq hnew
    refine .inr ⟨k, hdata, hremoved, ?_⟩
    simp only [alloc_self]
    split
    next => exact .inl ⟨_, rfl⟩
    next => exact .inl ⟨_, rfl⟩
    next _ _ orig horig => exact .inr ⟨orig, horig, rfl⟩

theorem Agree.mod (h : Agree s takenOut) (data : Data) (timeout : Int) (now : Timespec)
    (ctl : Option Errno) :
    Agree (pollerMod R s data timeout now ctl).2
        (takenOut ++ Call.takesOut R s (.mod data timeout now ctl)) ∧
      ((pollerMod R s data timeout now ctl).1.isOk = false →
        Unchanged s (pollerMod R s data timeout now ctl).2) := by
  rcases pollerMod_cases R s data timeout now ctl with
    ⟨errno, heq⟩ | ⟨k, hdata, hremoved, ⟨errno, heq⟩ | ⟨orig, horig, heq⟩⟩
  · have htakes : Call.takesOut R s (.mod data timeout now ctl) = [] :=
      takesOut_of_error (by rw [Call.run, heq]; rfl)
    rw [htakes, List.append_nil, heq]
    exact ⟨h, fun _ => unchanged_refl s⟩
  · have htakes : Call.takesOut R s (.mod data timeout now ctl) = [] :=
      takesOut_of_error (by rw [Call.run, heq]; rfl)
    rw [htakes, List.append_nil, heq]
    exact ⟨h.alloc k, fun _ => unchanged_alloc s k⟩
  · have htakes : Call.takesOut R s (.mod data timeout now ctl) = [orig] := by
      simp [Call.takesOut, Call.run, heq, horig, Except.isOk, Except.toBool]
    rw [htakes, heq]
    have halloc := h.alloc k
    obtain ⟨hborn, hfd, hold⟩ := halloc.entry data.fd orig horig
    have hne : orig ≠ s.allocated := Nat.ne_of_lt (h.entry data.fd orig horig).1
    have hinstalled := halloc.install (n := s.allocated) data.fd (Nat.lt_succ_self _)
      (by rw [alloc_self, hdata]) (by rw [alloc_self, hremoved])
    rw [alloc_self] at hinstalled
    have hgone : ∀ fd, (((s.alloc k).setEpoll data.fd (some (s.allocated, k.event))).setEntry
        data.fd (some s.allocated)).nodes fd ≠ some orig := by
      intro fd horig'
      have heq : fd = data.fd := (hinstalled.entry fd orig horig').2.1.symm.trans hfd
      change Function.update s.nodes data.fd (some s.allocated) fd = some orig at horig'
      rw [heq, Function.update_self] at horig'
      exact hne (Option.some.inj horig').symm
    have htaken := hinstalled.takeOut hborn hold hgone .modified
    -- the entry is written last, behind the old node's writes
    rw [takeOut_setEntry] at htaken
    have hrun : ((s.alloc k).setEpoll data.fd (some (s.allocated, k.event))).stopped = false :=
      halloc.running
    have hkept := ((Kept.unlink (R := R) orig).takeOut hrun orig .modified).trans
      ((Kept.setDeadline (n := orig) none).trans
        (Kept.place (R := R) s.allocated (absTimeout timeout now)))
    exact ⟨htaken.kept (hkept.setEntry _ _), fun hok => Bool.noConfusion hok⟩

theorem Agree.removeNode (h : Agree s takenOut) (n : NodeId) :
    Agree (pollerRemoveNode R s n).2 takenOut := by
  unfold pollerRemoveNode
  split
  next => exact h
  next => exact (h.clear _).kept ((Kept.unlink n).setEpoll _ none)

/-- Every call keeps the table and the epoll set together, and one that fails changes nothing. -/
theorem Agree.call (h : Agree s takenOut) (c : Call) :
    Agree (c.run R s).2 (takenOut ++ c.takesOut R s) ∧
      ((c.run R s).1.isOk = false → Unchanged s (c.run R s).2) := by
  have hnothing : takenOut ++ [] = takenOut := List.append_nil _
  cases c with
  | add data timeout now ctl =>
    rw [show Call.takesOut R s (.add data timeout now ctl) = [] from ite_self _, hnothing]
    exact h.add data timeout now ctl
  | mod data timeout now ctl => exact h.mod data timeout now ctl
  | setTimeout fd timeout now =>
    rw [show Call.takesOut R s (.setTimeout fd timeout now) = [] from ite_self _, hnothing]
    exact h.setTimeout fd timeout now
  | del fd => exact h.del fd
  | removeNode n =>
    rw [show Call.takesOut R s (.removeNode n) = [] from rfl, hnothing]
    exact ⟨h.removeNode n, nofun⟩

end Calls

/-! ## The containers -/

/-- A call that appends to empty lists only. -/
def Call.appendsToEmpty (s : State) : Call → Bool
  | .add data timeout now ctl => Table.appendsToEmpty s (.add data timeout now ctl)
  | .mod data timeout now ctl => Table.appendsToEmpty s (.mod data timeout now ctl)
  | .setTimeout fd timeout now => Table.appendsToEmpty s (.setTimeout fd timeout now)
  | .del _ | .removeNode _ => true

/-- Every registered node is in a container, but for that of `out`, whose entry the call at hand has
still to write. -/
structure Housed (s : State) (x y : Option NodeId) (out : Option Fd) : Prop where
  boxes : Boxes s x y
  entry : ∀ fd n, out ≠ some fd → s.nodes fd = some n → Boxed s x y n
  born : ∀ n, Boxed s x y n → n < s.allocated

section Containers

variable {R : Rebalance} {s s' : State} {x y : Option NodeId} {out : Option Fd} {n : NodeId}
  {fd : Fd}

theorem Housed.free (h : Housed s x y out) : ¬ Boxed s x y s.allocated := fun hin =>
  Nat.lt_irrefl _ (h.born _ hin)

/-- Writes to other fields. -/
theorem Housed.edit (h : Housed s x y out) (hboxes : Boxes s' x y) (htree : s'.tree = s.tree)
    (hnodes : s'.nodes = s.nodes) (hallocated : s'.allocated = s.allocated) :
    Housed s' x y out := by
  have hboxed : ∀ m, Boxed s' x y m ↔ Boxed s x y m := by
    intro m
    rw [Boxed, Timed, htree]
    rfl
  constructor
  · exact hboxes
  · intro fd m hne hm
    rw [hnodes] at hm
    exact (hboxed m).mpr (h.entry fd m hne hm)
  · intro m hm
    rw [hallocated]
    exact h.born m ((hboxed m).mp hm)

theorem Housed.setEpoll (h : Housed s x y out) (fd : Fd) (data : Option (NodeId × Event)) :
    Housed (s.setEpoll fd data) x y out :=
  h.edit (h.boxes.congr rfl rfl rfl rfl rfl rfl (fun _ _ => rfl) fun _ => rfl) rfl rfl rfl

theorem Housed.setDeadline (h : Housed s x y out) (n : NodeId) (t : Option Timespec) :
    Housed (s.setDeadline n t) x y out :=
  h.edit (h.boxes.setDeadline t) rfl rfl rfl

theorem takeOut_tree (s : State) (n : NodeId) (state : PrState) :
    (Table.takeOut s n state).tree = s.tree := by
  simp only [Table.takeOut, apply_ite State.tree]
  exact ite_self _

theorem Housed.takeOut (h : Housed s x y out) (n : NodeId) (state : PrState) :
    Housed (takeOut s n state) x y out := by
  obtain ⟨-, hnodes, hallocated, -⟩ := takeOut_keeps s n state
  exact h.edit (h.boxes.takeOut n state) (takeOut_tree s n state) hnodes hallocated

/-- A node that no call has seen. -/
theorem Housed.alloc (h : Housed s x y out) {k : Node} (hflag : k.inRbtree = false) :
    Housed (s.alloc k) x y out where
  boxes := h.boxes.alloc hflag h.free
  entry := h.entry
  born m hm := Nat.lt_succ_of_lt (h.born m hm)

/-- The entry of the descriptor is written by nobody else. -/
theorem Housed.leave (h : Housed s x y none) (fd : Fd) : Housed s x y (some fd) :=
  ⟨h.boxes, fun fd' m _ => h.entry fd' m nofun, h.born⟩

/-- The entry is cleared, or written with a node of the containers. -/
theorem Housed.setEntry (h : Housed s x y (some fd)) {m : Option NodeId}
    (hm : ∀ n, m = some n → Boxed s x y n) : Housed (s.setEntry fd m) x y none := by
  refine ⟨h.boxes.congr rfl rfl rfl rfl rfl rfl (fun _ _ => rfl) fun _ => rfl, ?_, h.born⟩
  intro fd' n _ hn
  change Function.update s.nodes fd m fd' = some n at hn
  rw [Function.update_apply] at hn
  split at hn
  next => exact hm n hn
  next hne => exact h.entry fd' n (fun heq => hne (Option.some.inj heq).symm) hn

/-- The entry has its node again. -/
theorem Housed.back (h : Housed s x y (some fd)) (hentry : s.nodes fd = some n)
    (hn : Boxed s x y n) : Housed s x y none := by
  refine ⟨h.boxes, ?_, h.born⟩
  intro fd' m _ hm
  by_cases hfd : fd' = fd
  · rw [hfd, hentry] at hm
    obtain rfl := Option.some.inj hm
    exact hn
  · exact h.entry fd' m (fun heq => hfd (Option.some.inj heq).symm) hm

/-- A registered node leaves its container. -/
theorem Housed.unlink (h : Housed s x y out) (hn : Boxed s x y n)
    (honly : ∀ fd', s.nodes fd' = some n → out = some fd') :
    ∃ x' y', Housed (unlink R s n) x' y' out ∧
      (∀ m, Boxed (unlink R s n) x' y' m ↔ Boxed s x y m ∧ m ≠ n) ∧
      (∀ m, x' = some m → x = some m ∧ m ≠ n) ∧ (∀ m, y' = some m → y = some m ∧ m ≠ n) := by
  obtain ⟨x', y', hb, htimed, hx, hy⟩ := unlink_boxes (R := R) h.boxes hn
  have hframe : Frame s (Table.unlink R s n) := Frame.unlink n
  have hboxed : ∀ m, Boxed (Table.unlink R s n) x' y' m ↔ Boxed s x y m ∧ m ≠ n := by
    intro m
    rw [Boxed, htimed, hy, Boxed, or_and_right]
  refine ⟨x', y', ⟨hb, ?_, ?_⟩, hboxed, fun m hm => ⟨hx m hm, ((htimed m).mp (.inl hm)).2⟩,
    fun m => (hy m).mp⟩
  · intro fd' m hne hm
    rw [hframe.nodes] at hm
    refine (hboxed m).mpr ⟨h.entry fd' m hne hm, ?_⟩
    rintro rfl
    exact hne (honly fd' hm)
  · intro m hm
    rw [hframe.allocated]
    exact h.born m ((hboxed m).mp hm).1

/-- A node is placed. -/
theorem Housed.place {t : Option Timespec} (h : Housed s x y out) (hn : ¬ Boxed s x y n)
    (hborn : n < s.allocated) (hfits : Fits s x y t) :
    ∃ x' y', Housed (place R s n t) x' y' out ∧ Boxed (place R s n t) x' y' n := by
  obtain ⟨x', y', hb, hboxed⟩ := place_boxes (R := R) h.boxes hn hfits
  have hkept : Kept s (Table.place R s n t) := Kept.place n t
  refine ⟨x', y', ⟨hb, ?_, ?_⟩, (hboxed n).mpr (.inr rfl)⟩
  · intro fd' m hne hm
    rw [hkept.nodes] at hm
    exact (hboxed m).mpr (.inl (h.entry fd' m hne hm))
  · intro m hm
    rw [hkept.allocated]
    obtain hin | rfl := (hboxed m).mp hm
    · exact h.born m hin
    · exact hborn

/-- A node that is placed gets its entry, as `poller_add` and `poller_mod` end. -/
theorem Housed.placeNew {t : Option Timespec} (h : Housed s x y (some fd)) (hn : ¬ Boxed s x y n)
    (hborn : n < s.allocated) (hfits : Fits s x y t) :
    ∃ x' y', Housed ((Table.place R s n t).setEntry fd (some n)) x' y' none := by
  obtain ⟨x', y', hplaced, hin⟩ := h.place (R := R) hn hborn hfits
  refine ⟨x', y', hplaced.setEntry ?_⟩
  intro m hm
  obtain rfl := Option.some.inj hm
  exact hin

end Containers

section HousedCalls

variable {R : Rebalance} {s : State} {x y : Option NodeId} {takenOut : List NodeId} {n : NodeId}
  {fd : Fd}

/-- Some nodes are in the lists, and every registered node is in a container. -/
def InPlace (s : State) : Prop := ∃ x y, Housed s x y none

/-- The node of an entry has no other. -/
theorem Agree.entry_unique (h : Agree s takenOut) (hn : s.nodes fd = some n) {fd' : Fd}
    (hn' : s.nodes fd' = some n) : fd' = fd :=
  (h.entry fd' n hn').2.1.symm.trans (h.entry fd n hn).2.1

theorem Housed.add (h : Housed s x y none) {data : Data} {timeout : Int} {now : Timespec}
    {ctl : Option Errno} (hok : Call.appendsToEmpty s (.add data timeout now ctl) = true) :
    InPlace (pollerAdd R s data timeout now ctl).2 := by
  unfold pollerAdd
  cases hnew : newNode s data with
  | error errno => exact ⟨x, y, h⟩
  | ok s' =>
    obtain ⟨-, k, hflag, -, rfl⟩ := newNode_ok hnew
    have halloc := h.alloc hflag
    simp only
    split
    next => exact ⟨x, y, halloc⟩
    next => exact ⟨x, y, halloc⟩
    next hnone =>
      change s.nodes data.fd = none at hnone
      simp only [Call.appendsToEmpty, Table.appendsToEmpty, placed, hnew, hnone, Except.isOk,
        Except.toBool, Option.isNone_none, Bool.and_true, if_true] at hok
      have hfits := fits_of_placesWell (s.alloc k) h.boxes (fun m hm => ⟨hm, by simp⟩)
        (fun m hm => ⟨hm, by simp⟩) (timeout_alloc h.free k) hok
      have hepoll := (halloc.leave data.fd).setEpoll data.fd
        (some (s.allocated, ((s.alloc k).node s.allocated).event))
      exact hepoll.placeNew h.free (Nat.lt_succ_self _) hfits

theorem Housed.setTimeout (h : Housed s x y none) (hagree : Agree s takenOut) {timeout : Int}
    {now : Timespec} (hok : Call.appendsToEmpty s (.setTimeout fd timeout now) = true) :
    InPlace (pollerSetTimeout R s fd timeout now).2 := by
  unfold pollerSetTimeout
  split
  next => exact ⟨x, y, h⟩
  next hfd =>
    split
    next => exact ⟨x, y, h⟩
    next n hn =>
      simp only [Call.appendsToEmpty, Table.appendsToEmpty, placed, hfd, hn, Option.isNone_none,
        if_true, Option.map_some] at hok
      have hin := h.entry fd n (by simp) hn
      have hborn := h.born n hin
      obtain ⟨x', y', hout, hboxed, hx, hy⟩ := (h.leave fd).unlink (R := R) hin
        fun fd' hn' => congrArg some (hagree.entry_unique hn hn').symm
      have hfits := fits_of_placesWell (Table.unlink R s n) h.boxes
        (fun m hm => ⟨(hx m hm).1, by simpa using (hx m hm).2.symm⟩)
        (fun m hm => ⟨(hy m hm).1, by simpa using (hy m hm).2.symm⟩)
        (fun m _ => unlink_timeout m) hok
      have hkept : Kept s (Table.unlink R s n) := Kept.unlink n
      obtain ⟨x₂, y₂, hplaced, hin'⟩ := hout.place (R := R)
        (fun hin' => ((hboxed n).mp hin').2 rfl) (by rw [hkept.allocated]; exact hborn) hfits
      have hentry := (hkept.trans (Kept.place (R := R) n (absTimeout timeout now))).nodes
      exact ⟨x₂, y₂, hplaced.back ((congrFun hentry fd).trans hn) hin'⟩

/-- A node gives up its entry and leaves its container, as in `poller_del` and
`__poller_remove_node`. -/
theorem Housed.give (h : Housed s x y none) (hagree : Agree s takenOut) (hn : s.nodes fd = some n) :
    ∃ x' y', Housed ((Table.unlink R (s.setEntry fd none) n).setEpoll fd none) x' y' none := by
  obtain ⟨x', y', hout, -, -, -⟩ := ((h.leave fd).setEntry (m := none) nofun).unlink (R := R)
    (n := n) (h.entry fd n nofun hn) fun fd' hn' => absurd hn' (hagree.cleared hn fd')
  exact ⟨x', y', hout.setEpoll fd none⟩

theorem Housed.del (h : Housed s x y none) (hagree : Agree s takenOut) (fd : Fd) :
    InPlace (pollerDel R s fd).2 := by
  rcases pollerDel_cases R s fd with ⟨errno, heq⟩ | ⟨n, hn, heq⟩
  · rw [heq]
    exact ⟨x, y, h⟩
  · rw [heq]
    obtain ⟨x', y', hout⟩ := h.give (R := R) hagree hn
    exact ⟨x', y', (hout.takeOut n .deleted).setDeadline n none⟩

theorem Housed.removeNode (h : Housed s x y none) (hagree : Agree s takenOut)
    (hcan : Call.enabled s (.removeNode n) = true) : InPlace (pollerRemoveNode R s n).2 := by
  unfold pollerRemoveNode
  split
  next => exact ⟨x, y, h⟩
  next hkept =>
    obtain hn | hmem := of_decide_eq_true hcan
    · exact h.give hagree hn
    · rw [hagree.pipe] at hmem
      exact absurd (hagree.taken n hmem).2 hkept

theorem Housed.mod (h : Housed s x y none) (hagree : Agree s takenOut) {data : Data}
    {timeout : Int} {now : Timespec} {ctl : Option Errno}
    (hok : Call.appendsToEmpty s (.mod data timeout now ctl) = true) :
    InPlace (pollerMod R s data timeout now ctl).2 := by
  unfold pollerMod
  cases hnew : newNode s data with
  | error errno => exact ⟨x, y, h⟩
  | ok s' =>
    obtain ⟨-, k, hflag, -, rfl⟩ := newNode_ok hnew
    have halloc := h.alloc hflag
    simp only
    split
    next => exact ⟨x, y, halloc⟩
    next => exact ⟨x, y, halloc⟩
    next orig horig =>
      change s.nodes data.fd = some orig at horig
      simp only [Call.appendsToEmpty, Table.appendsToEmpty, placed, hnew, horig, Except.isOk,
        Except.toBool, Option.map_some, if_true] at hok
      let s₁ := (s.alloc k).setEpoll data.fd
        (some (s.allocated, ((s.alloc k).node s.allocated).event))
      have hepoll : Housed s₁ x y (some data.fd) := (halloc.leave data.fd).setEpoll data.fd _
      obtain ⟨x', y', hout, hboxed, hx, hy⟩ := hepoll.unlink (R := R) (n := orig)
        (h.entry data.fd orig (by simp) horig)
        fun fd' hn' => congrArg some (hagree.entry_unique horig hn').symm
      have hkept : Kept s₁ (Table.unlink R s₁ orig) := Kept.unlink orig
      have hframe : Frame s₁ (Table.unlink R s₁ orig) := Frame.unlink orig
      have htaken := (hout.takeOut orig .modified).setDeadline orig none
      obtain ⟨-, -, hallocated, htimeout⟩ := takeOut_keeps (Table.unlink R s₁ orig) orig .modified
      have hfits := fits_of_placesWell
        ((Table.takeOut (Table.unlink R s₁ orig) orig .modified).setDeadline orig none) h.boxes
        (fun m hm => ⟨(hx m hm).1, by simpa using (hx m hm).2.symm⟩)
        (fun m hm => ⟨(hy m hm).1, by simpa using (hy m hm).2.symm⟩)
        (by
          intro m hm
          show ((Table.takeOut (Table.unlink R s₁ orig) orig .modified).node m).timeout = _
          rw [htimeout, hframe.timeout]
          exact timeout_alloc h.free k m hm) hok
      have htree : (Table.takeOut (Table.unlink R s₁ orig) orig .modified).tree =
          (Table.unlink R s₁ orig).tree := takeOut_tree ..
      refine htaken.placeNew ?_ ?_ hfits
      · -- the new node was in no container, and `unlink` adds none
        intro hin
        rw [Boxed, Timed] at hin
        exact h.free ((hboxed s.allocated).mp (by rwa [Boxed, Timed, ← htree])).1
      · show s.allocated < (Table.takeOut (Table.unlink R s₁ orig) orig .modified).allocated
        rw [hallocated, hkept.allocated]
        exact Nat.lt_succ_self _

/-- A call that appends to empty lists keeps every registered node in a container. -/
theorem Housed.call (h : Housed s x y none) (hagree : Agree s takenOut) {c : Call}
    (hcan : c.enabled s = true) (hok : c.appendsToEmpty s = true) : InPlace (c.run R s).2 := by
  cases c with
  | add data timeout now ctl => exact h.add hok
  | mod data timeout now ctl => exact h.mod hagree hok
  | setTimeout fd timeout now => exact h.setTimeout hagree hok
  | del fd => exact h.del hagree fd
  | removeNode n => exact h.removeNode hagree hcan

end HousedCalls

/-! ## Runs -/

/-- The state behind a run of calls, and what one more does. -/
structure Registered (R : Rebalance) (r : Run) : Prop where
  defined : r.poller.undefined = false
  epoll_iff : ∀ fd, (r.poller.epoll fd).isSome = true ↔ r.poller.nodes fd ≠ none
  entry : ∀ fd n, r.poller.nodes fd = some n →
    r.poller.epoll fd = some (n, (r.poller.node n).event) ∧
      (r.poller.node n).data.fd = fd ∧ (r.poller.node n).removed = false
  takenOut : ∀ n ∈ r.takenOut, (r.poller.node n).removed = true ∧ r.poller.pipe.count n = 1
  failed : ∀ c : Call, (c.run R r.poller).1.isOk = false →
    Unchanged r.poller (c.run R r.poller).2

/-- Every call of the run appends to empty lists only. -/
def Appends : Run → Call → Prop := fun r c => c.appendsToEmpty r.poller = true

/-- What the calls keep. -/
def Whole (r : Run) : Prop := Agree r.poller r.takenOut ∧ InPlace r.poller

theorem whole_inductive (R : Rebalance) : InductiveInvariant (calls R) Appends Whole where
  init := by
    rintro r ⟨maxOpenFiles, clock, rfl⟩
    refine ⟨⟨fun _ => rfl, nofun, nofun, List.nodup_nil, rfl, rfl⟩, none, none,
      boxes_created maxOpenFiles false clock, nofun, ?_⟩
    rintro n ((hn | hn) | hn)
    · cases hn
    · cases hn
    · cases hn
  step := by
    rintro r c r' ⟨hagree, x, y, hhoused⟩ hok hstep
    change callStep R r c = some r' at hstep
    unfold callStep at hstep
    split at hstep
    next hcan =>
      cases hstep
      exact ⟨(hagree.call c).1, hhoused.call hagree hcan hok⟩
    next => cases hstep

theorem Whole.registered {R : Rebalance} {r : Run} (h : Whole r) : Registered R r := by
  obtain ⟨hagree, x, y, hhoused⟩ := h
  constructor
  · exact hhoused.boxes.defined
  · intro fd
    rw [hagree.epoll, Option.isSome_map, Option.isSome_iff_ne_none]
  · intro fd n hn
    obtain ⟨-, hdata, hremoved⟩ := hagree.entry fd n hn
    refine ⟨?_, hdata, hremoved⟩
    rw [hagree.epoll, hn]
    rfl
  · intro n hn
    refine ⟨(hagree.taken n hn).2, ?_⟩
    rw [hagree.pipe]
    exact List.count_eq_one_of_mem hagree.nodup hn
  · exact fun c => (hagree.call c).2

/-- While nodes are only appended to empty lists, the table and the epoll set agree in every run of
calls, and failed calls change nothing. -/
theorem registered_of_appendsToEmpty {R : Rebalance} {r : Run} (h : (calls R).Reaches Appends r) :
    Registered R r :=
  ((whole_inductive R).holds h).registered

/-- A node is replaced and handled behind that, the other is removed. -/
theorem registered_of_appendsToEmpty_run : ∃ r, (calls rebalanceSmall).Reaches Appends r ∧
    r.poller.pipe = [0] ∧ Registered rebalanceSmall r := by
  have hrun : ((calls rebalanceSmall).runIf (fun r c => c.appendsToEmpty r.poller)
      { poller := .created 16 false (seconds 1), takenOut := [] }
      [.add { operation := .read, fd := 3 } 3000 (seconds 1) none,
        .add { operation := .read, fd := 3 } 2000 (seconds 1) none,
        .add { operation := .connect, fd := 4 } 1000 (seconds 1) none,
        .mod { operation := .write, fd := 3 } 1000 (seconds 1) none,
        .removeNode 0, .removeNode 2]).map (fun r => r.poller.pipe) = some [0] := by
    decide +kernel
  obtain ⟨r, hr, hpipe⟩ := Option.map_eq_some_iff.mp hrun
  have hreach : (calls rebalanceSmall).Reaches Appends r :=
    System.reaches_of_runIf (fun _ _ h => h) ⟨16, seconds 1, rfl⟩ hr
  exact ⟨r, hreach, hpipe, registered_of_appendsToEmpty hreach⟩

/-- `no_timeo_list->prev` is the node of fd 3, which is the root of the tree by now: its `prev` is
the NULL of its right child, and `poller_add` of fd 5 goes through it before it writes `nodes[5]`. -/
theorem append_reaches_tree_node : ∃ r r', (calls rebalanceSmall).Reachable r ∧
    r.poller.undefined = false ∧
    callStep rebalanceSmall r (.add { operation := .read, fd := 5 } (-1) (seconds 1) none) =
      some r' ∧ r'.poller.undefined = true ∧ ¬ Registered rebalanceSmall r' := by
  have hrun : ((calls rebalanceSmall).run
      { poller := .created 16 false (seconds 1), takenOut := [] }
      [.add { operation := .read, fd := 3 } (-1) (seconds 1) none,
        .add { operation := .read, fd := 4 } (-1) (seconds 1) none,
        .setTimeout 4 3000 (seconds 1), .setTimeout 3 1000 (seconds 1)]).bind
      (fun r => (callStep rebalanceSmall r
        (.add { operation := .read, fd := 5 } (-1) (seconds 1) none)).map
        fun r' => (r.poller.undefined, r'.poller.undefined)) = some (false, true) := by
    decide +kernel
  obtain ⟨r, hr, hstep⟩ := Option.bind_eq_some_iff.mp hrun
  obtain ⟨r', hr', hflags⟩ := Option.map_eq_some_iff.mp hstep
  have hbefore : r.poller.undefined = false := congrArg Prod.fst hflags
  have hbehind : r'.poller.undefined = true := congrArg Prod.snd hflags
  refine ⟨r, r', System.reachable_of_run (M := calls rebalanceSmall) ⟨16, seconds 1, rfl⟩ hr,
    hbefore, hr', hbehind, ?_⟩
  intro hregistered
  rw [hregistered.defined] at hbehind
  cases hbehind

end WorkflowKernel.Poller.Table
