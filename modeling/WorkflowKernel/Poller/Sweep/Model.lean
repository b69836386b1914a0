import WorkflowKernel.ListHead
import WorkflowKernel.Poller.Table.Model

/-!
# The sweeps over all nodes of a poller

`__poller_handle_timeout` and `poller_stop`: both move nodes from the containers to a list on their
stack, under the mutex, and then walk that list and hand each node to `poller->callback`, which is
`Communicator::callback`. The message queue's link lies on the node's `list.next`, so `callback`
writes there, and in the link of the message put before.

The loops follow pointers and are run with fuel. A cell that is in no node, a list head or NULL,
gives `undefined` when `list_entry` takes it for one: what is read there belongs to no node.

A step is one call; other threads do nothing in between. `rb_erase` is the parameter `Rebalance`, as
for the node table. The link of a node and its `rb` share storage, and a node is in one container at
a time.
-/

namespace WorkflowKernel.Poller.Sweep

open WorkflowKernel.Communicator WorkflowKernel.Lib WorkflowKernel.ListHead
open WorkflowKernel.Poller.Table (NodeId Fd Timespec timeoutCmp Rebalance)

def ETIMEDOUT : Errno := 110

/-- How a call ends. -/
inductive Outcome (ι α : Type)
  | done (a : α)
  /-- `list_entry` of a cell that is in no node. -/
  | undefined (c : ι)
  /-- Out of fuel. -/
  | running

def Outcome.bind {ι α β : Type} : Outcome ι α → (α → Outcome ι β) → Outcome ι β
  | done a, f => f a
  | undefined c, _ => undefined c
  | running, _ => running

/-- A `struct list`, or NULL. -/
inductive Cell
  | null
  /-- The list on the stack of the call. -/
  | stack
  | timeoList
  | noTimeoList
  | node (n : NodeId)
  deriving DecidableEq, Repr

structure Node where
  fd : Fd
  state : PrState
  error : Errno
  removed : Bool
  timeout : Timespec
  deriving DecidableEq, Repr

structure State where
  node : NodeId → Node
  nodes : Fd → Option NodeId
  /-- The descriptors that `epoll` watches. -/
  epoll : Fd → Bool
  links : Links Cell
  tree : RbTree NodeId
  treeFirst : Option NodeId
  treeLast : Option NodeId
  stopped : Bool
  /-- The messages in the pipe; `none` is NULL. -/
  pipe : List (Option NodeId)
  /-- The last message of the queue, whose link `put_tail` points to. -/
  putTail : Option NodeId
  /-- What `callback` has been given. -/
  called : List (NodeId × PrState × Errno)

def State.setNode (s : State) (n : NodeId) (k : Node) : State :=
  { s with node := Function.update s.node n k }

def State.setLinks (s : State) (links : Links Cell) : State := { s with links := links }

/-- A registered node leaves `nodes` and `epoll`, or a timer is marked. -/
def removeNode (s : State) (n : NodeId) : State :=
  let k := s.node n
  if 0 ≤ k.fd then
    { s with nodes := Function.update s.nodes k.fd none, epoll := Function.update s.epoll k.fd false }
  else s.setNode n { k with removed := true }

/-- `msg_queue_put` writes the links: the message's own, then the one that `put_tail` points to. -/
def putLinks (next : Cell → Cell) (putTail : Option NodeId) (n : NodeId) : Cell → Cell :=
  match putTail with
  | none => Function.update next (.node n) .null
  | some m => Function.update (Function.update next (.node n) .null) (.node m) (.node n)

/-- `Communicator::callback`. -/
def callback (s : State) (n : NodeId) : State :=
  { s with
    links := { s.links with next := putLinks s.links.next s.putTail n }
    putTail := some n
    called := s.called ++ [(n, (s.node n).state, (s.node n).error)] }

/-! ## `__poller_handle_timeout` -/

/-- `__timeout_cmp(node, time_node) > 0` does not hold. -/
def due (now : Timespec) (k : Node) : Bool := timeoutCmp k.timeout now ≤ 0

/-- The loop over `timeo_list`, at `pos`. -/
def sweepList (now : Timespec) : Nat → State → Cell → Outcome Cell State
  | 0, _, _ => .running
  | fuel + 1, s, pos =>
    if pos = .timeoList then .done s
    else
      match pos with
      | .node n =>
        if due now (s.node n) then
          let s := removeNode s n
          let s := s.setLinks (listAddTail s.links (s.links.prev .stack) pos)
          sweepList now fuel s (s.links.next pos)
        else .done s
      | c => .undefined c

section Tree

variable (R : Rebalance)

/-- The first node of the tree is taken out. -/
def eraseFirst (s : State) (n : NodeId) : State :=
  let treeFirst := s.tree.next n
  { s with
    tree := R.erase n s.tree
    treeFirst := treeFirst
    treeLast := if treeFirst = none then none else s.treeLast }

/-- The loop over the tree. -/
def sweepTree (now : Timespec) : Nat → State → Outcome Cell State
  | 0, _ => .running
  | fuel + 1, s =>
    match s.treeFirst with
    | none => .done s
    | some n =>
      if due now (s.node n) then
        let s := eraseFirst R (removeNode s n) n
        sweepTree now fuel (s.setLinks (listAddTail s.links (s.links.prev .stack) (.node n)))
      else .done s

end Tree

/-- An expired node gets its result. -/
def expire (s : State) (n : NodeId) : State :=
  let k := s.node n
  s.setNode n (if 0 ≤ k.fd then { k with error := ETIMEDOUT, state := .error }
    else { k with error := 0, state := .finished })

/-- The loop over the list on the stack that hands over what `give` makes of each node. -/
def callList (give : State → NodeId → State) : Nat → State → Cell → Outcome Cell State
  | 0, _, _ => .running
  | fuel + 1, s, pos =>
    if pos = .stack then .done s
    else
      match pos with
      | .node n =>
        let s := callback (give s n) n
        callList give fuel s (s.links.next pos)
      | c => .undefined c

/-- `__poller_handle_timeout`. -/
def handleTimeout (R : Rebalance) (fuel : Nat) (s : State) (now : Timespec) : Outcome Cell State :=
  let s := s.setLinks (listInit s.links .stack)
  (sweepList now fuel s (s.links.next .timeoList)).bind fun s =>
    (sweepTree R now fuel s).bind fun s => callList expire fuel s (s.links.next .stack)

/-! ## `poller_stop` -/

/-- `POLLER_BUFSIZE / sizeof(void *)`. -/
def pipeRead : Nat := 256 * 1024 / 8

/-- The loop of `__poller_handle_pipe` over what was read: whether NULL was there. -/
def handleMessages (s : State) : List (Option NodeId) → State × Bool
  | [] => (s, false)
  | some n :: ms => handleMessages (callback s n) ms
  | none :: ms => ((handleMessages s ms).1, true)

/-- `__poller_handle_pipe`. -/
def handlePipe (s : State) : State × Bool :=
  handleMessages { s with pipe := s.pipe.drop pipeRead } (s.pipe.take pipeRead)

/-- `__poller_thread_routine` until it has read NULL from the pipe. -/
def pollerThread : Nat → State → Outcome Cell State
  | 0, _ => .running
  | fuel + 1, s =>
    let (s, stop) := handlePipe s
    if stop then .done s else pollerThread fuel s

/-- The loop over the tree in `poller_stop`. -/
def stopTree (R : Rebalance) : Nat → State → Outcome Cell State
  | 0, _ => .running
  | fuel + 1, s =>
    match s.tree with
    | .nil => .done s
    | .node _ _ n _ =>
      let s := { s with tree := R.erase n s.tree }
      stopTree R fuel (s.setLinks (listAddTail s.links .stack (.node n)))

/-- The first loop over the list on the stack in `poller_stop`. -/
def removeList : Nat → State → Cell → Outcome Cell State
  | 0, _, _ => .running
  | fuel + 1, s, pos =>
    if pos = .stack then .done s
    else
      match pos with
      | .node n =>
        let s := removeNode s n
        removeList fuel s (s.links.next pos)
      | c => .undefined c

/-- A node gets the result of a stopped poller. -/
def stop (s : State) (n : NodeId) : State :=
  s.setNode n { s.node n with error := 0, state := .stopped }

/-- Both lists are spliced into the one on the stack. -/
def spliceLists (s : State) : State :=
  s.setLinks (listAddList (listAddList s.links .stack .timeoList) .stack .noTimeoList)

/-- The section of `poller_stop` on the mutex, and the callbacks behind it. -/
def stopNodes (R : Rebalance) (fuel : Nat) (s : State) : Outcome Cell State :=
  let s := (handlePipe { s with stopped := true }).1
  (stopTree R fuel { s with treeFirst := none, treeLast := none }).bind fun s =>
    let s := spliceLists s
    (removeList fuel s (s.links.next .stack)).bind fun s =>
      callList stop fuel s (s.links.next .stack)

/-- `poller_stop`: NULL is written to the pipe and the poller thread joined. -/
def pollerStop (R : Rebalance) (fuel : Nat) (s : State) : Outcome Cell State :=
  let s := { s with links := listInit s.links .stack, pipe := s.pipe ++ [none] }
  (pollerThread fuel s).bind (stopNodes R fuel)

end WorkflowKernel.Poller.Sweep
