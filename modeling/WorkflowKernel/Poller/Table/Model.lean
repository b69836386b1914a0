import Mathlib.Logic.Function.Basic
import WorkflowKernel.Communicator.Types
import WorkflowKernel.Lib.LinkedTree
import WorkflowKernel.Lib.Transition
import WorkflowKernel.Poller.Table.Timespec

/-!
# The node table, the lists, the tree and the timer

The calls of `poller.cc` on one poller, each as one step: nodes live in `nodes` and in one of
`timeo_list`, `no_timeo_list` and `timeo_tree`. The lists are the cells of `list.h` and their
`next` and `prev`, written as the code writes them. `list` and `rb` are one union in a node:
`holdsList` says that `list` was written last. A list operation that goes through a node whose union
holds no `list` reads or writes what `rb` left there, and what follows is not the program's any more;
`undefined` records that one did.

The descent of `__poller_tree_insert` and the two caches are the code's. What `rb_insert_color` and
`rb_erase` make of the shape and the colours is a parameter, `Rebalance`, with the in-order sequence
that rotations keep; `rb_next` and `rb_prev` are the neighbours in that sequence. `epoll_ctl` fails
as it likes, except that DEL always removes, and memory is available. `deadline` is the timeout that
a node is registered with; no step reads it.
-/

namespace WorkflowKernel.Poller.Table

open WorkflowKernel.Transition
open WorkflowKernel.Communicator
open WorkflowKernel.Lib

abbrev NodeId := Nat
abbrev Fd := Int

def EBADF : Errno := 9
def EEXIST : Errno := 17
def EMFILE : Errno := 24

/-! ## list.h -/

/-- A `struct list`: a head or the one inside a node. -/
inductive Cell
  | timeoList
  | noTimeoList
  | node (n : NodeId)
  deriving DecidableEq, Repr

structure Links where
  next : Cell → Cell
  prev : Cell → Cell

/-- Both lists after `list_init`. -/
def Links.init : Links := { next := id, prev := id }

def listEmpty (l : Links) (head : Cell) : Bool := l.next head = head

def listAddTail (l : Links) (head entry : Cell) : Links :=
  if listEmpty l head then
    { next := Function.update (Function.update l.next head entry) entry head
      prev := Function.update (Function.update l.prev head entry) entry head }
  else
    -- `entry->prev = head->prev->next` and `head->prev->next = entry`
    let prev := Function.update l.prev entry (l.next (l.prev head))
    let next := Function.update l.next entry head
    { next := Function.update next (prev head) entry, prev := prev }

def listDelete (l : Links) (entry : Cell) : Links :=
  let next := Function.update l.next (l.prev entry) (l.next entry)
  { next := next, prev := Function.update l.prev (next entry) (l.prev entry) }

/-- `list_entry`. A head is in no node. -/
def listEntry : Cell → NodeId
  | .node n => n
  | .timeoList | .noTimeoList => 0

/-! ## rbtree.c -/

/-- `rb_insert_color` and `rb_erase` on coloured trees. -/
structure Rebalance where
  insertColor : NodeId → RbTree NodeId → RbTree NodeId
  erase : NodeId → RbTree NodeId → RbTree NodeId
  inorder_insertColor : ∀ n t, (insertColor n t).inorder = t.inorder
  inorder_erase : ∀ n t, (erase n t).inorder = t.inorder.erase n

/-! ## Nodes -/

/-- `PD_OP_*`. -/
inductive Operation
  | timer
  | read
  | write
  | listen
  | connect
  | recvfrom
  | event
  | notify
  | other
  deriving DecidableEq, Repr

/-- `EPOLLIN` or `EPOLLOUT`, and `EPOLLET`. -/
structure Event where
  out : Bool
  et : Bool
  deriving DecidableEq, Repr

/-- `__poller_data_get_event`; the result it returns says whether the node needs a `res`. -/
def dataGetEvent : Operation → Option Event
  | .read | .recvfrom | .event | .notify => some { out := false, et := true }
  | .write | .connect => some { out := true, et := true }
  | .listen => some { out := false, et := false }
  | .timer | .other => none

/-- `struct poller_data`. -/
structure Data where
  operation : Operation
  fd : Fd
  deriving DecidableEq, Repr

structure Node where
  data : Data
  event : Event
  state : PrState
  inRbtree : Bool
  removed : Bool
  timeout : Timespec
  deriving DecidableEq, Repr

structure State where
  maxOpenFiles : Nat
  stopped : Bool
  node : NodeId → Node
  allocated : NodeId
  nodes : Fd → Option NodeId
  epoll : Fd → Option (NodeId × Event)
  links : Links
  holdsList : NodeId → Bool
  undefined : Bool
  tree : RbTree NodeId
  treeFirst : Option NodeId
  treeLast : Option NodeId
  timerfd : Option Timespec
  pipe : List NodeId
  called : List NodeId
  clock : Timespec
  deadline : NodeId → Option Timespec

def Node.blank : Node where
  data := { operation := .other, fd := 0 }
  event := { out := false, et := false }
  state := .success
  inRbtree := false
  removed := false
  timeout := .zero

/-- `poller_create`. -/
def State.created (maxOpenFiles : Nat) (stopped : Bool) (clock : Timespec) : State where
  maxOpenFiles := maxOpenFiles
  stopped := stopped
  node _ := .blank
  allocated := 0
  nodes _ := none
  epoll _ := none
  links := .init
  holdsList _ := false
  undefined := false
  tree := .nil
  treeFirst := none
  treeLast := none
  timerfd := none
  pipe := []
  called := []
  clock := clock
  deadline _ := none

def State.setNode (s : State) (n : NodeId) (f : Node → Node) : State :=
  { s with node := Function.update s.node n (f (s.node n)) }

@[simp] theorem State.setNode_self (s : State) (n : NodeId) (f : Node → Node) :
    (s.setNode n f).node n = f (s.node n) := Function.update_self ..

theorem State.setNode_of_ne (s : State) {n m : NodeId} (f : Node → Node) (h : m ≠ n) :
    (s.setNode n f).node m = s.node m := Function.update_of_ne h ..

def State.setDeadline (s : State) (n : NodeId) (t : Option Timespec) : State :=
  { s with deadline := Function.update s.deadline n t }

/-- `malloc` of a node. -/
def State.alloc (s : State) (k : Node) : State :=
  { s.setNode s.allocated fun _ => k with allocated := s.allocated + 1 }

/-- `poller->nodes[fd]` is written. -/
def State.setEntry (s : State) (fd : Fd) (n : Option NodeId) : State :=
  { s with nodes := Function.update s.nodes fd n }

/-- `epoll_ctl` succeeds. -/
def State.setEpoll (s : State) (fd : Fd) (data : Option (NodeId × Event)) : State :=
  { s with epoll := Function.update s.epoll fd data }

/-- `__poller_set_timerfd`: a time of 0 disarms. -/
def setTimerfd (s : State) (abstime : Timespec) : State :=
  { s with timerfd := if abstime = .zero then none else some abstime }

/-! ## The containers -/

section Containers

variable (R : Rebalance)

/-- `__poller_tree_insert`: where the node is linked, before `rb_insert_color`. -/
def treeLink (s : State) (n : NodeId) : State :=
  let last := s.treeLast.getD 0
  let timeout := (s.node n).timeout
  let goLeft e := decide (timeoutCmp timeout (s.node e).timeout < 0)
  if s.tree = .nil then
    { s with treeFirst := some n, treeLast := some n, tree := .leaf n }
  else if 0 ≤ timeoutCmp timeout (s.node last).timeout then
    { s with tree := s.tree.linkRight last n, treeLast := some n }
  else
    { s with
      tree := s.tree.descend goLeft n
      treeFirst :=
        if s.tree.slot goLeft = s.treeFirst.map (·, true) then some n else s.treeFirst }

/-- `__poller_tree_insert`. -/
def treeInsert (s : State) (n : NodeId) : State :=
  let s := (treeLink s n).setNode n fun k => { k with inRbtree := true }
  { s with tree := R.insertColor n s.tree, holdsList := Function.update s.holdsList n false }

/-- `__poller_tree_erase`. -/
def treeErase (s : State) (n : NodeId) : State :=
  let s := { s with
    treeFirst := if s.treeFirst = some n then s.tree.next n else s.treeFirst
    treeLast := if s.treeLast = some n then s.tree.prev n else s.treeLast
    tree := R.erase n s.tree }
  s.setNode n fun k => { k with inRbtree := false }

/-- There is a `struct list`: a head, or the union of a node that holds one. -/
def State.isList (s : State) : Cell → Bool
  | .node n => s.holdsList n
  | .timeoList | .noTimeoList => true

/-- `list_delete` of a node; it goes through the two cells beside it. -/
def delete (s : State) (n : NodeId) : State :=
  let cells := [.node n, s.links.prev (.node n), s.links.next (.node n)]
  { s with
    links := listDelete s.links (.node n)
    undefined := s.undefined || !cells.all s.isList }

/-- The node leaves its list or tree. -/
def unlink (s : State) (n : NodeId) : State :=
  if (s.node n).inRbtree then treeErase R s n else delete s n

/-- `list_add_tail` on one of the lists, called on the last cell of it. -/
def addTail (s : State) (head : Cell) (n : NodeId) : State :=
  let last := s.links.prev head
  let cells := if listEmpty s.links last then [last] else [last, s.links.prev last]
  { s with
    links := listAddTail s.links last (.node n)
    holdsList := Function.update s.holdsList n true
    undefined := s.undefined || !cells.all s.isList }

/-- `__poller_insert_node`. -/
def insertNode (s : State) (n : NodeId) : State :=
  let timeout := (s.node n).timeout
  let last := listEntry (s.links.prev .timeoList)
  if listEmpty s.links .timeoList then
    let s := addTail s .timeoList n
    match s.treeFirst with
    | none => setTimerfd s timeout
    | some first =>
      if timeoutCmp timeout (s.node first).timeout < 0 then setTimerfd s timeout else s
  else if 0 ≤ timeoutCmp timeout (s.node last).timeout then
    addTail s .timeoList n
  else
    let s := treeInsert R s n
    if s.treeFirst ≠ some n then s
    else
      let first := listEntry (s.links.next .timeoList)
      if timeoutCmp timeout (s.node first).timeout < 0 then setTimerfd s timeout else s

/-- The node goes where its timeout says: `none` is a negative one. -/
def place (s : State) (n : NodeId) : Option Timespec → State
  | some t => (insertNode R (s.setNode n fun k => { k with timeout := t }) n).setDeadline n (some t)
  | none => (addTail s .noTimeoList n).setDeadline n none

/-! ## The calls -/

/-- The absolute timeout of a call, or `none` for a negative argument. -/
def absTimeout (timeout : Int) (now : Timespec) : Option Timespec :=
  if 0 ≤ timeout then some (nodeSetTimeout timeout.toNat now) else none

/-- `(size_t)fd >= poller->max_open_files`, and the `errno` then. -/
def fdError (s : State) (fd : Fd) : Option Errno :=
  if fd < 0 then some EBADF else if (s.maxOpenFiles : Int) ≤ fd then some EMFILE else none

/-- `__poller_new_node`. -/
def newNode (s : State) (data : Data) : Except Errno State :=
  match fdError s data.fd with
  | some errno => .error errno
  | none =>
    match dataGetEvent data.operation with
    | none => .error EINVAL
    | some event =>
      .ok (s.alloc { Node.blank with data := data, event := event })

/-- `poller_add`; `ctl` is the `errno` of a failed `epoll_ctl`. -/
def pollerAdd (s : State) (data : Data) (timeout : Int) (now : Timespec) (ctl : Option Errno) :
    Except Errno Unit × State :=
  match newNode s data with
  | .error errno => (.error errno, s)
  | .ok s' =>
    let n := s.allocated
    match s'.nodes data.fd, ctl with
    | some _, _ => (.error EEXIST, s')
    | none, some errno => (.error errno, s')
    | none, none =>
      let s' := s'.setEpoll data.fd (some (n, (s'.node n).event))
      let s' := place R s' n (absTimeout timeout now)
      (.ok (), s'.setEntry data.fd (some n))

/-- The old node of `poller_del` and `poller_mod` gets its result: by the pipe, or by the callback
when the poller is stopped. -/
def takeOut (s : State) (n : NodeId) (state : PrState) : State :=
  let s := s.setNode n fun k => { k with state := state }
  if s.stopped then { s with called := s.called ++ [n] }
  else
    let s := s.setNode n fun k => { k with removed := true }
    { s with pipe := s.pipe ++ [n] }

/-- `poller_del`. -/
def pollerDel (s : State) (fd : Fd) : Except Errno Unit × State :=
  match fdError s fd with
  | some errno => (.error errno, s)
  | none =>
    match s.nodes fd with
    | none => (.error ENOENT, s)
    | some n =>
      let s := (unlink R (s.setEntry fd none) n).setEpoll fd none
      (.ok (), (takeOut s n .deleted).setDeadline n none)

/-- `poller_mod`. -/
def pollerMod (s : State) (data : Data) (timeout : Int) (now : Timespec) (ctl : Option Errno) :
    Except Errno Unit × State :=
  match newNode s data with
  | .error errno => (.error errno, s)
  | .ok s' =>
    let n := s.allocated
    match s'.nodes data.fd, ctl with
    | none, _ => (.error ENOENT, s')
    | some _, some errno => (.error errno, s')
    | some orig, none =>
      let s' := s'.setEpoll data.fd (some (n, (s'.node n).event))
      let s' := (takeOut (unlink R s' orig) orig .modified).setDeadline orig none
      let s' := place R s' n (absTimeout timeout now)
      (.ok (), s'.setEntry data.fd (some n))

/-- `poller_set_timeout`. -/
def pollerSetTimeout (s : State) (fd : Fd) (timeout : Int) (now : Timespec) :
    Except Errno Unit × State :=
  match fdError s fd with
  | some errno => (.error errno, s)
  | none =>
    match s.nodes fd with
    | none => (.error ENOENT, s)
    | some n => (.ok (), place R (unlink R s n) n (absTimeout timeout now))

/-- `poller_add_timer`. -/
def pollerAddTimer (s : State) (value now : Timespec) : State :=
  let n := s.allocated
  let s := s.alloc { Node.blank with data := { operation := .timer, fd := -1 } }
  place R s n (some (now.plus value.sec value.nsec value.nsec_lt))

/-- `poller_del_timer`. -/
def pollerDelTimer (s : State) (n : NodeId) : Except Errno Unit × State :=
  if (s.node n).removed then (.error ENOENT, s)
  else
    let s := s.setNode n fun k => { k with removed := true }
    let s := (unlink R s n).setNode n fun k => { k with state := .deleted }
    (.ok (), { s with called := s.called ++ [n] }.setDeadline n none)

end Containers

/-- `__poller_set_timer`. -/
def pollerSetTimer (s : State) : State :=
  let node :=
    if listEmpty s.links .timeoList then none
    else some (listEntry (s.links.next .timeoList))
  let node :=
    match s.treeFirst, node with
    | none, node => node
    | some first, none => some first
    | some first, some n =>
      if timeoutCmp (s.node first).timeout (s.node n).timeout < 0 then some first else some n
  setTimerfd s ((node.map fun n => (s.node n).timeout).getD .zero)

/-! ## Steps -/

inductive Label
  | add (data : Data) (timeout : Int) (now : Timespec) (ctl : Option Errno)
  | mod (data : Data) (timeout : Int) (now : Timespec) (ctl : Option Errno)
  | setTimeout (fd : Fd) (timeout : Int) (now : Timespec)
  | del (fd : Fd)
  | addTimer (value now : Timespec)
  | delTimer (n : NodeId)
  | setTimer
  deriving DecidableEq, Repr

/-- The clock reading of a call. -/
def Label.now : Label → Option Timespec
  | .add _ _ now _ | .mod _ _ now _ | .setTimeout _ _ now | .addTimer _ now => some now
  | _ => none

/-- The clock does not go back, and `poller_del_timer` is given a timer. -/
def enabled (s : State) (l : Label) : Bool :=
  (match l.now with
    | some now => s.clock.ns ≤ now.ns
    | none => true) &&
  (match l with
    | .delTimer n => n < s.allocated ∧ (s.node n).data.fd < 0
    | _ => true)

def call (R : Rebalance) (s : State) : Label → State
  | .add data timeout now ctl => (pollerAdd R s data timeout now ctl).2
  | .mod data timeout now ctl => (pollerMod R s data timeout now ctl).2
  | .setTimeout fd timeout now => (pollerSetTimeout R s fd timeout now).2
  | .del fd => (pollerDel R s fd).2
  | .addTimer value now => pollerAddTimer R s value now
  | .delTimer n => (pollerDelTimer R s n).2
  | .setTimer => pollerSetTimer s

def step (R : Rebalance) (s : State) (l : Label) : Option State :=
  if enabled s l then some { call R s l with clock := l.now.getD s.clock } else none

/-- A new poller; the monotonic clock is past 0. -/
def system (R : Rebalance) : System State Label where
  Init s := ∃ maxOpenFiles stopped clock, clock ≠ .zero ∧
    s = State.created maxOpenFiles stopped clock
  step := step R

end WorkflowKernel.Poller.Table
