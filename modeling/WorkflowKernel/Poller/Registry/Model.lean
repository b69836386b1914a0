import Mathlib.Logic.Function.Basic
import WorkflowKernel.Communicator.Types
import WorkflowKernel.Lib.Transition

/-!
# The node table under concurrency

`poller_add`, `poller_del` and `poller_mod` on any number of threads, against the poller thread that
handles the events of one `epoll_wait` and then the pipe. Every handler that gives a node up ends in
`__poller_remove_node`, which reads `node->removed` before it takes the mutex: that read, each lock
acquisition, each critical section and each access outside the lock is one step.

A node keeps its number for good. Its list or tree is the flag `inRbtree`, which the section that
inserts it picks. The fields after the program counters count what the laws are about, and no step
reads them: `foreign` lists the nodes that were cleared from the table, or deregistered, by a step
that was about another node.
-/

namespace WorkflowKernel.Poller.Registry

open WorkflowKernel.Transition
open WorkflowKernel.Communicator

abbrev NodeId := Nat
abbrev Fd := Nat
abbrev Tid := Nat

def POLLER_EVENTS_MAX : Nat := 256

/-- `POLLER_BUFSIZE / sizeof(void *)`. -/
def PIPE_READ_MAX : Nat := 32768

/-- `struct __poller_node`. -/
structure Node where
  fd : Fd
  inRbtree : Bool
  removed : Bool
  state : PrState
  /-- How often it was unlinked from its list or tree. -/
  unlinked : Nat
  /-- How often the callback got it with a terminal result. -/
  terminal : Nat
  deriving DecidableEq, Repr

/-- What a thread takes into the lock. -/
inductive Op
  | add (node : NodeId)
  | del (fd : Fd)
  | mod (node : NodeId)
  deriving DecidableEq, Repr

inductive ThreadPc
  | idle
  | lock (op : Op)
  | body (op : Op)
  deriving DecidableEq, Repr

/-- The rest of the `for` loop over the events, and `has_pipe_event`. -/
structure Batch where
  events : List NodeId
  pipe : Bool
  deriving DecidableEq, Repr

/-- Where the poller thread is. `result` is what the handler will store in `node->state`. -/
inductive PollerPc
  | wait
  | events (rest : Batch)
  /-- `removed = node->removed`. -/
  | read (node : NodeId) (result : PrState) (rest : Batch)
  | lock (node : NodeId) (removed : Bool) (result : PrState) (rest : Batch)
  | body (node : NodeId) (removed : Bool) (result : PrState) (rest : Batch)
  /-- After `__poller_remove_node` returned 0. -/
  | finish (node : NodeId) (result : PrState) (rest : Batch)
  /-- `__poller_handle_pipe` reads. -/
  | pipe
  | notify (nodes : List NodeId)
  deriving DecidableEq, Repr

inductive Owner
  | poller
  | thread (t : Tid)
  deriving DecidableEq, Repr

structure State where
  node : NodeId → Node
  allocated : NodeId
  nodes : Fd → Option NodeId
  epoll : Fd → Option NodeId
  pipe : List NodeId
  mutex : Option Owner
  poller : PollerPc
  thread : Tid → ThreadPc
  foreign : List NodeId

def Node.blank : Node where
  fd := 0
  inRbtree := false
  removed := false
  state := .success
  unlinked := 0
  terminal := 0

/-- A poller that was started and has no node. -/
def State.started : State where
  node _ := .blank
  allocated := 0
  nodes _ := none
  epoll _ := none
  pipe := []
  mutex := none
  poller := .wait
  thread _ := .idle
  foreign := []

/-- What a thread calls. -/
inductive Request
  | add (fd : Fd)
  | del (fd : Fd)
  | mod (fd : Fd)
  deriving DecidableEq, Repr

inductive Label
  -- other threads
  | call (t : Tid) (r : Request)
  | acquire (t : Tid)
  /-- `inRbtree` is where `__poller_insert_node` puts a node, `ok` what `epoll_ctl` returns. -/
  | body (t : Tid) (inRbtree ok : Bool)
  -- the poller thread
  | wait (events : List NodeId) (pipe : Bool)
  /-- The handler of the next event returns, or gives the node up with a result. -/
  | event (result : Option PrState)
  | eventsEnd
  | readRemoved
  | pollerAcquire
  | pollerBody
  | finish
  | readPipe (n : Nat)
  | notify
  deriving DecidableEq, Repr

/-! ## The parts of the sections -/

def State.setNode (s : State) (n : NodeId) (f : Node → Node) : State :=
  { s with node := Function.update s.node n (f (s.node n)) }

/-- A step about `n` takes what `slot` holds away. -/
def strangers (slot : Option NodeId) (n : NodeId) : List NodeId :=
  slot.toList.filter (· ≠ n)

/-- `poller->nodes[fd] = NULL`, in a step about `n`. -/
def State.clear (s : State) (n : NodeId) (fd : Fd) : State :=
  { s with
    nodes := Function.update s.nodes fd none
    foreign := s.foreign ++ strangers (s.nodes fd) n }

/-- `__poller_delete_fd`, in a step about `n`. -/
def State.deleteFd (s : State) (n : NodeId) (fd : Fd) : State :=
  { s with
    epoll := Function.update s.epoll fd none
    foreign := s.foreign ++ strangers (s.epoll fd) n }

/-- `__poller_modify_fd`, which replaces the registration of `n`. -/
def State.modifyFd (s : State) (n : NodeId) (fd : Fd) (new : NodeId) : State :=
  { s with
    epoll := Function.update s.epoll fd (some new)
    foreign := s.foreign ++ strangers (s.epoll fd) n }

/-- `__poller_tree_erase` or `list_delete`. -/
def State.unlink (s : State) (n : NodeId) : State :=
  s.setNode n fun k => { k with inRbtree := false, unlinked := k.unlinked + 1 }

/-- `poller->callback` with a terminal result. -/
def State.callback (s : State) (n : NodeId) : State :=
  s.setNode n fun k => { k with terminal := k.terminal + 1 }

/-- `state` and `removed` are set and the node is written to the pipe. -/
def State.takeOut (s : State) (n : NodeId) (state : PrState) : State :=
  let s := s.setNode n fun k => { k with state := state, removed := true }
  { s with pipe := s.pipe ++ [n] }

/-- The new node goes into its list or tree and into the table. -/
def State.install (s : State) (n : NodeId) (inRbtree : Bool) : State :=
  let s := s.setNode n fun k => { k with inRbtree := inRbtree }
  { s with nodes := Function.update s.nodes (s.node n).fd (some n) }

/-! ## The critical sections -/

/-- `poller_add`. The node is freed when it fails. -/
def pollerAdd (s : State) (n : NodeId) (inRbtree ok : Bool) : State :=
  let fd := (s.node n).fd
  match s.nodes fd with
  | some _ => s
  | none =>
    if ok then
      ({ s with epoll := Function.update s.epoll fd (some n) }).install n inRbtree
    else s

/-- `poller_del`. -/
def pollerDel (s : State) (fd : Fd) : State :=
  match s.nodes fd with
  | some n => (((s.clear n fd).unlink n).deleteFd n fd).takeOut n .deleted
  | none => s

/-- `poller_mod`. The new node is freed when it fails. -/
def pollerMod (s : State) (n : NodeId) (inRbtree ok : Bool) : State :=
  let fd := (s.node n).fd
  match s.nodes fd with
  | some orig =>
    if ok then
      (((s.modifyFd orig fd n).unlink orig).takeOut orig .modified).install n inRbtree
    else s
  | none => s

/-- The section of `__poller_remove_node`, with the `removed` read before. -/
def pollerRemoveNode (s : State) (n : NodeId) (removed : Bool) : State :=
  if removed then s
  else
    let fd := (s.node n).fd
    ((s.clear n fd).unlink n).deleteFd n fd

def pollerBody (s : State) (op : Op) (inRbtree ok : Bool) : State :=
  match op with
  | .add n => pollerAdd s n inRbtree ok
  | .del fd => pollerDel s fd
  | .mod n => pollerMod s n inRbtree ok

/-- `__poller_new_node`. -/
def State.newNode (s : State) (fd : Fd) : State :=
  { s.setNode s.allocated fun _ => { Node.blank with fd := fd } with allocated := s.allocated + 1 }

def State.goto (s : State) (t : Tid) (pc : ThreadPc) : State :=
  { s with thread := Function.update s.thread t pc }

/-! ## Steps -/

/-- What `epoll_wait` may report: registered nodes, each once. -/
def mayReport (s : State) (events : List NodeId) : Prop :=
  events.Nodup ∧ events.length ≤ POLLER_EVENTS_MAX ∧
    ∀ n ∈ events, s.epoll (s.node n).fd = some n

instance (s : State) (events : List NodeId) : Decidable (mayReport s events) :=
  inferInstanceAs (Decidable (_ ∧ _))

def threadCall (s : State) (t : Tid) : Request → State
  | .add fd => (s.newNode fd).goto t (.lock (.add s.allocated))
  | .del fd => s.goto t (.lock (.del fd))
  | .mod fd => (s.newNode fd).goto t (.lock (.mod s.allocated))

def step (s : State) : Label → Option State
  | .call t r => if s.thread t = .idle then some (threadCall s t r) else none
  | .acquire t =>
    match s.thread t, s.mutex with
    | .lock op, none => some { s.goto t (.body op) with mutex := some (.thread t) }
    | _, _ => none
  | .body t inRbtree ok =>
    match s.thread t with
    | .body op => some { (pollerBody s op inRbtree ok).goto t .idle with mutex := none }
    | _ => none
  | .wait events pipe =>
    if s.poller = .wait ∧ mayReport s events then
      some { s with poller := .events { events := events, pipe := pipe } }
    else none
  | .event result =>
    match s.poller with
    | .events { events := n :: ns, pipe := pipe } =>
      match result with
      | none => some { s with poller := .events { events := ns, pipe := pipe } }
      | some r => some { s with poller := .read n r { events := ns, pipe := pipe } }
    | _ => none
  | .eventsEnd =>
    match s.poller with
    | .events { events := [], pipe := true } => some { s with poller := .pipe }
    | .events { events := [], pipe := false } => some { s with poller := .wait }
    | _ => none
  | .readRemoved =>
    match s.poller with
    | .read n r rest => some { s with poller := .lock n (s.node n).removed r rest }
    | _ => none
  | .pollerAcquire =>
    match s.poller, s.mutex with
    | .lock n removed r rest, none =>
      some { s with poller := .body n removed r rest, mutex := some .poller }
    | _, _ => none
  | .pollerBody =>
    match s.poller with
    | .body n removed r rest =>
      some { pollerRemoveNode s n removed with
        poller := if removed then .events rest else .finish n r rest
        mutex := none }
    | _ => none
  | .finish =>
    match s.poller with
    | .finish n r rest =>
      some { (s.setNode n fun k => { k with state := r }).callback n with poller := .events rest }
    | _ => none
  | .readPipe n =>
    match s.poller with
    | .pipe =>
      if n ≤ s.pipe.length ∧ n ≤ PIPE_READ_MAX then
        some { s with poller := .notify (s.pipe.take n), pipe := s.pipe.drop n }
      else none
    | _ => none
  | .notify =>
    match s.poller with
    | .notify (n :: ns) => some { s.callback n with poller := .notify ns }
    | .notify [] => some { s with poller := .wait }
    | _ => none

def system : System State Label where
  Init s := s = State.started
  step := step

end WorkflowKernel.Poller.Registry
