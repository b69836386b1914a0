import WorkflowKernel.Communicator.Types
import WorkflowKernel.Lib.Transition
import WorkflowKernel.ListHead

/-!
# An asynchronous I/O service

`ioservice_linux.cc` and what `communicator.cc` does with a service: `io_bind`, `request` from any
thread, `aio_finish` on the poller thread, `handle_aio_result` on the handler threads, and one
`io_unbind` that leads to `shutdown_io_service` and to the last `decref`.

A step is one section on `m_mutex` or one access to what threads share: an atomic update of `ref`, a
call of the kernel, the sending or taking of a result. The threads other than the poller's have no
names: `threads` lists where each one stands that is inside a call.

The kernel has the `submitted` iocbs, completes them in any order and hands each event to one
`io_getevents`. The poller follows its contract for the event descriptor: it reads the counter, calls
`aio_finish` once for each completion counted, and ends the registration with one terminal result,
that of a removed node through the pipe. A session is requested again only after its `handle()`.
`log` is read by no step except for that last rule.
-/

namespace WorkflowKernel.IoService

open WorkflowKernel.Transition WorkflowKernel.ListHead WorkflowKernel.Communicator

/-- `IOS_STATE_SUCCESS` and `IOS_STATE_ERROR`. -/
inductive IosState
  | success
  | error
  deriving DecidableEq, Repr

/-- `m_session_list` and the `m_list` of the sessions. -/
inductive Cell (S : Type)
  | sessionList
  | session (x : S)
  deriving DecidableEq, Repr

/-- The results of the event descriptor. -/
inductive Result (S : Type)
  | success (x : S)
  | deleted
  | error (error : Errno)
  | stopped (error : Errno)
  deriving DecidableEq, Repr

/-- Where the poller thread stands with the event descriptor. -/
inductive Phase (S : Type)
  | rest
  /-- In the loop of `__poller_handle_event`, with completions left to fetch. -/
  | event (cnt : Nat)
  /-- In `aio_finish` after `io_getevents`. -/
  | incref (cnt : Nat) (x : S) (res : Int)
  deriving DecidableEq, Repr

/-- What a thread is about to do. -/
inductive Pc (S : Type)
  | listDel (x : S)
  | handle (x : S)
  | shutdown
  | decref
  /-- At the `while` of the last `decref`. -/
  | drain
  /-- Inside that loop. -/
  | getevents
  deriving DecidableEq, Repr

/-- What the log records. -/
inductive Event (S : Type)
  | accepted (x : S)
  | refused (x : S) (error : Errno)
  | handled (x : S) (state : IosState) (error : Errno)
  | stop (error : Errno)
  | unbound
  deriving DecidableEq, Repr

/-- The service, its sessions, the kernel, the registration and the threads. -/
structure State (S : Type) where
  eventFd : Int
  ref : Int
  links : Links (Cell S)
  res : S → Int
  submitted : List S
  completed : List (S × Int)
  /-- The counter behind `event_fd`. -/
  eventCnt : Nat
  registered : Bool
  /-- The removed node is in the poller's pipe. -/
  pipe : Bool
  poller : Phase S
  results : List (Result S)
  threads : List (Pc S)
  /-- `io_unbind` has been called. -/
  unbinding : Bool
  log : List (Event S)

variable {S : Type} [DecidableEq S]

/-- A service after `init` and `io_bind`, in any memory. -/
def State.bound (mem : Links (Cell S)) (res : S → Int) (eventFd : Int) : State S where
  eventFd := eventFd
  ref := 1
  links := listInit mem .sessionList
  res := res
  submitted := []
  completed := []
  eventCnt := 0
  registered := true
  pipe := false
  poller := .rest
  results := []
  threads := []
  unbinding := false
  log := []

/-- The calls of `request` that returned 0. -/
def State.accepts (s : State S) (x : S) : Nat := s.log.count (.accepted x)

def Event.isHandled (x : S) : Event S → Bool
  | .handled y _ _ => x = y
  | _ => false

/-- The calls of `handle()`. -/
def State.handles (s : State S) (x : S) : Nat := s.log.countP (Event.isHandled x)

/-- The calls of `handle_unbound()`. -/
def State.unbounds (s : State S) : Nat := s.log.count .unbound

def State.enter (s : State S) (p : Pc S) : State S := { s with threads := p :: s.threads }

/-- A thread at `p` goes on. -/
def State.leave (s : State S) (p : Pc S) : State S := { s with threads := s.threads.erase p }

def State.write (s : State S) (e : Event S) : State S := { s with log := s.log ++ [e] }

def State.setRes (s : State S) (x : S) (res : Int) : State S :=
  { s with res := Function.update s.res x res }

/-! ## request -/

/-- How `prepare` and `io_submit` end. -/
inductive Submit
  | submitted
  | failed (error : Errno)
  deriving DecidableEq, Repr

/-- `request` returns -1. -/
def refuse (s : State S) (x : S) (error : Errno) : State S :=
  (s.setRes x (-(error : Int))).write (.refused x error)

/-- `request` returns 0. -/
def accept (s : State S) (x : S) : State S :=
  State.write
    { s with
      submitted := s.submitted ++ [x]
      links := listAddTail s.links .sessionList (.session x) }
    (.accepted x)

/-- `IOService::request`. -/
def request (s : State S) (x : S) (o : Submit) : State S :=
  if s.eventFd < 0 then refuse s x ENOENT
  else match o with
    | .submitted => accept s x
    | .failed error => refuse s x error

/-! ## The kernel and the poller thread -/

/-- The kernel ends an operation and counts it on `event_fd`. -/
def complete (s : State S) (x : S) (res : Int) : State S :=
  { s with
    submitted := s.submitted.erase x
    completed := s.completed ++ [(x, res)]
    eventCnt := s.eventCnt + 1 }

/-- `__poller_handle_event` has read the counter. -/
def readEvent (s : State S) : State S := { s with eventCnt := 0, poller := .event s.eventCnt }

/-- `io_getevents` in `aio_finish`. -/
def aioFinish (s : State S) (cnt : Nat) (x : S) (res : Int) : State S :=
  { s with completed := s.completed.erase (x, res), poller := .incref cnt x res }

/-- `aio_finish` takes its reference and returns the session, which is sent. -/
def aioFinished (s : State S) (cnt : Nat) (x : S) (res : Int) : State S :=
  { s.setRes x res with
    ref := s.ref + 1
    poller := .event cnt
    results := s.results ++ [.success x] }

/-- The poller ends the registration with a result. -/
def State.endRegistration (s : State S) (r : Result S) : State S :=
  { s with registered := false, results := s.results ++ [r] }

/-- What the poller thread has not fetched is counted again. -/
def State.putBack (s : State S) (cnt : Nat) : State S :=
  { s with eventCnt := s.eventCnt + cnt, poller := .rest }

/-- `__poller_handle_event` gives up. A removed node is left to `__poller_handle_pipe`. -/
def eventFails (s : State S) (cnt : Nat) (error : Errno) : State S :=
  if s.registered then (s.putBack cnt).endRegistration (.error error) else s.putBack cnt

/-- `__poller_handle_pipe` reads the removed node. -/
def handlePipe (s : State S) : State S :=
  { s with pipe := false, results := s.results ++ [.deleted] }

/-- `poller_stop` ends the registration. -/
def pollerStop (s : State S) (error : Errno) : State S := s.endRegistration (.stopped error)

/-- `io_unbind`, with `mpoller_del`. -/
def ioUnbind (s : State S) : State S :=
  if s.registered then { s with unbinding := true, registered := false, pipe := true }
  else { s with unbinding := true }.enter .shutdown

/-! ## The handler threads -/

def State.taken (s : State S) (r : Result S) : State S :=
  { s with results := s.results.erase r }

/-- A handler takes a result. -/
def take (s : State S) (r : Result S) : State S :=
  match r with
  | .success x => (s.taken r).enter (.listDel x)
  | .deleted => (s.taken r).enter .shutdown
  | .error error | .stopped error => (s.taken r).write (.stop error)

/-- `list_del` in the section of `handle_aio_result`. -/
def listDel (s : State S) (x : S) : State S :=
  { s.leave (.listDel x) with links := listDelete s.links (.session x) }.enter (.handle x)

/-- `session->handle` for a result. -/
def callHandle (s : State S) (x : S) (res : Int) : State S :=
  if 0 ≤ res then s.write (.handled x .success 0) else s.write (.handled x .error (-res).toNat)

/-- `handle_aio_result` calls `handle`. -/
def handle (s : State S) (x : S) : State S :=
  ((callHandle s x (s.res x)).leave (.handle x)).enter .decref

/-- The section of `shutdown_io_service`. -/
def shutdown (s : State S) : State S := ({ s with eventFd := -1 }.leave .shutdown).enter .decref

/-- The atomic update of `decref`. -/
def decref (s : State S) : State S :=
  if s.ref - 1 = 0 then ({ s with ref := s.ref - 1 }.leave .decref).enter .drain
  else { s with ref := s.ref - 1 }.leave .decref

/-- The test of the `while` in `decref`, and `handle_unbound` behind it. -/
def drain (s : State S) : State S :=
  if listEmpty s.links .sessionList then (s.leave .drain).write .unbound
  else (s.leave .drain).enter .getevents

/-- An event is fetched and its session leaves the list. -/
def State.drained (s : State S) (x : S) (res : Int) : State S :=
  { s with
    completed := s.completed.erase (x, res)
    links := listDelete s.links (.session x) }.setRes x res

/-- The body of the `while` in `decref`, when `io_getevents` has an event. -/
def getevents (s : State S) (x : S) (res : Int) : State S :=
  ((callHandle (s.drained x res) x res).leave .getevents).enter .drain

/-! ## The transition system -/

inductive Label (S : Type)
  | request (x : S) (o : Submit)
  | complete (x : S) (res : Int)
  | readEvent
  | aioFinish (x : S) (res : Int)
  | aioFinished
  /-- The loop is over. -/
  | eventEnds
  /-- `aio_finish` returned NULL. -/
  | aioFinishNull (error : Errno)
  /-- A read or `malloc` failed. -/
  | eventFails (error : Errno)
  | handlePipe
  | pollerStop (error : Errno)
  | ioUnbind
  | take (r : Result S)
  | listDel (x : S)
  | handle (x : S)
  | shutdown
  | decref
  | drain
  | getevents (x : S) (res : Int)
  deriving DecidableEq, Repr

/-- The poller thread takes an event in `aio_finish`. -/
def stepFinish (s : State S) (x : S) (res : Int) : Option (State S) :=
  match s.poller with
  | .event (cnt + 1) => if (x, res) ∈ s.completed then some (aioFinish s cnt x res) else none
  | _ => none

/-- The poller thread goes on behind `io_getevents`. -/
def stepFinished (s : State S) : Option (State S) :=
  match s.poller with
  | .incref cnt x res => some (aioFinished s cnt x res)
  | _ => none

/-- The poller thread leaves `__poller_handle_event` because `io_getevents` failed. -/
def stepNull (s : State S) (error : Errno) : Option (State S) :=
  match s.poller with
  | .event (cnt + 1) => some (eventFails s cnt error)
  | _ => none

/-- The poller thread leaves `__poller_handle_event`. -/
def stepFails (s : State S) (error : Errno) : Option (State S) :=
  match s.poller with
  | .event cnt => some (eventFails s cnt error)
  | _ => none

/-- `if` the step is enabled. -/
def guarded (p : Prop) [Decidable p] (s : State S) : Option (State S) := if p then some s else none

def step (s : State S) : Label S → Option (State S)
  | .request x o => guarded (s.accepts x = s.handles x) (request s x o)
  | .complete x res => guarded (x ∈ s.submitted) (complete s x res)
  | .readEvent => guarded (s.registered = true ∧ s.poller = .rest) (readEvent s)
  | .aioFinish x res => stepFinish s x res
  | .aioFinished => stepFinished s
  | .eventEnds => guarded (s.poller = .event 0) { s with poller := .rest }
  | .aioFinishNull error => stepNull s error
  | .eventFails error => stepFails s error
  | .handlePipe => guarded (s.pipe = true ∧ s.poller = .rest) (handlePipe s)
  | .pollerStop error => guarded (s.registered = true ∧ s.poller = .rest) (pollerStop s error)
  | .ioUnbind => guarded (s.unbinding = false) (ioUnbind s)
  | .take r => guarded (r ∈ s.results) (take s r)
  | .listDel x => guarded (.listDel x ∈ s.threads) (listDel s x)
  | .handle x => guarded (.handle x ∈ s.threads) (handle s x)
  | .shutdown => guarded (.shutdown ∈ s.threads) (shutdown s)
  | .decref => guarded (.decref ∈ s.threads) (decref s)
  | .drain => guarded (.drain ∈ s.threads) (drain s)
  | .getevents x res =>
    guarded (.getevents ∈ s.threads ∧ (x, res) ∈ s.completed) (getevents s x res)

/-- A service that starts bound, with a descriptor. -/
def system (S : Type) [DecidableEq S] : System (State S) (Label S) where
  Init s := ∃ mem res, ∃ eventFd : Int, 0 ≤ eventFd ∧ s = State.bound mem res eventFd
  step := step

end WorkflowKernel.IoService
