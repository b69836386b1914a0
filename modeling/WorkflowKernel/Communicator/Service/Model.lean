import WorkflowKernel.Communicator.Server.Release

/-!
# The references of a service and of its targets

`CommService` and `CommServiceTarget` over the server model: `accept` makes a target and takes a
reference to the service for it, a session that `create_request` makes takes one to its target, and
they are dropped by `handle_listen_result` when it gives up on the connection, behind the release of
an entry, in the destructor of a session, in `shutdown_service`, and for the service when a target
is freed.

A step is one counter update with the code around it that touches no counter, or a step of the
server model. A thread between the end of a connection and its `target->decref()`, and one in
`decref` that has brought the target's counter to 0 and not dropped the service yet, are states of
their own. A target is named like its one connection.

The service is reliable, `shutdown_service` is called once, and no `accept` comes behind it. The
calls of `reply` and `CommServiceTarget::shutdown` are made with a session.
-/

namespace WorkflowKernel.Communicator.Service

open WorkflowKernel.Transition
open WorkflowKernel.Communicator.Server (NewSession)

/-- `CommServiceTarget`, and the threads that have a hand in its references. -/
structure Target where
  /-- `accept` has made it. -/
  made : Bool
  /-- The result of `accept` is not handled yet. -/
  queued : Bool
  /-- `handle_listen_result` has given up on the connection. -/
  failed : Bool
  /-- How often `decref` was called for the connection. -/
  dropped : Nat
  ref : Int
  /-- The sessions that are not destroyed. -/
  sessions : Nat
  /-- Threads in `decref` that saw 0 and are about to drop the service and to delete the target. -/
  dying : Nat
  freed : Nat
  deriving DecidableEq, Repr

/-- Not made yet. -/
def Target.absent : Target where
  made := false
  queued := false
  failed := false
  dropped := 0
  ref := 0
  sessions := 0
  dying := 0
  freed := 0

/-- `CommServiceTarget::incref`. -/
def Target.incref (k : Target) : Target := { k with ref := k.ref + 1 }

/-- The counter update of `CommServiceTarget::decref`. -/
def Target.decref (k : Target) : Target :=
  { k with ref := k.ref - 1, dying := if k.ref - 1 = 0 then k.dying + 1 else k.dying }

/-- Where `shutdown_service` stands. -/
inductive Shutdown
  | none
  /-- `listen_fd` is closed. -/
  | closed
  | drained
  /-- The service's own reference is dropped. -/
  | dropped
  deriving DecidableEq, Repr

structure State (C : Type) where
  server : Server.State C
  target : C → Target
  /-- The targets that were made; no step reads it. -/
  targets : List C
  /-- `service->ref`. -/
  ref : Int
  /-- The calls of `handle_unbound`. -/
  unbound : Nat
  shutdown : Shutdown

variable {C : Type} [DecidableEq C]

def State.updTarget (s : State C) (c : C) (f : Target → Target) : State C :=
  { s with target := Function.update s.target c (f (s.target c)) }

/-- `CommService::incref`. -/
def State.incref (s : State C) : State C := { s with ref := s.ref + 1 }

/-- `CommService::decref`. -/
def State.decref (s : State C) : State C :=
  { s with ref := s.ref - 1, unbound := if s.ref - 1 = 0 then s.unbound + 1 else s.unbound }

/-- Behind `bind`. -/
def State.bound (C : Type) (listenFd : Int) : State C where
  server := .listening C listenFd
  target := fun _ => .absent
  targets := []
  ref := 1
  unbound := 0
  shutdown := .none

/-! ## The listening side -/

/-- `Communicator::accept`, which gives up when `new` or `init` fails. -/
def accept (s : State C) (c : C) (init : Bool) : Option (State C) :=
  if s.shutdown ≠ .dropped ∧ (s.target c).made = false then
    if init then
      some { (s.incref).updTarget c fun k => { k with made := true, queued := true, ref := 1 } with
        targets := s.targets ++ [c] }
    else some s
  else none

/-- What `handle_listen_result` meets with: a connection that it adds with a timeout, no entry from
`accept_conn`, or a failure of `mpoller_add`. -/
inductive Listen
  | added (timeout : Int)
  | noEntry
  | notAdded
  deriving DecidableEq, Repr

/-- `handle_listen_result`, up to the `decref` of its failing exits. -/
def handleListenResult (s : State C) (c : C) (o : Listen) : Option (State C) :=
  if (s.target c).queued then
    match o with
    | .added timeout =>
      (Server.step s.server (.acceptConn c timeout)).map fun server =>
        { s with server := server }.updTarget c fun k => { k with queued := false }
    | .noEntry | .notAdded => some (s.updTarget c fun k => { k with queued := false, failed := true })
  else none

/-- `shutdown_service`, up to `service->drain(-1)`. -/
def shutdownService (s : State C) : Option (State C) :=
  if s.shutdown = .none then
    (Server.step s.server .shutdownService).map fun server =>
      { s with server := server, shutdown := .closed }
  else none

/-- `shutdown_service` drains. -/
def shutdownServiceDrain (s : State C) : Option (State C) :=
  if s.shutdown = .closed then
    (Server.step s.server .shutdownServiceDrain).map fun server =>
      { s with server := server, shutdown := .drained }
  else none

/-- `shutdown_service` drops the service's own reference. -/
def shutdownServiceDecref (s : State C) : Option (State C) :=
  if s.shutdown = .drained then some { s.decref with shutdown := .dropped } else none

/-! ## Connections and sessions -/

/-- A step of the server model, except for those that the functions above take. -/
def serverStep (s : State C) (a : Server.Label C) : Option (State C) :=
  let next := (Server.step s.server a).map fun server => { s with server := server }
  match a with
  | .acceptConn _ _ | .shutdownService | .shutdownServiceDrain => none
  | .createRequestSession c (.session _ _ _) =>
    next.map fun s => s.updTarget c fun k => { k.incref with sessions := k.sessions + 1 }
  | .replyReliable c | .targetShutdown c => if 0 < (s.target c).sessions then next else none
  | _ => next

/-- `target->decref()` behind the end of its connection. -/
def dropConn (s : State C) (c : C) : Option (State C) :=
  let k := s.target c
  if k.dropped < (s.server.conn c).released + k.failed.toNat then
    some (s.updTarget c fun k => { k.decref with dropped := k.dropped + 1 })
  else none

/-- `target->decref()` in the destructor of a session. -/
def destroySession (s : State C) (c : C) : Option (State C) :=
  if 0 < (s.target c).sessions then
    some (s.updTarget c fun k => { k.decref with sessions := k.sessions - 1 })
  else none

/-- The rest of `CommServiceTarget::decref` when the counter has come to 0. -/
def free (s : State C) (c : C) : Option (State C) :=
  if 0 < (s.target c).dying then
    some ((s.decref).updTarget c fun k => { k with dying := k.dying - 1, freed := k.freed + 1 })
  else none

/-! ## The system -/

inductive Label (C : Type)
  | accept (c : C) (init : Bool)
  | handleListenResult (c : C) (o : Listen)
  | shutdownService
  | shutdownServiceDrain
  | shutdownServiceDecref
  | server (a : Server.Label C)
  | dropConn (c : C)
  | destroySession (c : C)
  | free (c : C)
  deriving DecidableEq, Repr

def step (s : State C) : Label C → Option (State C)
  | .accept c init => accept s c init
  | .handleListenResult c o => handleListenResult s c o
  | .shutdownService => shutdownService s
  | .shutdownServiceDrain => shutdownServiceDrain s
  | .shutdownServiceDecref => shutdownServiceDecref s
  | .server a => serverStep s a
  | .dropConn c => dropConn s c
  | .destroySession c => destroySession s c
  | .free c => free s c

/-- A service from `bind` on. -/
def system (C : Type) [DecidableEq C] : System (State C) (Label C) where
  Init s := ∃ listenFd, s = State.bound C listenFd
  step := step

/-- The target that a step uses. `accept` makes it, and the thread that saw 0 deletes it. -/
def Label.uses : Label C → Option C
  | .handleListenResult c _ | .dropConn c | .destroySession c => some c
  | .server a => a.uses
  | .accept _ _ | .shutdownService | .shutdownServiceDrain | .shutdownServiceDecref | .free _ => none

end WorkflowKernel.Communicator.Service
