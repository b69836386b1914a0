import WorkflowKernel.MsgQueue.Control

/-!
# The queue with a log of what it enqueued and returned

`Traced` runs the queue beside a log that its laws are stated over: the messages in the order in
which they were stored, what each swap found, what each get returned, and which calls of
`msgqueue_set_nonblock` were made and are in force. The log is written from the step and read by
nobody, so a traced run is a run of the queue (`reaches_queue`).
-/

namespace WorkflowKernel.MsgQueue

open WorkflowKernel.Transition

variable {Tid : Type} [DecidableEq Tid]

/-- What `__msgqueue_swap` finds when it exchanges the buffers: the first message of each, and the
flag. -/
structure Swap where
  getFirst : Option Msg
  putFirst : Option Msg
  nonblock : Bool
  deriving DecidableEq, Repr

/-- A get that has returned, with the swap it made if it made one. -/
structure Return (Tid : Type) where
  thread : Tid
  msg : Option Msg
  swap : Option Swap
  deriving DecidableEq, Repr

structure Traced (Tid : Type) where
  queue : State Tid
  /-- The messages stored in a buffer, in the order in which they were. -/
  enqueued : List Msg
  /-- The swap of the get at hand. -/
  swap : Tid → Option Swap
  returns : List (Return Tid)
  /-- `msgqueue_set_nonblock` was called. -/
  nonblockCalled : Bool
  /-- A `msgqueue_set_nonblock` has completed, and the flag was not cleared since it was stored. -/
  nonblockInForce : Bool

/-- The message that a step stores in a buffer. -/
def stored (s s' : State Tid) : Label Tid → List Msg
  | .step t _ =>
    match s.pc t, s'.pc t with
    | .putBody msg, .putUnlock _ | .headBody msg, .headNotify _ | .headWrite msg, _ => [msg]
    | _, _ => []
  | _ => []

/-- The swap of the get at hand: none at its start, then the one that it makes. -/
def Traced.swapOf (r : Traced Tid) (s' : State Tid) (t : Tid) : Option Swap :=
  match r.queue.pc t, s'.pc t with
  | .getLock, _ => none
  | .swapBody _, .swapUnlock _ =>
    some
      { getFirst := r.queue.mem r.queue.getHead
        putFirst := r.queue.mem r.queue.putHead
        nonblock := r.queue.nonblock }
  | _, _ => r.swap t

/-- The return of a get. -/
def Traced.returning (r : Traced Tid) : Label Tid → List (Return Tid)
  | .step t _ =>
    match r.queue.pc t with
    | .getUnlock msg => [{ thread := t, msg := msg, swap := r.swap t }]
    | _ => []
  | _ => []

/-- The end of a `msgqueue_set_nonblock`, and the store of a `msg_queue_set_block`. -/
def Traced.inForceAfter (r : Traced Tid) : Label Tid → Bool
  | .step t _ =>
    match r.queue.pc t with
    | .nonblockUnlock => r.queue.nonblock
    | .blockStore => false
    | _ => r.nonblockInForce
  | _ => r.nonblockInForce

def Label.callsNonblock : Label Tid → Bool
  | .call _ .setNonblock => true
  | _ => false

/-- The log after the step `a` from `r` to the queue `s`. -/
def Traced.log (r : Traced Tid) (s : State Tid) (a : Label Tid) : Traced Tid where
  queue := s
  enqueued := r.enqueued ++ stored r.queue s a
  swap := Function.update r.swap a.thread (r.swapOf s a.thread)
  returns := r.returns ++ r.returning a
  nonblockCalled := r.nonblockCalled || a.callsNonblock
  nonblockInForce := r.inForceAfter a

def Traced.step (r : Traced Tid) (a : Label Tid) : Option (Traced Tid) :=
  (MsgQueue.step r.queue a).map fun s => r.log s a

/-- A new queue and an empty log. -/
def Traced.create (Tid : Type) (maxlen : Nat) : Traced Tid where
  queue := msgqueueCreate Tid maxlen
  enqueued := []
  swap _ := none
  returns := []
  nonblockCalled := false
  nonblockInForce := false

/-- The traced queue, created with a bound that `bound` admits. -/
def traced (Tid : Type) [DecidableEq Tid] (bound : Nat → Prop) :
    System (Traced Tid) (Label Tid) where
  Init r := ∃ maxlen, bound maxlen ∧ r = Traced.create Tid maxlen
  step := Traced.step

theorem Traced.step_eq {r r' : Traced Tid} {a : Label Tid} (h : r.step a = some r') :
    ∃ s, MsgQueue.step r.queue a = some s ∧ r' = r.log s a := by
  obtain ⟨s, hs, heq⟩ := Option.map_eq_some_iff.mp h
  exact ⟨s, hs, heq.symm⟩

/-- A traced run is a run of the queue. -/
theorem reaches_queue {bound : Nat → Prop} {ok : State Tid → Label Tid → Prop} {r : Traced Tid}
    (h : (traced Tid bound).Reaches (fun r a => ok r.queue a) r) :
    (system Tid).Reaches ok r.queue := by
  induction h with
  | init hr =>
    obtain ⟨maxlen, -, rfl⟩ := hr
    exact .init ⟨maxlen, rfl⟩
  | step _ ha hstep ih =>
    obtain ⟨s, hs, rfl⟩ := Traced.step_eq hstep
    exact .step ih ha hs

end WorkflowKernel.MsgQueue
