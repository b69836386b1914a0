import WorkflowKernel.Communicator.Types
import WorkflowKernel.Lib.Transition
import WorkflowKernel.Send.Vectors

/-!
# Sending a message

`Communicator::send_message`: the loop of `send_message_sync` on the caller's array of vectors, the
copy that `send_message_async` makes of the last `cnt` of them when the socket would block, and the
write events that the poller then handles in `__poller_handle_write`.

A step is one `writev` and the loop that steps over what it accepted, or the code between two
calls. The kernel accepts a prefix of the at most `IOV_MAX` vectors offered, none of it only when
they are all empty, or fails. `accepted` is what it accepted so far: `step` records it from the
answer of the call and the vectors it was offered, and neither loop reads or writes it.
-/

namespace WorkflowKernel.Send

open WorkflowKernel.Transition
open WorkflowKernel.Communicator

def IOV_MAX : Nat := 1024

/-- Where the message stands. `off` and `iov` are `vectors` and `write_iov` as indices into the
array. -/
inductive Pc
  /-- The loop of `send_message_sync`, with `cnt > 0`. -/
  | sync (off cnt : Nat)
  /-- After that loop. -/
  | synced
  /-- `send_message_sync` has returned `cnt > 0`. -/
  | returned (cnt : Nat)
  /-- The node is registered for write events. -/
  | node (iov iovcnt : Nat)
  /-- The loop of `__poller_handle_write`, with `iovcnt > 0` and `count` bytes sent. -/
  | write (iov iovcnt count : Nat)
  /-- `__poller_handle_write` goes to remove the node. -/
  | leave (iov iovcnt : Nat) (error : Errno)
  /-- The node was removed by another thread. -/
  | removed (iov : Nat)
  /-- The result is `PR_ST_FINISHED`. -/
  | finished
  /-- The rest is given up: a `writev` failed, or the registration or the removal did. -/
  | failed (iov : Nat) (error : Errno)
  deriving DecidableEq, Repr

structure State (β : Type) where
  vectors : List Iovec
  pc : Pc
  accepted : List β

/-- What a `writev` returns. -/
inductive Writev
  | accept (n : Nat)
  | again
  | fail (error : Errno)
  deriving DecidableEq, Repr

inductive Label
  | writev (o : Writev)
  /-- `send_message_async`, whose `malloc` and registration succeed or not. -/
  | handOver (ok : Bool) (error : Errno)
  /-- The socket is writable. -/
  | event
  /-- `__poller_remove_node` returns. -/
  | removeNode (removed : Bool)
  deriving DecidableEq, Repr

variable {β : Type}

/-- `while (cnt > 0)`. -/
def syncLoop (off cnt : Nat) : Pc := if 0 < cnt then .sync off cnt else .synced

/-- `while (node->data.iovcnt > 0)`. -/
def writeLoop (iov iovcnt count : Nat) : Pc :=
  if 0 < iovcnt then .write iov iovcnt count else .leave iov 0 0

/-- `Communicator::partial_written` moves the deadline, and returns 0 in any case. -/
def partialWritten (_count : Nat) : Int := 0

/-- `send_message` has encoded the message. -/
def State.encoded (vectors : List Iovec) : State β where
  vectors := vectors
  pc := syncLoop 0 vectors.length
  accepted := []

/-- The vectors that a `writev` is offered. -/
def offered (vectors : List Iovec) (off cnt : Nat) : List Iovec :=
  (vectors.drop off).take (if cnt ≤ IOV_MAX then cnt else IOV_MAX)

/-- The arguments of the `writev` that the loop at the place calls. -/
def State.offers (s : State β) : List Iovec :=
  match s.pc with
  | .sync off cnt => offered s.vectors off cnt
  | .write iov iovcnt _ => offered s.vectors iov iovcnt
  | _ => []

/-- What the kernel may accept of the vectors offered. -/
def mayAccept (mem : Nat → β) (vs : List Iovec) (n : Nat) : Prop :=
  n ≤ (denote mem vs).length ∧ (n = 0 → (denote mem vs).length = 0)

instance (mem : Nat → β) (vs : List Iovec) (n : Nat) : Decidable (mayAccept mem vs n) :=
  inferInstanceAs (Decidable (_ ∧ _))

/-- What the kernel accepts with its answer: nothing when the call fails, and `none` when it cannot
answer so. -/
def Writev.accepts (mem : Nat → β) (vs : List Iovec) : Writev → Option (List β)
  | .accept n => if mayAccept mem vs n then some ((denote mem vs).take n) else none
  | .again | .fail _ => some []

/-- The array after the loop over its entries from `off` on. -/
def writeBack (vectors : List Iovec) (off : Nat) (entries : List Iovec) : List Iovec :=
  vectors.take off ++ entries

/-- One turn of the loop of `send_message_sync`. -/
def sendMessageSync (s : State β) (off cnt : Nat) : Writev → State β
  | .accept n =>
    let r := advance id n (s.vectors.drop off)
    { s with
      vectors := writeBack s.vectors off r.2
      pc := syncLoop (off + r.1) (cnt - r.1) }
  | .again => { s with pc := .returned cnt }
  | .fail error => { s with pc := .failed off error }

/-- `send_message_async(end - cnt, cnt, entry)`: the copy of the last `cnt` vectors. -/
def sendMessageAsync (s : State β) (cnt : Nat) (ok : Bool) (error : Errno) : State β :=
  let first := s.vectors.length - cnt
  if ok then { s with vectors := (s.vectors.drop first).take cnt, pc := .node 0 cnt }
  else { s with pc := .failed first error }

/-- A vector that `__poller_handle_write` has sent whole. -/
def spentVector (v : Iovec) : Iovec := { base := v.base + v.len, len := 0 }

/-- One turn of the loop of `__poller_handle_write`. -/
def handleWrite (s : State β) (iov iovcnt count : Nat) : Writev → State β
  | .accept n =>
    let r := advance spentVector n (s.vectors.drop iov)
    { s with
      vectors := writeBack s.vectors iov r.2
      pc := writeLoop (iov + r.1) (iovcnt - r.1) (count + n) }
  | .again =>
    if count = 0 then { s with pc := .node iov iovcnt }
    else if 0 ≤ partialWritten count then { s with pc := .node iov iovcnt }
    else { s with pc := .leave iov iovcnt 0 }
  | .fail error => { s with pc := .leave iov iovcnt error }

/-- The end of `__poller_handle_write`. -/
def handleWriteEnd (s : State β) (iov iovcnt : Nat) (error : Errno) (removed : Bool) : State β :=
  if removed then { s with pc := .removed iov }
  else if iovcnt = 0 then { s with pc := .finished }
  else { s with pc := .failed iov error }

/-- The loop that calls `writev`, behind its answer. -/
def loopBody (s : State β) (o : Writev) : Option (State β) :=
  match s.pc with
  | .sync off cnt => some (sendMessageSync s off cnt o)
  | .write iov iovcnt count => some (handleWrite s iov iovcnt count o)
  | _ => none

def step (mem : Nat → β) (s : State β) : Label → Option (State β)
  | .writev o => do
    let bytes ← o.accepts mem s.offers
    let t ← loopBody s o
    return { t with accepted := s.accepted ++ bytes }
  | .handOver ok error =>
    match s.pc with
    | .returned cnt => some (sendMessageAsync s cnt ok error)
    | _ => none
  | .event =>
    match s.pc with
    | .node iov iovcnt => some { s with pc := writeLoop iov iovcnt 0 }
    | _ => none
  | .removeNode removed =>
    match s.pc with
    | .leave iov iovcnt error => some (handleWriteEnd s iov iovcnt error removed)
    | _ => none

/-- One message of at most `ENCODE_IOV_MAX` blocks. -/
def system (mem : Nat → β) (vectors : List Iovec) : System (State β) Label where
  Init s := vectors.length ≤ ENCODE_IOV_MAX ∧ s = State.encoded vectors
  step := step mem

end WorkflowKernel.Send
