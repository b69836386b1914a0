import Mathlib.Logic.Basic

/-!
# States and error numbers of the communicator

The enumerations that the server, the client and the datagram model share: `CONN_STATE_*` of a
connection entry, `CS_STATE_*` of a session's `handle()`, `PR_ST_*` of a poller result, and the
error numbers that the code stores itself.
-/

namespace WorkflowKernel.Communicator

/-- `CONN_STATE_*`. -/
inductive ConnState
  | connecting
  | connected
  | receiving
  | success
  | idle
  | keepalive
  | closing
  | error
  deriving DecidableEq, Repr

/-- `CS_STATE_*`. -/
inductive CsState
  | success
  | error
  | stopped
  | toreply
  deriving DecidableEq, Repr

/-- `PR_ST_*`. -/
inductive PrState
  | success
  | finished
  | error
  | deleted
  | modified
  | stopped
  deriving DecidableEq, Repr

/-- A result that ends an operation of the poller. -/
def PrState.terminal : PrState → Bool
  | .success | .modified => false
  | _ => true

/-- A value of `errno`. -/
abbrev Errno := Nat

def ENOENT : Errno := 2
def EINVAL : Errno := 22
def EBADMSG : Errno := 74
def EOVERFLOW : Errno := 75
def ECONNRESET : Errno := 104

/-- The `vectors` of `send_message` and of `reply_message_unreliable`. -/
def ENCODE_IOV_MAX : Nat := 2048

end WorkflowKernel.Communicator
