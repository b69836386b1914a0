import WorkflowKernel.Lib.Chain
import WorkflowKernel.Lib.Transition

/-!
# The message queue

`msgqueue.cc`: two singly linked buffers behind two mutexes. Producers append to the put buffer
under `put_mutex`; a consumer pops the get buffer under `get_mutex` and, when that is empty, swaps
the two buffers under both. `msgqueue_put_head` inserts in front of whichever buffer the next get
reads.

The model is the memory the code works on. A cell is one `void *`: `head1`, `head2` or the link
word of a message, and `get_head`, `put_head` and `put_tail` are addresses of cells, so that the
swap exchanges addresses as the code does. `linkoff` only converts between a message and its link
word and is the constructor `Addr.link`. `msg_cnt` is a number, since a message occupies memory
and 2 ^ 64 of them do not exist; `msg_max - 1` is the `size_t` subtraction of the source.

Each thread has a program counter. A step of a thread is one lock, unlock, try_lock, one test and
body under a held mutex, or one read or write of `*get_head`. A condition wait parks the thread,
leaving it in the condition's wait list; being notified, or waking spuriously, sends it back to the
mutex. `std::mutex::try_lock` returns true exactly when it acquired the lock, and `unlock` frees
the mutex whoever holds it.

The fields after the mutexes are the log the laws are stated over, and no step reads them.
-/

namespace WorkflowKernel.MsgQueue

open WorkflowKernel.Transition
open WorkflowKernel.Lib

/-- A message. Every put is given a message of its own. -/
abbrev Msg := Nat

/-- A cell that holds a `void *`. -/
inductive Addr
  | head1
  | head2
  | link (msg : Msg)
  deriving DecidableEq, Repr

/-- Where a thread stands. The message of a put, the old `get_head` of a swap and the message of a
get are the locals of the source. -/
inductive Pc
  | idle
  -- msg_queue_put
  | putLock (msg : Msg)
  | putBody (msg : Msg)
  | putParked (msg : Msg)
  | putWake (msg : Msg)
  | putUnlock (msg : Msg)
  | putNotify (msg : Msg)
  -- msgqueue_put_head
  | headLock (msg : Msg)
  | headLoop (msg : Msg)
  | headTry (msg : Msg)
  | headUnlockPut (msg : Msg)
  | headRead (msg : Msg)
  | headWrite (msg : Msg)
  | headUnlockGet (msg : Msg)
  | headBody (msg : Msg)
  | headParked (msg : Msg)
  | headWake (msg : Msg)
  | headNotify (msg : Msg)
  | headRelease (msg : Msg)
  -- msgqueue_get and __msgqueue_swap
  | getLock
  | getTest
  | swapLock (getHead : Addr)
  | swapBody (getHead : Addr)
  | swapParked (getHead : Addr)
  | swapWake (getHead : Addr)
  | swapUnlock (cnt : Nat)
  | getMsg
  | getNext (msg : Msg)
  | getWrite (msg : Msg) (next : Option Msg)
  | getUnlock (msg : Option Msg)
  -- msgqueue_set_nonblock and msg_queue_set_block
  | nonblockStore
  | nonblockLock
  | nonblockNotify
  | nonblockUnlock
  | blockStore
  -- a null pointer was dereferenced
  | crashed
  deriving DecidableEq, Repr

/-- `struct __msgqueue`, the threads that use it, and the log. -/
structure State (Tid : Type) where
  msgMax : Nat
  msgCnt : Nat
  nonblock : Bool
  mem : Addr → Option Msg
  getHead : Addr
  putHead : Addr
  putTail : Addr
  getMutex : Option Tid
  putMutex : Option Tid
  getCond : List Tid
  putCond : List Tid
  pc : Tid → Pc
  /-- The next message a put is given. -/
  fresh : Msg
  /-- The messages whose put or head put has returned. -/
  completed : List Msg
  /-- The messages that gets have unlinked, each with the thread of that get. -/
  taken : List (Tid × Msg)
  /-- What gets have returned. -/
  returned : List (Tid × Option Msg)
  /-- Every change of `*get_head`: the thread that made it and the holder of `get_mutex` then. -/
  headWrites : List (Tid × Option Tid)

/-- `size_t` subtraction of one. -/
def sizePred (n : Nat) : Nat := (n + (UInt64.size - 1)) % UInt64.size

/-- `msgqueue_create(maxlen, linkoff)`, with no thread in any operation. -/
def msgqueueCreate (Tid : Type) (maxlen : Nat) : State Tid where
  msgMax := maxlen
  msgCnt := 0
  nonblock := false
  mem := fun _ => none
  getHead := .head1
  putHead := .head2
  putTail := .head2
  getMutex := none
  putMutex := none
  getCond := []
  putCond := []
  pc := fun _ => .idle
  fresh := 0
  completed := []
  taken := []
  returned := []
  headWrites := []

/-- The operations a thread may call. -/
inductive Call
  | put
  | putHead
  | get
  | setNonblock
  | setBlock
  deriving DecidableEq, Repr

/-- What happens next: thread `t` enters an operation; thread `t` takes its next step, where a
`notify_one` wakes `woken`; a parked thread wakes spuriously. -/
inductive Label (Tid : Type)
  | call (t : Tid) (c : Call)
  | step (t : Tid) (woken : Option Tid)
  | spurious (t : Tid)
  deriving DecidableEq, Repr

variable {Tid : Type} [DecidableEq Tid]

/-- A woken thread goes back for `put_mutex`. -/
def Pc.wake : Pc → Pc
  | .putParked msg => .putWake msg
  | .headParked msg => .headWake msg
  | .swapParked getHead => .swapWake getHead
  | pc => pc

def State.goto (s : State Tid) (t : Tid) (pc : Pc) : State Tid :=
  { s with pc := Function.update s.pc t pc }

/-- `put_mutex` is taken by `t`, which goes on at `pc`. -/
def State.lockPut (s : State Tid) (t : Tid) (pc : Pc) : Option (State Tid) :=
  if s.putMutex = none then some ({ s with putMutex := some t }.goto t pc) else none

def State.unlockPut (s : State Tid) (t : Tid) (pc : Pc) : State Tid :=
  { s with putMutex := none }.goto t pc

/-- `get_cond.notify_one()`: a waiter, if there is one. -/
def State.notifyGet (s : State Tid) : Option Tid → Option (State Tid)
  | none => if s.getCond = [] then some s else none
  | some w =>
    if w ∈ s.getCond then
      some { s with getCond := s.getCond.erase w, pc := Function.update s.pc w (s.pc w).wake }
    else none

/-- `put_cond.notify_all()`. -/
def State.notifyAllPut (s : State Tid) : State Tid :=
  { s with putCond := [], pc := fun t => if t ∈ s.putCond then (s.pc t).wake else s.pc t }

/-- The swap notifies the producers when the buffer it takes is full. -/
def State.notifyFull (s : State Tid) : State Tid :=
  if sizePred s.msgMax < s.msgCnt then s.notifyAllPut else s

/-- The change of `*get_head` by `t` goes to the log. -/
def State.logHead (s : State Tid) (t : Tid) : State Tid :=
  { s with headWrites := s.headWrites ++ [(t, s.getMutex)] }

/-- Thread `t` enters an operation. A put stores a null pointer in its message's link word before
it goes for the mutex. -/
def enter (s : State Tid) (t : Tid) : Call → State Tid
  | .put =>
    { s with mem := Function.update s.mem (.link s.fresh) none, fresh := s.fresh + 1 }.goto t
      (.putLock s.fresh)
  | .putHead => { s with fresh := s.fresh + 1 }.goto t (.headLock s.fresh)
  | .get => s.goto t .getLock
  | .setNonblock => s.goto t .nonblockStore
  | .setBlock => s.goto t .blockStore

/-- `msg_queue_put`, from the mutex on. -/
def msgQueuePut (s : State Tid) (t : Tid) (woken : Option Tid) : Pc → Option (State Tid)
  | .putLock msg | .putWake msg => s.lockPut t (.putBody msg)
  | .putBody msg =>
    if s.msgCnt = s.msgMax ∧ s.nonblock = false then
      some ({ s with putCond := s.putCond ++ [t] }.unlockPut t (.putParked msg))
    else
      some ({ s with
        mem := Function.update s.mem s.putTail (some msg)
        putTail := .link msg
        msgCnt := s.msgCnt + 1 }.goto t (.putUnlock msg))
  | .putUnlock msg => some (s.unlockPut t (.putNotify msg))
  | .putNotify msg => do
    let s ← s.notifyGet woken
    some ({ s with completed := s.completed ++ [msg] }.goto t .idle)
  | _ => none

/-- `msgqueue_put_head`. The branch of the loop is entered when `try_lock() == 0`, that is, when
`try_lock` returned false; a `try_lock` that acquired the mutex goes round the loop again. -/
def msgqueuePutHead (s : State Tid) (t : Tid) (woken : Option Tid) : Pc → Option (State Tid)
  | .headLock msg => s.lockPut t (.headLoop msg)
  | .headLoop msg =>
    match s.mem s.getHead with
    | some _ => some (s.goto t (.headTry msg))
    | none => some (s.goto t (.headBody msg))
  | .headTry msg =>
    if s.getMutex = none then some ({ s with getMutex := some t }.goto t (.headLoop msg))
    else some (s.goto t (.headUnlockPut msg))
  | .headUnlockPut msg => some (s.unlockPut t (.headRead msg))
  | .headRead msg =>
    some ({ s with mem := Function.update s.mem (.link msg) (s.mem s.getHead) }.goto t
      (.headWrite msg))
  | .headWrite msg =>
    some ({ s.logHead t with mem := Function.update s.mem s.getHead (some msg) }.goto t
      (.headUnlockGet msg))
  | .headUnlockGet msg =>
    some ({ s with getMutex := none, completed := s.completed ++ [msg] }.goto t .idle)
  | .headWake msg => s.lockPut t (.headBody msg)
  | .headBody msg =>
    if s.msgCnt = s.msgMax ∧ s.nonblock = true then
      some ({ s with putCond := s.putCond ++ [t] }.unlockPut t (.headParked msg))
    else
      let mem := Function.update s.mem (.link msg) (s.mem s.putHead)
      some ({ s with
        putTail := if mem (.link msg) = none then .link msg else s.putTail
        mem := Function.update mem s.putHead (some msg)
        msgCnt := s.msgCnt + 1 }.goto t (.headNotify msg))
  | .headNotify msg => do
    let s ← s.notifyGet woken
    some (s.goto t (.headRelease msg))
  | .headRelease msg =>
    some ({ s with completed := s.completed ++ [msg] }.unlockPut t .idle)
  | _ => none

/-- `__msgqueue_swap`. The old `get_head` is read before the mutex is taken. -/
def msgqueueSwap (s : State Tid) (t : Tid) : Pc → Option (State Tid)
  | .swapLock getHead | .swapWake getHead => s.lockPut t (.swapBody getHead)
  | .swapBody getHead =>
    if s.msgCnt = 0 ∧ s.nonblock = false then
      some ({ s with getCond := s.getCond ++ [t] }.unlockPut t (.swapParked getHead))
    else
      some ({ s.notifyFull.logHead t with
        getHead := s.putHead
        putHead := getHead
        putTail := getHead
        msgCnt := 0 }.goto t (.swapUnlock s.msgCnt))
  | .swapUnlock cnt =>
    some (s.unlockPut t (if 0 < cnt then .getMsg else .getUnlock none))
  | _ => none

/-- `msgqueue_get`. The pop reads `*get_head` for the message, reads it again for the link to
store, and writes it. -/
def msgqueueGet (s : State Tid) (t : Tid) : Pc → Option (State Tid)
  | .getLock =>
    if s.getMutex = none then some ({ s with getMutex := some t }.goto t .getTest) else none
  | .getTest =>
    match s.mem s.getHead with
    | some _ => some (s.goto t .getMsg)
    | none => some (s.goto t (.swapLock s.getHead))
  | .getMsg =>
    match s.mem s.getHead with
    | some msg => some (s.goto t (.getNext msg))
    | none => some (s.goto t .crashed)
  | .getNext msg =>
    match s.mem s.getHead with
    | some first => some (s.goto t (.getWrite msg (s.mem (.link first))))
    | none => some (s.goto t .crashed)
  | .getWrite msg next =>
    some ({ s.logHead t with
      mem := Function.update s.mem s.getHead next
      taken := s.taken ++ [(t, msg)] }.goto t (.getUnlock (some msg)))
  | .getUnlock msg =>
    some ({ s with getMutex := none, returned := s.returned ++ [(t, msg)] }.goto t .idle)
  | _ => none

/-- `msgqueue_set_nonblock` and `msg_queue_set_block`. The flag is stored outside the mutex. -/
def msgqueueSetNonblock (s : State Tid) (t : Tid) (woken : Option Tid) : Pc → Option (State Tid)
  | .nonblockStore => some ({ s with nonblock := true }.goto t .nonblockLock)
  | .nonblockLock => s.lockPut t .nonblockNotify
  | .nonblockNotify => do
    let s ← s.notifyGet woken
    some (s.notifyAllPut.goto t .nonblockUnlock)
  | .nonblockUnlock => some (s.unlockPut t .idle)
  | .blockStore => some ({ s with nonblock := false }.goto t .idle)
  | _ => none

/-- The next step of the thread `t`. -/
def exec (s : State Tid) (t : Tid) (woken : Option Tid) : Option (State Tid) :=
  (msgQueuePut s t woken (s.pc t)).or <| (msgqueuePutHead s t woken (s.pc t)).or <|
    (msgqueueSwap s t (s.pc t)).or <| (msgqueueGet s t (s.pc t)).or <|
      msgqueueSetNonblock s t woken (s.pc t)

/-- A parked thread wakes without a notification. -/
def wakeSpuriously (s : State Tid) (t : Tid) : Option (State Tid) :=
  if t ∈ s.getCond then
    some { s with getCond := s.getCond.erase t, pc := Function.update s.pc t (s.pc t).wake }
  else if t ∈ s.putCond then
    some { s with putCond := s.putCond.erase t, pc := Function.update s.pc t (s.pc t).wake }
  else none

def step (s : State Tid) : Label Tid → Option (State Tid)
  | .call t c => if s.pc t = .idle then some (enter s t c) else none
  | .step t woken => exec s t woken
  | .spurious t => wakeSpuriously s t

/-- The queue under any number of threads, created with any capacity. -/
def system (Tid : Type) [DecidableEq Tid] : System (State Tid) (Label Tid) where
  Init s := ∃ maxlen, s = msgqueueCreate Tid maxlen
  step := step

end WorkflowKernel.MsgQueue
