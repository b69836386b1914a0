import WorkflowKernel.Communicator.Types
import WorkflowKernel.Lib.Transition
import Mathlib.Logic.Function.Basic

/-!
# The connections of a reliable service

The server side of `communicator.cc`: a connection entry between `accept_conn` and its release, the
poller thread in `create_request` and `append_message`, the handler threads in
`handle_incoming_request` and `handle_reply_result`, the user's `reply` and
`CommServiceTarget::shutdown`, and `CommService::drain` and `shutdown_service`.

A step is one mutex-protected section or the unlocked code between two sections. A section on
`service->m_mutex` is one step; it often lies inside a section on `target->m_mutex`, so the latter is
held across steps and `Holder` says by whom and what comes next. A service's target has one
connection, so its idle list is the flag `idle`. `list_add`, `list_add_tail`, `list_del` and
`list_delete` insert that entry into, and remove it from, the named list.

The poller is an environment that follows its contract for one descriptor: a registration ends with
one terminal result, a deleted or replaced one through the pipe, which the poller thread reads when
it is not in the middle of a read event of that descriptor. A result goes to the queue and to some
handler, in any order.

`session->passive` and the references of targets and sessions are not part of this model: a target
is replied to or shut down whenever its idle list is not empty, whoever calls. `log` is read by no
step.
-/

namespace WorkflowKernel.Communicator.Server

open WorkflowKernel.Transition

/-- `PD_OP_READ` and `PD_OP_WRITE`. -/
inductive Op
  | read
  | write
  deriving DecidableEq, Repr

/-- Where the poller thread stands with a new message of the connection. -/
inductive Phase
  | rest
  /-- `create_request` saw `CONN_STATE_IDLE` and waits for the target's mutex. -/
  | check
  /-- It goes for the service's mutex. -/
  | service
  /-- It let the entry pass and calls `new_session`. -/
  | session
  deriving DecidableEq, Repr

/-- Who holds the target's mutex, and what is next. -/
inductive Holder
  | none
  /-- `handle_incoming_request` saw `CONN_STATE_KEEPALIVE` and goes for the service's mutex. -/
  | terminal
  /-- `reply_reliable` has unlinked the entry and sends. -/
  | replySend
  /-- `send_message_sync` has sent everything and goes for the service's mutex. -/
  | replyService
  /-- `handle_reply_result` has added the read operation and goes for the service's mutex. -/
  | resultService (error : Errno)
  deriving DecidableEq, Repr

/-- `struct CommConnEntry`, its registration in the poller and the results on their way. -/
structure Conn where
  accepted : Bool
  state : ConnState
  error : Errno
  seq : Nat
  ref : Int
  released : Nat
  /-- The target's idle list holds the entry. -/
  idle : Bool
  /-- The operation in the poller's table and its timeout. -/
  reg : Option (Op × Int)
  /-- The removed nodes in the poller's pipe. -/
  pipe : List (Op × PrState)
  /-- A message is being received. -/
  msg : Bool
  phase : Phase
  holder : Holder
  readResults : List (PrState × Errno)
  writeResults : List (PrState × Errno)
  /-- Threads that have left the sections and are about to call `handle`, if there is a session to
  call it of, and to drop their reference. -/
  tails : List (Option (CsState × Errno))
  deriving DecidableEq, Repr

/-- The lists that an entry's link serves. -/
inductive ListName
  | alive
  | idle
  deriving DecidableEq, Repr

/-- What the log records: an entry linked, and whether it was on neither list; an entry unlinked,
and whether it was on that list; a reply completed, and whether `listen_fd` was negative then; an
entry drained. -/
inductive Event (C : Type)
  | link (list : ListName) (c : C) (off : Bool)
  | unlink (list : ListName) (c : C) (on : Bool)
  | completed (c : C) (late : Bool)
  | drained (c : C)
  deriving DecidableEq, Repr

/-- `CommService`, its connections and the log. -/
structure State (C : Type) where
  listenFd : Int
  stopFlag : Bool
  aliveList : List C
  /-- Calls of `shutdown_service` that have closed `listen_fd` and not drained yet. -/
  shutdowns : Nat
  conn : C → Conn
  /-- The calls of `handle()`. -/
  handled : List (C × CsState × Errno)
  log : List (Event C)

/-- No connection yet. -/
def Conn.absent : Conn where
  accepted := false
  state := .connecting
  error := 0
  seq := 0
  ref := 0
  released := 0
  idle := false
  reg := none
  pipe := []
  msg := false
  phase := .rest
  holder := .none
  readResults := []
  writeResults := []
  tails := []

/-- A listening service. -/
def State.listening (C : Type) (listenFd : Int) : State C where
  listenFd := listenFd
  stopFlag := false
  aliveList := []
  shutdowns := 0
  conn := fun _ => .absent
  handled := []
  log := []

/-! ## The poller's interface -/

/-- `mpoller_del`. -/
def mpollerDel (k : Conn) : Conn :=
  { k with reg := none, pipe := k.pipe ++ k.reg.toList.map fun r => (r.1, PrState.deleted) }

/-- `mpoller_set_timeout`. -/
def mpollerSetTimeout (timeout : Int) (k : Conn) : Conn :=
  { k with reg := k.reg.map fun r => (r.1, timeout) }

/-- A thread leaves the sections. -/
def Conn.leave (k : Conn) (call : Option (CsState × Errno)) : Conn :=
  { k with tails := k.tails ++ [call] }

variable {C : Type} [DecidableEq C]

def State.upd (s : State C) (c : C) (f : Conn → Conn) : State C :=
  { s with conn := Function.update s.conn c (f (s.conn c)) }

/-! ## The lists -/

/-- `list_add_tail` on `service->alive_list`. -/
def State.linkAlive (s : State C) (c : C) : State C :=
  { s with
    aliveList := s.aliveList ++ [c]
    log := s.log ++ [.link .alive c (decide (c ∉ s.aliveList ∧ (s.conn c).idle = false))] }

/-- `list_del` of an entry of `service->alive_list`. -/
def State.unlinkAlive (s : State C) (c : C) : State C :=
  { s with
    aliveList := s.aliveList.erase c
    log := s.log ++ [.unlink .alive c (decide (c ∈ s.aliveList))] }

/-- `list_add` on `target->idle_list`. -/
def State.linkIdle (s : State C) (c : C) : State C :=
  { s.upd c fun k => { k with idle := true } with
    log := s.log ++ [.link .idle c (decide (c ∉ s.aliveList ∧ (s.conn c).idle = false))] }

/-- `list_del` of an entry of `target->idle_list`. -/
def State.unlinkIdle (s : State C) (c : C) : State C :=
  { s.upd c fun k => { k with idle := false } with
    log := s.log ++ [.unlink .idle c (s.conn c).idle] }

/-! ## The poller thread -/

/-- `accept_conn` and the `mpoller_add` of `handle_listen_result`. -/
def acceptConn (s : State C) (c : C) (timeout : Int) : Option (State C) :=
  if (s.conn c).accepted then none
  else
    let k := { Conn.absent with
      accepted := true
      state := .connected
      ref := 1
      reg := some (.read, timeout) }
    some (s.upd c fun _ => if s.stopFlag then mpollerDel k else k)

/-- `create_request` returned NULL. The read event ends with an error, unless the node has been
removed from the table in the meantime. -/
def failRequest (error : Errno) (k : Conn) : Conn :=
  match k.reg with
  | some (.read, _) =>
    { k with
      phase := .rest
      msg := false
      reg := none
      readResults := k.readResults ++ [(.error, error)] }
  | _ => { k with phase := .rest, msg := false }

/-- `create_request` is called for the first byte of a message. -/
def createRequest (s : State C) (c : C) : Option (State C) :=
  let k := s.conn c
  if k.reg.map Prod.fst = some .read ∧ k.phase = .rest ∧ k.msg = false then
    some (s.upd c fun k => { k with phase := if k.state = .idle then .check else .service })
  else none

/-- It has had the target's mutex. -/
def createRequestChecked (s : State C) (c : C) : Option (State C) :=
  let k := s.conn c
  if k.phase = .check ∧ k.holder = .none then
    some (s.upd c fun k => { k with phase := .service })
  else none

/-- Its section on the service's mutex. -/
def createRequestService (s : State C) (c : C) : Option (State C) :=
  let k := s.conn c
  if k.phase = .service then
    if k.state = .keepalive then
      some ((s.unlinkAlive c).upd c fun k => { k with phase := .session })
    else if k.state = .connected then
      some (s.upd c fun k => { k with phase := .session })
    else some (s.upd c (failRequest EBADMSG))
  else none

/-- What `new_session` and `message_in` return: NULL and `errno`, or a session with the timeout that
`first_timeout_recv` computes for it and a message or none. -/
inductive NewSession
  | null (error : Errno)
  | session (timeout : Int) (messageIn : Bool) (error : Errno)
  deriving DecidableEq, Repr

/-- The rest of `create_request`. -/
def createRequestSession (s : State C) (c : C) (o : NewSession) : Option (State C) :=
  if (s.conn c).phase = .session then
    match o with
    | .null error => some (s.upd c (failRequest error))
    | .session timeout messageIn error =>
      let s := s.upd c fun k => mpollerSetTimeout timeout
        { k with seq := k.seq + 1, state := .receiving }
      if messageIn then some (s.upd c fun k => { k with phase := .rest, msg := true })
      else some (s.upd c (failRequest error))
  else none

/-- `append_message` when the message goes on. -/
def appendMessage (s : State C) (c : C) (timeout : Int) : Option (State C) :=
  if (s.conn c).msg ∧ (s.conn c).phase = .rest then some (s.upd c (mpollerSetTimeout timeout))
  else none

/-- `append_message` when the message is complete. -/
def appendMessageDone (s : State C) (c : C) : Option (State C) :=
  if (s.conn c).msg ∧ (s.conn c).phase = .rest then
    some (s.upd c fun k => mpollerSetTimeout (-1)
      { k with
        state := .success
        msg := false
        readResults := k.readResults ++ [(.success, 0)] })
  else none

/-- The poller thread ends the read operation: the stream ended, failed or timed out, `append`
reported an error, or the poller stopped. -/
def readEnds (s : State C) (c : C) (res : PrState × Errno) : Option (State C) :=
  let k := s.conn c
  if k.reg.map Prod.fst = some .read ∧ k.phase = .rest ∧
      (res.1 = .finished ∨ res.1 = .error ∨ res.1 = .stopped) then
    some (s.upd c fun k =>
      { k with reg := none, msg := false, readResults := k.readResults ++ [res] })
  else none

/-- The poller thread ends the write operation. -/
def writeEnds (s : State C) (c : C) (res : PrState × Errno) : Option (State C) :=
  let k := s.conn c
  if k.reg.map Prod.fst = some .write ∧ k.phase = .rest ∧
      (res.1 = .finished ∨ res.1 = .error ∨ res.1 = .stopped) then
    some (s.upd c fun k => { k with reg := none, writeResults := k.writeResults ++ [res] })
  else none

/-- The poller thread reads a removed node from the pipe. -/
def handlePipe (s : State C) (c : C) : Option (State C) :=
  let k := s.conn c
  match k.pipe with
  | [] => none
  | (op, state) :: rest =>
    if k.phase = .rest then
      some (s.upd c fun k => match op with
        | .read =>
          { k with pipe := rest, msg := false, readResults := k.readResults ++ [(state, 0)] }
        | .write => { k with pipe := rest, writeResults := k.writeResults ++ [(state, 0)] })
    else none

/-! ## The handler threads -/

/-- The state and the error that a terminal result stands for. -/
def csResult (res : PrState × Errno) : CsState × Errno :=
  match res.1 with
  | .finished => (.error, ECONNRESET)
  | .error => (.error, res.2)
  | _ => (.stopped, res.2)

/-- `handle_incoming_request`, up to the end of its section on the target's mutex or to the nested
section. -/
def handleIncomingRequest (s : State C) (c : C) (res : PrState × Errno) : Option (State C) :=
  let k := s.conn c
  if k.holder = .none then
    match res.1 with
    | .success =>
      if k.state = .success then
        some ((s.linkIdle c).upd c fun k =>
          { k with ref := k.ref + 1, state := .idle }.leave (some (.toreply, res.2)))
      else some (s.upd c fun k => k.leave (some (.toreply, res.2)))
    | _ =>
      match k.state with
      | .keepalive => some (s.upd c fun k => { k with holder := .terminal })
      | .idle => some ((s.unlinkIdle c).upd c fun k => k.leave none)
      | .error => some (s.upd c fun k => k.leave (some (.error, k.error)))
      | .receiving => some (s.upd c fun k => k.leave (some (csResult res)))
      -- only when another handler has the success result
      | .success => some (s.upd c fun k => { k with state := .closing })
      | _ => some (s.upd c fun k => k.leave none)
  else none

/-- The nested section of `handle_incoming_request`. -/
def handleIncomingRequestService (s : State C) (c : C) : Option (State C) :=
  let k := s.conn c
  if k.holder = .terminal then
    let s := if k.state = .keepalive then s.unlinkAlive c else s
    some (s.upd c fun k => { k with holder := .none }.leave none)
  else none

/-- `handle_read_result` of a service's connection, for one of the results. -/
def handleReadResult (s : State C) (c : C) (res : PrState × Errno) : Option (State C) :=
  if res ∈ (s.conn c).readResults then
    let s := s.upd c fun k => { k with readResults := k.readResults.erase res }
    if res.1 = .modified then some s else handleIncomingRequest s c res
  else none

/-- `listen_fd` has been closed. -/
def State.late (s : State C) : Bool := decide (s.listenFd < 0)

/-- A reply is completed. -/
def State.logCompleted (s : State C) (c : C) : State C :=
  { s with log := s.log ++ [.completed c s.late] }

/-- `handle_reply_result`, up to its section on the service's mutex: `timeout` is what
`keep_alive_timeout()` returns and `added` whether `mpoller_add` succeeds. -/
def handleReplyResult (s : State C) (c : C) (res : PrState × Errno) (timeout : Int)
    (added : Bool) : Option (State C) :=
  let k := s.conn c
  match res.1 with
  | .finished =>
    if timeout ≠ 0 then
      if k.holder = .none then
        if added ∧ k.reg = none then
          some (s.upd c fun k =>
            { k with
              ref := k.ref + 1
              reg := some (.read, timeout)
              holder := .resultService res.2 })
        else some ((s.upd c fun k => k.leave (some (.success, res.2))).logCompleted c)
      else none
    else some ((s.upd c fun k => k.leave (some (.success, res.2))).logCompleted c)
  | .error | .deleted | .stopped => some (s.upd c fun k => k.leave (some (csResult res)))
  | _ => some s

/-- `handle_write_result` of a service's connection, for one of the results. -/
def handleWriteResult (s : State C) (c : C) (res : PrState × Errno) (timeout : Int)
    (added : Bool) : Option (State C) :=
  if res ∈ (s.conn c).writeResults then
    handleReplyResult (s.upd c fun k => { k with writeResults := k.writeResults.erase res }) c res
      timeout added
  else none

/-- The section of `handle_reply_result` on the service's mutex. -/
def handleReplyResultService (s : State C) (c : C) : Option (State C) :=
  match (s.conn c).holder with
  | .resultService error =>
    let s :=
      if s.stopFlag = false ∧ 0 ≤ s.listenFd then
        (s.upd c fun k => { k with state := .keepalive }).linkAlive c
      else s.upd c fun k => { mpollerDel k with state := .closing }
    some ((s.upd c fun k =>
      { k with holder := .none }.leave (some (.success, error))).logCompleted c)
  | _ => none

/-- A thread that has left the sections calls `handle` and drops its reference. -/
def finish (s : State C) (c : C) (i : Nat) : Option (State C) := do
  let call ← (s.conn c).tails[i]?
  let s := s.upd c fun k =>
    { k with
      tails := k.tails.eraseIdx i
      ref := k.ref - 1
      released := if k.ref - 1 = 0 then k.released + 1 else k.released }
  some { s with handled := s.handled ++ call.toList.map fun h => (c, h) }

/-! ## The user -/

/-- `reply_reliable` unlinks the first entry of the idle list. -/
def replyReliable (s : State C) (c : C) : Option (State C) :=
  let k := s.conn c
  if k.holder = .none ∧ k.idle then
    some ((s.unlinkIdle c).upd c fun k => { k with holder := .replySend })
  else none

/-- `reply_reliable` when `message_out` gives nothing or `send_message` fails. -/
def replyFails (s : State C) (c : C) (error : Errno) : Option (State C) :=
  if (s.conn c).holder = .replySend then
    some (s.upd c fun k => { mpollerDel { k with error := error } with
      state := .error
      holder := .none })
  else none

/-- The tail of `send_message_sync`, up to its section: `timeout` is what `keep_alive_timeout()`
returns. -/
def sendMessageSync (s : State C) (c : C) (timeout : Int) : Option (State C) :=
  if (s.conn c).holder = .replySend then
    if timeout = 0 then
      some ((s.upd c fun k =>
        { mpollerDel { k with ref := k.ref + 1 } with
          state := .closing
          holder := .none }.leave (some (.success, 0))).logCompleted c)
    else
      some (s.upd c fun k =>
        mpollerSetTimeout timeout { k with ref := k.ref + 1, holder := .replyService })
  else none

/-- The section of `send_message_sync` on the service's mutex. -/
def sendMessageSyncService (s : State C) (c : C) : Option (State C) :=
  if (s.conn c).holder = .replyService then
    let s :=
      if 0 ≤ s.listenFd then (s.upd c fun k => { k with state := .keepalive }).linkAlive c else s
    some ((s.upd c fun k => { k with holder := .none }.leave (some (.success, 0))).logCompleted c)
  else none

/-- `send_message_async`, when it does not fail. -/
def sendMessageAsync (s : State C) (c : C) (timeout : Int) : Option (State C) :=
  let k := s.conn c
  if k.holder = .replySend then
    if k.state = .idle then
      match k.reg with
      | some (op, _) =>
        some (s.upd c fun k =>
          { k with
            reg := some (.write, timeout)
            pipe := k.pipe ++ [(op, .modified)]
            holder := .none })
      -- `mpoller_mod` failed with `ENOENT`
      | none => some (s.upd c fun k => { k with state := .receiving, holder := .none })
    else
      match k.reg with
      | none =>
        let f := fun k : Conn => { k with reg := some (.write, timeout), holder := .none }
        some (s.upd c fun k => if s.stopFlag then mpollerDel (f k) else f k)
      | some _ =>
        if k.state = .receiving then some (s.upd c fun k => { k with holder := .none }) else none
  else none

/-- `CommServiceTarget::shutdown` of a reliable service. -/
def targetShutdown (s : State C) (c : C) : Option (State C) :=
  let k := s.conn c
  if k.holder = .none ∧ k.idle then
    some ((s.unlinkIdle c).upd c fun k => { mpollerDel k with state := .closing })
  else none

/-- The body of the loop of `CommService::drain`. -/
def drainOne (s : State C) (c : C) : State C :=
  let s := (s.unlinkAlive c).upd c fun k => { mpollerDel k with state := .closing }
  { s with log := s.log ++ [.drained c] }

/-- The loop of `CommService::drain` over the entries of the alive list, with its counter. -/
def drainLoop (max : Int) : Int → List C → State C → State C
  | _, [], s => s
  | cnt, c :: rest, s =>
    if cnt = max then s else drainLoop max (cnt + 1) rest (drainOne s c)

/-- `CommService::drain`. -/
def drain (s : State C) (max : Int) : State C := drainLoop max 0 s.aliveList s

/-- `shutdown_service` closes the descriptor. -/
def shutdownService (s : State C) : State C :=
  { s with listenFd := -1, shutdowns := s.shutdowns + 1 }

/-- `shutdown_service` drains. -/
def shutdownServiceDrain (s : State C) : Option (State C) :=
  if 0 < s.shutdowns then some (drain { s with shutdowns := s.shutdowns - 1 } (-1)) else none

/-! ## The system -/

/-- What happens next, with the choices of the environment. -/
inductive Label (C : Type)
  | acceptConn (c : C) (timeout : Int)
  | createRequest (c : C)
  | createRequestChecked (c : C)
  | createRequestService (c : C)
  | createRequestSession (c : C) (o : NewSession)
  | appendMessage (c : C) (timeout : Int)
  | appendMessageDone (c : C)
  | readEnds (c : C) (res : PrState × Errno)
  | writeEnds (c : C) (res : PrState × Errno)
  | handlePipe (c : C)
  | handleReadResult (c : C) (res : PrState × Errno)
  | handleIncomingRequestService (c : C)
  | handleWriteResult (c : C) (res : PrState × Errno) (timeout : Int) (added : Bool)
  | handleReplyResultService (c : C)
  | finish (c : C) (i : Nat)
  | replyReliable (c : C)
  | replyFails (c : C) (error : Errno)
  | sendMessageSync (c : C) (timeout : Int)
  | sendMessageSyncService (c : C)
  | sendMessageAsync (c : C) (timeout : Int)
  | targetShutdown (c : C)
  | drain (max : Int)
  | shutdownService
  | shutdownServiceDrain
  | deinit
  deriving DecidableEq, Repr

def step (s : State C) : Label C → Option (State C)
  | .acceptConn c timeout => acceptConn s c timeout
  | .createRequest c => createRequest s c
  | .createRequestChecked c => createRequestChecked s c
  | .createRequestService c => createRequestService s c
  | .createRequestSession c o => createRequestSession s c o
  | .appendMessage c timeout => appendMessage s c timeout
  | .appendMessageDone c => appendMessageDone s c
  | .readEnds c res => readEnds s c res
  | .writeEnds c res => writeEnds s c res
  | .handlePipe c => handlePipe s c
  | .handleReadResult c res => handleReadResult s c res
  | .handleIncomingRequestService c => handleIncomingRequestService s c
  | .handleWriteResult c res timeout added => handleWriteResult s c res timeout added
  | .handleReplyResultService c => handleReplyResultService s c
  | .finish c i => finish s c i
  | .replyReliable c => replyReliable s c
  | .replyFails c error => replyFails s c error
  | .sendMessageSync c timeout => sendMessageSync s c timeout
  | .sendMessageSyncService c => sendMessageSyncService s c
  | .sendMessageAsync c timeout => sendMessageAsync s c timeout
  | .targetShutdown c => targetShutdown s c
  | .drain max => some (drain s max)
  | .shutdownService => some (shutdownService s)
  | .shutdownServiceDrain => shutdownServiceDrain s
  | .deinit => some { s with stopFlag := true }

/-- The service with any number of connections. -/
def system (C : Type) [DecidableEq C] : System (State C) (Label C) where
  Init s := ∃ listenFd, s = State.listening C listenFd
  step := step

end WorkflowKernel.Communicator.Server
