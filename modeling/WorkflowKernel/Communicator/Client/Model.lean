import WorkflowKernel.Communicator.Types
import WorkflowKernel.Lib.Transition
import Mathlib.Logic.Function.Basic

/-!
# The connections to one target

The client side of `communicator.cc`: `Communicator::request` with its idle and its new connection,
the poller thread in `create_reply` and `append_message`, and the handler threads in
`handle_connect_result`, `handle_request_result` and `handle_incoming_reply`.

A step is one mutex-protected section, one call of the poller, or the unlocked code between two of
these. `request_idle_conn` holds an entry's mutex across several steps; `Holder` says for which
session and what comes next. A section that needs that mutex is a step that waits until it is free.

Whatever is outstanding for an entry outside the poller is a `Task`: a result in the queue, or the
place where a thread that works for the entry has stopped. Any of them may be next.

The poller is an environment that follows its contract for one descriptor: an accepted registration
ends with one terminal result, a deleted or replaced one through the pipe, and the thread that reads
the pipe is the one that serves the descriptor's events. `__poller_remove_node` is one step here;
`Poller.Registry` is about what it does between its read of `removed` and its section.
`mpoller_set_timeout` succeeds if the descriptor is registered. Timeouts fire when they like, and so
does the `mpoller_del` of a communicator that stops.

A session stands for one call of `request`. `entry->seq`, `session->out` and `session->in` are read
by no step and left out, and so are the sessions' timeouts other than the one for keeping alive.
-/

namespace WorkflowKernel.Communicator.Client

open WorkflowKernel.Transition

/-- `PD_OP_CONNECT`, `PD_OP_READ` and `PD_OP_WRITE`. -/
inductive Op
  | connect
  | read
  | write
  deriving DecidableEq, Repr

/-- Where the poller thread stands in `__poller_handle_read` for the descriptor. -/
inductive Phase
  | out
  /-- Between two calls of `__poller_append_message`. -/
  | loop
  /-- `create_reply` saw `CONN_STATE_IDLE` and waits for the entry's mutex. -/
  | wait
  /-- `create_reply` goes for its second look at the state. -/
  | create
  /-- `append_message` has completed the message and the result is to be delivered. -/
  | done
  /-- `__poller_append_message` failed. -/
  | failed (error : Errno)
  deriving DecidableEq, Repr

/-- The call of `request_idle_conn` that holds the entry's mutex, and what is next. -/
inductive Holder (S : Type)
  | none
  /-- It has unlinked the entry and goes for the poller. -/
  | taken (session : S)
  /-- The entry has the new session, whose message is to be sent. -/
  | sending (session : S)
  /-- Sending failed and the descriptor is deleted. -/
  | failing (session : S)
  /-- It leaves. -/
  | leaving (session : S)
  deriving DecidableEq, Repr

/-- How a handler thread ends its work for an entry. -/
inductive Rest
  /-- `handle_request_result` has the entry's mutex once before it drops its reference. -/
  | sync
  /-- The reference is dropped. -/
  | decref
  /-- `handle_connect_result` releases the entry. -/
  | release
  deriving DecidableEq, Repr

/-- What is outstanding for an entry. -/
inductive Task (S : Type)
  /-- `request_new_conn` has launched the entry and goes to register it. -/
  | addConnect (session : S)
  /-- A result in the queue. -/
  | result (op : Op) (state : PrState) (error : Errno)
  /-- `handle_incoming_reply` has a success result, has read `entry->session` and goes for the
  target's mutex. -/
  | replied (session : S) (error : Errno)
  /-- The request is sent and the read operation is to be added; `rest` is for its failure. -/
  | addRead (session : S) (rest : Rest)
  /-- `session->handle` is to be called. -/
  | handle (session : S) (state : CsState) (error : Errno) (rest : Rest)
  | finish (rest : Rest)
  deriving DecidableEq, Repr

/-- `struct CommConnEntry`, its registration in the poller and what is outstanding for it. -/
structure Conn (S : Type) where
  launched : Bool
  state : ConnState
  error : Errno
  ref : Int
  released : Nat
  session : Option S
  /-- The operation in the poller's table. -/
  reg : Option Op
  /-- The removed nodes in the poller's pipe. -/
  pipe : List (Op × PrState)
  /-- A message is being received. -/
  msg : Bool
  phase : Phase
  holder : Holder S
  tasks : List (Task S)
  deriving DecidableEq, Repr

/-- Where a session's call of `request` stands. -/
inductive Call (C : Type)
  | unused
  /-- At the head of the loop of `request_idle_conn`. -/
  | searching
  /-- In `request_idle_conn`, with the mutex of `c`. -/
  | locked (c : C)
  /-- In `request_new_conn`, before `launch_conn`. -/
  | launching
  /-- In `request_new_conn`, with the new entry `c`. -/
  | adding (c : C)
  | returned (ret : Int)
  deriving DecidableEq, Repr

/-- What `CommSession` has to do with its request: `session->conn` as the entry that it belongs to,
and `session->timeout` after the reply. -/
structure Session (C : Type) where
  call : Call C
  conn : Option C
  timeout : Int
  deriving DecidableEq, Repr

/-- `CommTarget`, its connections and sessions. -/
structure State (S C : Type) where
  idleList : List C
  conn : C → Conn S
  session : S → Session C
  /-- The calls of `handle()`. -/
  handled : List (S × CsState × Errno)

/-- No connection yet. -/
def Conn.absent (S : Type) : Conn S where
  launched := false
  state := .connecting
  error := 0
  ref := 0
  released := 0
  session := none
  reg := none
  pipe := []
  msg := false
  phase := .out
  holder := .none
  tasks := []

/-- A session before its request. -/
def Session.unused (C : Type) : Session C where
  call := .unused
  conn := none
  timeout := 0

/-- A target after `init`. -/
def State.init (S C : Type) : State S C where
  idleList := []
  conn := fun _ => .absent S
  session := fun _ => .unused C
  handled := []

/-! ## The poller's interface -/

section Poller

variable {S : Type}

/-- `mpoller_del`. -/
def mpollerDel (k : Conn S) : Conn S :=
  { k with reg := none, pipe := k.pipe ++ k.reg.toList.map fun op => (op, PrState.deleted) }

/-- A task more. -/
def Conn.put (t : Task S) (k : Conn S) : Conn S := { k with tasks := k.tasks ++ [t] }

/-- A task less. -/
def Conn.take [DecidableEq S] (t : Task S) (k : Conn S) : Conn S :=
  { k with tasks := k.tasks.erase t }

/-- What becomes of sending a message: all of it is sent, a part of it is sent and the rest is
accepted for writing, or nothing of this. -/
inductive Sent
  | sync
  | async
  | fail (error : Errno)
  deriving DecidableEq, Repr

/-- `send_message` and its return value, or `errno` where that is negative. -/
def sendMessage (k : Conn S) : Sent → Option (Conn S × Except Errno Nat)
  | .sync => some ({ k with state := .receiving }, .ok 0)
  | .async =>
    if k.state = .idle then
      match k.reg with
      | some op =>
        some ({ k with reg := some .write, pipe := k.pipe ++ [(op, .modified)] }, .ok 1)
      -- `mpoller_mod` failed with `ENOENT`
      | none => some ({ k with state := .receiving }, .ok 1)
    else
      match k.reg with
      | none => some ({ k with reg := some .write }, .ok 1)
      | some _ => none
  | .fail error => some (k, .error error)

end Poller

variable {S C : Type} [DecidableEq S] [DecidableEq C]

def State.upd (st : State S C) (c : C) (f : Conn S → Conn S) : State S C :=
  { st with conn := Function.update st.conn c (f (st.conn c)) }

def State.updSession (st : State S C) (s : S) (f : Session C → Session C) : State S C :=
  { st with session := Function.update st.session s (f (st.session s)) }

/-! ## The poller thread -/

/-- A read event of the descriptor. -/
def pollRead (st : State S C) (c : C) : Option (State S C) :=
  if (st.conn c).reg = some .read ∧ (st.conn c).phase = .out then
    some (st.upd c fun k => { k with phase := .loop })
  else none

/-- There is nothing more to read. -/
def readAgain (st : State S C) (c : C) : Option (State S C) :=
  if (st.conn c).phase = .loop then some (st.upd c fun k => { k with phase := .out }) else none

/-- `create_reply` is called for the first byte of a message. -/
def createReply (st : State S C) (c : C) : Option (State S C) :=
  if (st.conn c).phase = .loop ∧ (st.conn c).msg = false then
    some (st.upd c fun k => { k with phase := if k.state = .idle then .wait else .create })
  else none

/-- It has had the entry's mutex. -/
def createReplyLocked (st : State S C) (c : C) : Option (State S C) :=
  if (st.conn c).phase = .wait ∧ (st.conn c).holder = .none then
    some (st.upd c fun k => { k with phase := .create })
  else none

/-- The rest of `create_reply`: `messageIn` says whether `message_in` returns a message, and `error`
is `errno` if not. -/
def createReplySession (st : State S C) (c : C) (messageIn : Bool) (error : Errno) :
    Option (State S C) :=
  if (st.conn c).phase = .create then
    some (st.upd c fun k =>
      if k.state ≠ .receiving then { k with phase := .failed EBADMSG }
      else if messageIn then { k with phase := .loop, msg := true }
      else { k with phase := .failed error })
  else none

/-- `append_message` when the message is complete: `timeout` is what `keep_alive_timeout()`
returns. -/
def appendMessageDone (st : State S C) (c : C) (timeout : Int) : Option (State S C) :=
  let k := st.conn c
  if k.phase = .loop ∧ k.msg then
    match k.session with
    | some s =>
      let st := st.updSession s fun x => { x with timeout := timeout }
      some (st.upd c fun k =>
        let k := { k with state := .success, phase := .done }
        if timeout = 0 then mpollerDel k else k)
    | none => none
  else none

/-- The success result is delivered. -/
def callback (st : State S C) (c : C) : Option (State S C) :=
  if (st.conn c).phase = .done then
    some (st.upd c fun k =>
      { k with phase := .loop, msg := false }.put (.result .read .success 0))
  else none

/-- The end of `__poller_handle_read`, which delivers nothing if the node has been removed from the
table in the meantime. -/
def endRead (res : PrState × Errno) (k : Conn S) : Conn S :=
  if k.reg = some .read then
    { k with reg := none, msg := false, phase := .out }.put (.result .read res.1 res.2)
  else { k with msg := false, phase := .out }

/-- The stream ended or failed, or `append` returned an error. -/
def readEnds (st : State S C) (c : C) (res : PrState × Errno) : Option (State S C) :=
  if (st.conn c).phase = .loop ∧ (res.1 = .finished ∨ res.1 = .error) then
    some (st.upd c (endRead res))
  else none

/-- `create_reply` returned NULL. -/
def readFails (st : State S C) (c : C) : Option (State S C) :=
  match (st.conn c).phase with
  | .failed error => some (st.upd c (endRead (.error, error)))
  | _ => none

/-- The operation ends while no read event is being handled: it is complete, it failed, its time is
over or the poller stops. -/
def pollEnds (st : State S C) (c : C) (res : PrState × Errno) : Option (State S C) :=
  match (st.conn c).reg with
  | some op =>
    if (st.conn c).phase = .out ∧
        (res.1 = .finished ∨ res.1 = .error ∨ res.1 = .stopped) then
      some (st.upd c fun k => { k with reg := none, msg := false }.put (.result op res.1 res.2))
    else none
  | none => none

/-- The poller thread reads a removed node from the pipe. -/
def handlePipe (st : State S C) (c : C) : Option (State S C) :=
  match (st.conn c).pipe with
  | [] => none
  | (op, state) :: rest =>
    if (st.conn c).phase = .out then
      some (st.upd c fun k =>
        { k with
          pipe := rest
          msg := if state = PrState.modified then k.msg else false }.put (.result op state 0))
    else none

/-! ## `Communicator::request` -/

/-- `request` begins. -/
def request (st : State S C) (s : S) (passive : Bool) : Option (State S C) :=
  if (st.session s).call = .unused then
    some (st.updSession s fun x =>
      { x with call := if passive then .returned (-1) else .searching })
  else none

/-- The section of `request_idle_conn` on the target's mutex. -/
def requestIdleConn (st : State S C) (s : S) : Option (State S C) :=
  if (st.session s).call = .searching then
    match st.idleList with
    | [] => some (st.updSession s fun x => { x with call := .launching })
    | c :: rest =>
      if (st.conn c).holder = .none then
        let st := { st with idleList := rest }
        some ((st.upd c fun k => { k with holder := .taken s }).updSession s fun x =>
          { x with call := .locked c })
      else none
  else none

/-- `mpoller_set_timeout` in `request_idle_conn`. -/
def requestIdleConnTimeout (st : State S C) (c : C) : Option (State S C) :=
  match (st.conn c).holder with
  | .taken s =>
    if (st.conn c).reg.isSome then
      some ((st.upd c fun k => { k with session := some s, holder := .sending s }).updSession s
        fun x => { x with conn := some c })
    else
      some ((st.upd c fun k => { k with state := .closing, holder := .none }).updSession s
        fun x => { x with call := .searching })
  | _ => none

/-- `message_out` and `send_message` in `request_idle_conn`. -/
def requestIdleConnSend (st : State S C) (c : C) (o : Sent) : Option (State S C) :=
  match (st.conn c).holder with
  | .sending s =>
    (sendMessage (st.conn c) o).map fun x =>
      st.upd c fun _ => match x.2 with
        | .ok _ => { x.1 with holder := .leaving s }
        | .error error => mpollerDel { x.1 with error := error, holder := .failing s }
  | _ => none

/-- `request_idle_conn` ends in `CONN_STATE_ERROR`. -/
def requestIdleConnError (st : State S C) (c : C) : Option (State S C) :=
  match (st.conn c).holder with
  | .failing s => some (st.upd c fun k => { k with state := .error, holder := .leaving s })
  | _ => none

/-- `request_idle_conn` leaves the entry's mutex, and `request` returns. -/
def requestIdleConnLeave (st : State S C) (c : C) : Option (State S C) :=
  match (st.conn c).holder with
  | .leaving s =>
    some ((st.upd c fun k => { k with holder := .none }).updSession s fun x =>
      { x with call := .returned 0 })
  | _ => none

/-- `launch_conn`, with the new entry or with none. -/
def launchConn (st : State S C) (s : S) (entry : Option C) : Option (State S C) :=
  if (st.session s).call = .launching then
    match entry with
    | none => some (st.updSession s fun x => { x with call := .returned (-1) })
    | some c =>
      if (st.conn c).launched then none
      else
        let k := { Conn.absent S with
          launched := true
          ref := 1
          session := some s }
        some ((st.upd c fun _ => k.put (.addConnect s)).updSession s fun x =>
          { x with call := .adding c, conn := some c })
  else none

/-- `__release_conn`. -/
def releaseConn (k : Conn S) : Conn S := { k with released := k.released + 1 }

/-- `mpoller_add` in `request_new_conn`; `accepted` is whether it succeeds. -/
def requestNewConn (st : State S C) (s : S) (c : C) (accepted : Bool) : Option (State S C) :=
  if .addConnect s ∈ (st.conn c).tasks then
    let st := st.upd c (Conn.take (.addConnect s))
    if accepted ∧ (st.conn c).reg = none then
      some ((st.upd c fun k => { k with reg := some .connect }).updSession s fun x =>
        { x with call := .returned 0 })
    else
      some ((st.upd c releaseConn).updSession s fun x =>
        { x with call := .returned (-1), conn := none })
  else none

/-! ## The handler threads -/

/-- The state and the error that a terminal result stands for. -/
def csResult (res : PrState × Errno) : CsState × Errno :=
  match res.1 with
  | .finished => (.error, ECONNRESET)
  | .error => (.error, res.2)
  | _ => (.stopped, res.2)

/-- What is left of `handle_incoming_reply` for a terminal result. -/
def replyTask (session : Option S) (res : CsState × Errno) : Task S :=
  match session with
  | some s => .handle s res.1 res.2 .decref
  | none => .finish .decref

/-- The section of `handle_incoming_reply` for a terminal result. -/
def handleIncomingReplyEnd (st : State S C) (c : C) (res : PrState × Errno) : State S C :=
  let k := st.conn c
  match k.state with
  | .idle => { st with idleList := st.idleList.erase c }.upd c (Conn.put (.finish .decref))
  | .error => st.upd c (Conn.put (replyTask k.session (.error, k.error)))
  | .receiving => st.upd c (Conn.put (replyTask k.session (csResult res)))
  -- only when another handler has the success result
  | .success => st.upd c fun k => { k with state := .closing }
  | _ => st.upd c (Conn.put (.finish .decref))

/-- `handle_read_result` of a client's connection, for one of the results. -/
def handleReadResult (st : State S C) (c : C) (res : PrState × Errno) : Option (State S C) :=
  let t : Task S := .result .read res.1 res.2
  if t ∈ (st.conn c).tasks then
    let st := st.upd c (Conn.take t)
    match res.1 with
    | .modified => some st
    | .success =>
      (st.conn c).session.map fun s => st.upd c (Conn.put (.replied s res.2))
    | _ =>
      if (st.conn c).holder = .none then some (handleIncomingReplyEnd st c res) else none
  else none

/-- The section of `handle_incoming_reply` for a success result. -/
def handleIncomingReply (st : State S C) (c : C) (s : S) (error : Errno) : Option (State S C) :=
  if .replied s error ∈ (st.conn c).tasks then
    let st := st.upd c (Conn.take (.replied s error))
    let st :=
      if (st.conn c).state = .success then
        let st := st.upd c fun k => { k with ref := k.ref + 1 }
        if (st.session s).timeout ≠ 0 then
          { st with idleList := c :: st.idleList }.upd c fun k => { k with state := .idle }
        else st.upd c fun k => { k with state := .closing }
      else st
    some (st.upd c (Conn.put (.handle s .success error .decref)))
  else none

/-- `handle_request_result`, up to its `mpoller_add`. -/
def handleRequestResult (st : State S C) (c : C) (res : PrState × Errno) : Option (State S C) :=
  let t : Task S := .result .write res.1 res.2
  if t ∈ (st.conn c).tasks then
    let st := st.upd c (Conn.take t)
    (st.conn c).session.map fun s =>
      match res.1 with
      | .finished =>
        st.upd c fun k => { k with state := .receiving }.put (.addRead s .sync)
      | .error | .deleted | .stopped =>
        let x := csResult res
        st.upd c (Conn.put (.handle s x.1 x.2 .sync))
      | _ => st
  else none

/-- `handle_connect_result`, up to its `mpoller_add` for reading. -/
def handleConnectResult (st : State S C) (c : C) (res : PrState × Errno) (o : Sent) :
    Option (State S C) :=
  let t : Task S := .result .connect res.1 res.2
  if t ∈ (st.conn c).tasks then
    let st := st.upd c (Conn.take t)
    match (st.conn c).session with
    | none => none
    | some s =>
      match res.1 with
      | .finished =>
        (sendMessage (st.conn c) o).map fun x =>
          st.upd c fun _ => match x.2 with
            | .ok 0 => x.1.put (.addRead s .release)
            | .ok _ => x.1
            | .error error => x.1.put (.handle s .error error .release)
      | .error | .deleted | .stopped =>
        let x := csResult res
        some (st.upd c (Conn.put (.handle s x.1 x.2 .release)))
      | _ => some st
  else none

/-- `mpoller_add` for reading in `handle_connect_result` and `handle_request_result`: `accepted` is
whether it succeeds, and `error` is `errno` if not. -/
def addRead (st : State S C) (c : C) (s : S) (rest : Rest) (accepted : Bool) (error : Errno) :
    Option (State S C) :=
  if .addRead s rest ∈ (st.conn c).tasks then
    let st := st.upd c (Conn.take (.addRead s rest))
    if accepted ∧ (st.conn c).reg = none then
      some (st.upd c fun k => { k with reg := some .read })
    else some (st.upd c (Conn.put (.handle s .error error rest)))
  else none

/-- `session->handle`. -/
def handle (st : State S C) (c : C) (s : S) (res : CsState × Errno) (rest : Rest) :
    Option (State S C) :=
  let t : Task S := .handle s res.1 res.2 rest
  if t ∈ (st.conn c).tasks then
    let st := st.upd c fun k => (k.take t).put (.finish rest)
    some { st with handled := st.handled ++ [(s, res)] }
  else none

/-- A handler thread is done with an entry. -/
def finish (st : State S C) (c : C) (rest : Rest) : Option (State S C) :=
  if .finish rest ∈ (st.conn c).tasks then
    let st := st.upd c (Conn.take (.finish rest))
    match rest with
    | .sync =>
      if (st.conn c).holder = .none then some (st.upd c (Conn.put (.finish .decref))) else none
    | .decref =>
      some (st.upd c fun k =>
        let k := { k with ref := k.ref - 1 }
        if k.ref = 0 then releaseConn k else k)
    | .release => some (st.upd c releaseConn)
  else none

/-! ## The system -/

/-- What happens next, with the choices of the environment. -/
inductive Label (S C : Type)
  | pollRead (c : C)
  | readAgain (c : C)
  | createReply (c : C)
  | createReplyLocked (c : C)
  | createReplySession (c : C) (messageIn : Bool) (error : Errno)
  | appendMessageDone (c : C) (timeout : Int)
  | callback (c : C)
  | readEnds (c : C) (res : PrState × Errno)
  | readFails (c : C)
  | pollEnds (c : C) (res : PrState × Errno)
  | handlePipe (c : C)
  | mpollerDel (c : C)
  | request (s : S) (passive : Bool)
  | requestIdleConn (s : S)
  | requestIdleConnTimeout (c : C)
  | requestIdleConnSend (c : C) (o : Sent)
  | requestIdleConnError (c : C)
  | requestIdleConnLeave (c : C)
  | launchConn (s : S) (entry : Option C)
  | requestNewConn (s : S) (c : C) (accepted : Bool)
  | handleReadResult (c : C) (res : PrState × Errno)
  | handleIncomingReply (c : C) (s : S) (error : Errno)
  | handleRequestResult (c : C) (res : PrState × Errno)
  | handleConnectResult (c : C) (res : PrState × Errno) (o : Sent)
  | addRead (c : C) (s : S) (rest : Rest) (accepted : Bool) (error : Errno)
  | handle (c : C) (s : S) (res : CsState × Errno) (rest : Rest)
  | finish (c : C) (rest : Rest)
  deriving DecidableEq, Repr

def step (st : State S C) : Label S C → Option (State S C)
  | .pollRead c => pollRead st c
  | .readAgain c => readAgain st c
  | .createReply c => createReply st c
  | .createReplyLocked c => createReplyLocked st c
  | .createReplySession c messageIn error => createReplySession st c messageIn error
  | .appendMessageDone c timeout => appendMessageDone st c timeout
  | .callback c => callback st c
  | .readEnds c res => readEnds st c res
  | .readFails c => readFails st c
  | .pollEnds c res => pollEnds st c res
  | .handlePipe c => handlePipe st c
  | .mpollerDel c => some (st.upd c mpollerDel)
  | .request s passive => request st s passive
  | .requestIdleConn s => requestIdleConn st s
  | .requestIdleConnTimeout c => requestIdleConnTimeout st c
  | .requestIdleConnSend c o => requestIdleConnSend st c o
  | .requestIdleConnError c => requestIdleConnError st c
  | .requestIdleConnLeave c => requestIdleConnLeave st c
  | .launchConn s entry => launchConn st s entry
  | .requestNewConn s c accepted => requestNewConn st s c accepted
  | .handleReadResult c res => handleReadResult st c res
  | .handleIncomingReply c s error => handleIncomingReply st c s error
  | .handleRequestResult c res => handleRequestResult st c res
  | .handleConnectResult c res o => handleConnectResult st c res o
  | .addRead c s rest accepted error => addRead st c s rest accepted error
  | .handle c s res rest => handle st c s res rest
  | .finish c rest => finish st c rest

/-- One target with any number of connections and sessions. -/
def system (S C : Type) [DecidableEq S] [DecidableEq C] : System (State S C) (Label S C) where
  Init st := st = State.init S C
  step := step

end WorkflowKernel.Communicator.Client
