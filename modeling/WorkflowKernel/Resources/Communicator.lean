import WorkflowKernel.Lib.Holding

/-!
# What a communicator opens and closes

The calls of `communicator.cc` that open a connection to a target, an accepted connection, a bound
service and a bound I/O service. Each of them takes several things one after the other, any of which
may be refused. What closes them again is behind each. The pollers and the threads are not part of
this.

Only what is taken and given back is here; the states of the connections are in `Client` and
`Server`. The mutex of a client's entry is not counted: `__release_conn` frees the entry without a
`pthread_mutex_destroy`. A pointer and a descriptor are numbers that the environment picks.

## What is proved

- `takes_requestNewConn`, `takes_acceptConnection`, `takes_bind`, `takes_ioBind`: either everything
  is there, or nothing is left.
- `books_balance`: in every order of opening and closing, what is held is what the open ones need.
-/

namespace WorkflowKernel.Resources

open WorkflowKernel.Holding

inductive Resource
  | memory (p : Nat)
  | fd (n : Nat)
  /-- What `new_connection` returns. -/
  | connection (p : Nat)
  /-- One reference to the service. -/
  | service
  deriving DecidableEq, Repr

/-- The environment answers a call with a number, or refuses it. -/
abbrev Code (α : Type) := Prog Nat Resource α

/-- `malloc` and `calloc`. -/
def malloc : Code (Option Nat) := acquire fun p => {Resource.memory p}

/-- A call that returns a descriptor. -/
def openFd : Code (Option Nat) := acquire fun fd => {Resource.fd fd}

/-- A call that fails or not. -/
def succeeds : Code Bool := do
  return (← ask).isSome

def free (p : Nat) : Code Unit := release (.memory p)

def close (fd : Nat) : Code Unit := release (.fd fd)

theorem takes_malloc : Takes 0 malloc (gained fun p => {.memory p}) := takes_acquire _

theorem takes_openFd : Takes 0 openFd (gained fun fd => {.fd fd}) := takes_acquire _

/-- A call that takes nothing. -/
theorem takes_succeeds : Takes 0 succeeds fun _ => 0 := takes_ask.bind fun _ => .pure _ rfl

/-- The branch that has to close a descriptor and returns -1. -/
theorem takes_close (fd : Nat) {P : Multiset Resource} (h : P = {.fd fd}) {β : Type}
    (T : β → Multiset Resource) : Takes P (do close fd; return none) (gained T) :=
  ((takes_release _).of_eq h).bind fun _ => .pure _ rfl

/-! ## Connections to a target -/

/-- The fields of `struct CommConnEntry` that something was taken for. -/
structure CommConnEntry where
  ptr : Nat
  conn : Nat
  sockfd : Nat
  deriving DecidableEq, Repr

/-- `new_connection` of the target or the service. -/
def newConnection : Code (Option Nat) := acquire fun conn => {Resource.connection conn}

/-- `Communicator::nonblock_connect`. -/
def nonblockConnect : Code (Option Nat) := do
  -- `create_connect_fd`
  match ← openFd with
  | none => return none
  | some sockfd =>
    -- `__set_fd_nonblock`
    if ← succeeds then
      -- `connect`, with `EINPROGRESS` as a success
      if ← succeeds then
        return some sockfd
      else
        close sockfd
        return none
    else
      close sockfd
      return none

/-- `Communicator::launch_conn`. -/
def launchConn : Code (Option CommConnEntry) := do
  match ← nonblockConnect with
  | none => return none
  | some sockfd =>
    match ← malloc with
    | some ptr =>
      -- `pthread_mutex_init`
      if ← succeeds then
        match ← newConnection with
        | some conn => return some { ptr := ptr, conn := conn, sockfd := sockfd }
        | none =>
          free ptr
          close sockfd
          return none
      else
        free ptr
        close sockfd
        return none
    | none =>
      close sockfd
      return none

/-- `__release_conn`. -/
def releaseConn (entry : CommConnEntry) : Code Unit := do
  release (.connection entry.conn)
  close entry.sockfd
  free entry.ptr

/-- `Communicator::request_new_conn`: the entry of the connection, or `none` for -1. -/
def requestNewConn : Code (Option CommConnEntry) := do
  match ← launchConn with
  | none => return none
  | some entry =>
    -- `mpoller_add`
    if ← succeeds then
      return some entry
    else
      releaseConn entry
      return none

def CommConnEntry.taken (entry : CommConnEntry) : Multiset Resource :=
  {.memory entry.ptr} + {.connection entry.conn} + {.fd entry.sockfd}

theorem takes_newConnection : Takes 0 newConnection (gained fun c => {.connection c}) :=
  takes_acquire _

/-- Whichever call is refused, the descriptor is closed again. -/
theorem takes_nonblockConnect : Takes 0 nonblockConnect (gained fun fd => {.fd fd}) := by
  refine takes_openFd.bind fun o => ?_
  cases o with
  | none => exact .pure _ rfl
  | some fd =>
    refine takes_succeeds.bind_frame (zero_add _).symm fun nonblock => ?_
    cases nonblock with
    | false => exact takes_close fd (zero_add _) _
    | true =>
      refine takes_succeeds.bind_frame rfl fun connected => ?_
      cases connected with
      | true => exact .pure _ (zero_add _)
      | false => exact takes_close fd (zero_add _) _

/-- The descriptor, the entry and the connection, or none of them. -/
theorem takes_launchConn : Takes 0 launchConn (gained CommConnEntry.taken) := by
  refine takes_nonblockConnect.bind fun o => ?_
  cases o with
  | none => exact .pure _ rfl
  | some fd =>
    refine takes_malloc.bind_frame (zero_add _).symm fun o => ?_
    cases o with
    | none => exact takes_close fd (zero_add _) _
    | some ptr =>
      refine takes_succeeds.bind_frame (zero_add _).symm fun inited => ?_
      have hundo : Takes ({.memory ptr} + {.fd fd}) (do free ptr; close fd; return none)
          (gained CommConnEntry.taken) :=
        (takes_release _).bind_frame rfl fun _ => takes_close fd (zero_add _) _
      cases inited with
      | false => exact hundo.of_eq (zero_add _)
      | true =>
        refine takes_newConnection.bind_frame rfl fun o => ?_
        cases o with
        | none => exact hundo.of_eq (zero_add _)
        | some conn =>
          refine .pure _ ?_
          simp only [gained_some, CommConnEntry.taken]
          abel

/-- An entry has nothing besides these three. -/
theorem takes_releaseConn (entry : CommConnEntry) :
    Takes entry.taken (releaseConn entry) fun _ => 0 := by
  refine (takes_release _).bind_frame (F := {.fd entry.sockfd} + {.memory entry.ptr}) ?_
    fun _ => ?_
  · simp only [CommConnEntry.taken]
    abel
  · refine (takes_release _).bind_frame (zero_add _) fun _ => ?_
    exact (takes_release _).of_eq (zero_add _)

/-- A refused registration releases the entry again. -/
theorem takes_requestNewConn : Takes 0 requestNewConn (gained CommConnEntry.taken) := by
  refine takes_launchConn.bind fun o => ?_
  cases o with
  | none => exact .pure _ rfl
  | some entry =>
    refine takes_succeeds.bind_frame (zero_add _).symm fun added => ?_
    cases added with
    | true => exact .pure _ (zero_add _)
    | false =>
      exact ((takes_releaseConn entry).of_eq (zero_add _)).bind fun _ => .pure _ rfl

/-! ## Accepted connections -/

/-- `CommServiceTarget`, with its one reference. -/
structure CommServiceTarget where
  ptr : Nat
  addr : Nat
  sockfd : Nat
  deriving DecidableEq, Repr

/-- `Communicator::accept`, for a descriptor that `__poller_handle_listen` has accepted. -/
def accept (sockfd : Nat) : Code (Option CommServiceTarget) := do
  -- `new CommServiceTarget`
  match ← malloc with
  | some ptr =>
    -- `CommTarget::init`
    match ← malloc with
    | some addr =>
      -- `incref`
      take .service
      return some { ptr := ptr, addr := addr, sockfd := sockfd }
    | none =>
      free ptr
      close sockfd
      return none
  | none =>
    close sockfd
    return none

/-- `CommServiceTarget::decref`, for the last reference. -/
def decref (target : CommServiceTarget) : Code Unit := do
  release .service
  free target.addr
  free target.ptr

/-- `Communicator::accept_conn`. -/
def acceptConn (target : CommServiceTarget) : Code (Option CommConnEntry) := do
  -- `__set_fd_nonblock`
  if ← succeeds then
    match ← malloc with
    | none => return none
    | some ptr =>
      match ← newConnection with
      | some conn => return some { ptr := ptr, conn := conn, sockfd := target.sockfd }
      | none =>
        free ptr
        return none
  else
    return none

/-- A connection of the service. -/
structure Accepted where
  target : CommServiceTarget
  entry : CommConnEntry
  deriving DecidableEq, Repr

/-- The `PR_ST_SUCCESS` case of `Communicator::handle_listen_result`. -/
def handleListenSuccess (target : CommServiceTarget) : Code (Option Accepted) := do
  match ← acceptConn target with
  | some entry =>
    -- `mpoller_add`
    if ← succeeds then
      return some { target := target, entry := entry }
    else
      releaseConn entry
      decref target
      return none
  | none =>
    close target.sockfd
    decref target
    return none

/-- A connection of the service, from `accept` in `__poller_handle_listen` on. -/
def acceptConnection : Code (Option Accepted) := do
  match ← openFd with
  | none => return none
  | some sockfd =>
    match ← accept sockfd with
    | none => return none
    | some target => handleListenSuccess target

/-- The end of a connection that no session of the service refers to. -/
def releaseAccepted (c : Accepted) : Code Unit := do
  releaseConn c.entry
  decref c.target

/-- What a target has besides the descriptor. -/
def CommServiceTarget.taken (target : CommServiceTarget) : Multiset Resource :=
  {.memory target.ptr} + {.memory target.addr} + {.service}

def Accepted.taken (c : Accepted) : Multiset Resource := c.target.taken + c.entry.taken

/-- `accept` closes the descriptor that it cannot make a target for. -/
theorem takes_accept (sockfd : Nat) : Takes {.fd sockfd} (accept sockfd)
    (gained fun target => target.taken + {.fd target.sockfd}) := by
  refine takes_malloc.bind_frame (zero_add _).symm fun o => ?_
  cases o with
  | none => exact takes_close sockfd (zero_add _) _
  | some ptr =>
    refine takes_malloc.bind_frame (zero_add _).symm fun o => ?_
    cases o with
    | none =>
      refine (takes_release _).bind_frame (zero_add _) fun _ => ?_
      exact takes_close sockfd (zero_add _) _
    | some addr =>
      refine (takes_take _).bind_frame (zero_add _).symm fun _ => .pure _ ?_
      simp only [gained_some, CommServiceTarget.taken]
      abel

/-- The last reference gives back the one to the service as well. -/
theorem takes_decref (target : CommServiceTarget) :
    Takes target.taken (decref target) fun _ => 0 := by
  refine (takes_release _).bind_frame (add_comm _ _) fun _ => ?_
  refine (takes_release _).bind_frame (F := {.memory target.ptr}) ?_ fun _ => ?_
  · rw [zero_add, add_comm]
  · exact (takes_release _).of_eq (zero_add _)

/-- The descriptor stays the caller's when no entry could be made. -/
theorem takes_acceptConn (target : CommServiceTarget) :
    Takes {.fd target.sockfd} (acceptConn target) fun o =>
      o.elim {.fd target.sockfd} CommConnEntry.taken := by
  refine takes_succeeds.bind_frame (zero_add _).symm fun nonblock => ?_
  cases nonblock with
  | false => exact .pure _ (zero_add _)
  | true =>
    refine takes_malloc.bind_frame rfl fun o => ?_
    cases o with
    | none => exact .pure _ (by simp)
    | some ptr =>
      refine takes_newConnection.bind_frame (zero_add _).symm fun o => ?_
      cases o with
      | none =>
        refine (takes_release _).bind_frame (F := {.fd target.sockfd}) ?_ fun _ =>
          .pure _ (zero_add _)
        simp
      | some conn =>
        refine .pure _ ?_
        simp only [gained_some, Option.elim, CommConnEntry.taken]
        abel

/-- The entry has the descriptor once there is one, the target before that. -/
theorem takes_handleListenSuccess (target : CommServiceTarget) :
    Takes (target.taken + {.fd target.sockfd}) (handleListenSuccess target)
      (gained Accepted.taken) := by
  refine (takes_acceptConn target).bind_frame (add_comm _ _) fun o => ?_
  cases o with
  | none =>
    refine (takes_release _).bind_frame rfl fun _ => ?_
    exact ((takes_decref target).of_eq (zero_add _)).bind fun _ => .pure _ rfl
  | some entry =>
    refine takes_succeeds.bind_frame (zero_add _).symm fun added => ?_
    cases added with
    | true =>
      refine .pure _ ?_
      simp only [Option.elim, gained_some, Accepted.taken]
      abel
    | false =>
      refine (takes_releaseConn entry).bind_frame (zero_add _) fun _ => ?_
      exact ((takes_decref target).of_eq (zero_add _)).bind fun _ => .pure _ rfl

theorem takes_acceptConnection : Takes 0 acceptConnection (gained Accepted.taken) := by
  refine takes_openFd.bind fun o => ?_
  cases o with
  | none => exact .pure _ rfl
  | some sockfd =>
    refine (takes_accept sockfd).bind fun o => ?_
    cases o with
    | none => exact .pure _ rfl
    | some target => exact takes_handleListenSuccess target

theorem takes_releaseAccepted (c : Accepted) :
    Takes c.taken (releaseAccepted c) fun _ => 0 :=
  (takes_releaseConn c.entry).bind_frame (add_comm _ _) fun _ =>
    (takes_decref c.target).of_eq (zero_add _)

/-! ## Bound services -/

/-- What `nonblock_listen` sets of the service. -/
structure Listening where
  listenFd : Nat
  reliable : Bool
  deriving DecidableEq, Repr

/-- `Communicator::nonblock_listen`. -/
def nonblockListen : Code (Option Listening) := do
  -- `create_listen_fd`
  match ← openFd with
  | none => return none
  | some sockfd =>
    -- `__set_fd_nonblock`
    if ← succeeds then
      -- `__bind_sockaddr`
      if ← succeeds then
        -- `listen`: with `EOPNOTSUPP` the service is bound, but not reliable
        match ← ask with
        | some refused => return some { listenFd := sockfd, reliable := refused = 0 }
        | none =>
          close sockfd
          return none
      else
        close sockfd
        return none
    else
      close sockfd
      return none

/-- `Communicator::bind`. -/
def bind : Code (Option Listening) := do
  match ← nonblockListen with
  | none => return none
  | some l =>
    -- `mpoller_add`
    if ← succeeds then
      return some l
    else
      close l.listenFd
      return none

/-- `Communicator::io_bind`: the `event_fd`. -/
def ioBind : Code (Option Nat) := do
  -- `create_event_fd`
  match ← openFd with
  | none => return none
  | some eventFd =>
    -- `__set_fd_nonblock`
    if ← succeeds then
      -- `mpoller_add`
      if ← succeeds then
        return some eventFd
      else
        close eventFd
        return none
    else
      close eventFd
      return none

/-- The descriptor is closed again in each of the branches that fail. -/
theorem takes_nonblockListen : Takes 0 nonblockListen (gained fun l => {.fd l.listenFd}) := by
  refine takes_openFd.bind fun o => ?_
  cases o with
  | none => exact .pure _ rfl
  | some fd =>
    refine takes_succeeds.bind_frame (zero_add _).symm fun nonblock => ?_
    cases nonblock with
    | false => exact takes_close fd (zero_add _) _
    | true =>
      refine takes_succeeds.bind_frame rfl fun bound => ?_
      cases bound with
      | false => exact takes_close fd (zero_add _) _
      | true =>
        refine takes_ask.bind_frame rfl fun o => ?_
        cases o with
        | none => exact takes_close fd (zero_add _) _
        | some a => exact .pure _ (zero_add _)

theorem takes_bind : Takes 0 bind (gained fun l => {.fd l.listenFd}) := by
  refine takes_nonblockListen.bind fun o => ?_
  cases o with
  | none => exact .pure _ rfl
  | some l =>
    refine takes_succeeds.bind_frame (zero_add _).symm fun added => ?_
    cases added with
    | true => exact .pure _ (zero_add _)
    | false => exact takes_close l.listenFd (zero_add _) _

theorem takes_ioBind : Takes 0 ioBind (gained fun fd => {.fd fd}) := by
  refine takes_openFd.bind fun o => ?_
  cases o with
  | none => exact .pure _ rfl
  | some fd =>
    refine takes_succeeds.bind_frame (zero_add _).symm fun nonblock => ?_
    cases nonblock with
    | false => exact takes_close fd (zero_add _) _
    | true =>
      refine takes_succeeds.bind_frame rfl fun added => ?_
      cases added with
      | true => exact .pure _ (zero_add _)
      | false => exact takes_close fd (zero_add _) _

/-! ## Opening and closing in any order -/

inductive Kind
  | connection
  | accepted
  | service
  | ioService
  deriving DecidableEq, Repr

inductive Opened
  | connection (entry : CommConnEntry)
  | accepted (c : Accepted)
  | service (l : Listening)
  | ioService (eventFd : Nat)
  deriving DecidableEq, Repr

def Opened.taken : Opened → Multiset Resource
  | .connection entry => entry.taken
  | .accepted c => c.taken
  | .service l => {.fd l.listenFd}
  | .ioService eventFd => {.fd eventFd}

def openOne : Kind → Code (Option Opened)
  | .connection => return (← requestNewConn).map .connection
  | .accepted => return (← acceptConnection).map .accepted
  | .service => return (← bind).map .service
  | .ioService => return (← ioBind).map .ioService

/-- `shutdown_service` and `shutdown_io_service` close the descriptor. -/
def closeOne : Opened → Code Unit
  | .connection entry => releaseConn entry
  | .accepted c => releaseAccepted c
  | .service l => close l.listenFd
  | .ioService eventFd => close eventFd

/-- Opening takes what the opened thing needs, or leaves nothing behind. -/
theorem takes_openOne (k : Kind) : Takes 0 (openOne k) (gained Opened.taken) := by
  cases k with
  | connection => exact takes_requestNewConn.bind fun o => .pure _ (by cases o <;> rfl)
  | accepted => exact takes_acceptConnection.bind fun o => .pure _ (by cases o <;> rfl)
  | service => exact takes_bind.bind fun o => .pure _ (by cases o <;> rfl)
  | ioService => exact takes_ioBind.bind fun o => .pure _ (by cases o <;> rfl)

/-- Closing gives back what the opened thing has. -/
theorem takes_closeOne (o : Opened) : Takes o.taken (closeOne o) fun _ => 0 := by
  cases o with
  | connection entry => exact takes_releaseConn entry
  | accepted c => exact takes_releaseAccepted c
  | service l => exact takes_release _
  | ioService eventFd => exact takes_release _

/-! ## Every run -/

/-- In every order of opening and closing and whatever the environment refuses, what is held is what
the open things need, and nothing is given back that is not held. -/
theorem books_balance (ops : List (Op Kind)) (w : World Nat Resource) :
    (serve openOne closeOne ops [] w).2.held =
        total Opened.taken (serve openOne closeOne ops [] w).1 + w.held ∧
      (serve openOne closeOne ops [] w).2.wrong = w.wrong :=
  (takes_serve takes_openOne takes_closeOne ops []).run w

end WorkflowKernel.Resources
