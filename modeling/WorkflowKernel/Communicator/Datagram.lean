import WorkflowKernel.Communicator.Types

/-!
# A datagram and its session

An unreliable service makes a target, a connection entry and a session of its own for every
datagram: `recvfrom`, `accept`, `accept_conn` and `recv_request` on the poller thread,
`handle_recvfrom_result` on a handler thread, then whatever the user does with the session. One
datagram shares only the service with the others, so the model follows one of them, from `recvfrom`
to the destruction of the session.

`Input` holds every outcome that is not the code's own: the system and library calls, the
virtual functions, and what the user calls when. `idle` is the target's idle list, which has one
entry to hold. The counters `created`, `released` and `freed` are the log.

## What is proved

- `lawful_iff`: the lifecycle law holds of a datagram exactly when the datagram does not make a
  complete message. `recv_request` and `handle_recvfrom_result` leave `session->passive` at 1, which
  `reply`, `shutdown` and the destructor take for a session that is not to be replied to.
- `complete_leaks`: what is left over otherwise.
- `recvfrom_refused`: a datagram that gets no session leaves nothing behind.
-/

namespace WorkflowKernel.Communicator.Datagram

/-- What one call of the message's `append` returns: its result, the bytes it says it consumed, and
`errno`. -/
structure Append where
  ret : Int
  size : Nat
  errno : Errno
  deriving DecidableEq, Repr

/-- The outcomes under one `reply`: whether `message_out` gives a message, what `encode` returns,
the `errno` that these leave, the result and `errno` of `sendmsg`, and whether `handle` destroys
the session. -/
structure ReplyOutcome where
  messageOut : Bool
  encode : Int
  encodeErrno : Errno
  sendmsg : Int
  sendmsgErrno : Errno
  destroys : Bool
  deriving DecidableEq, Repr

/-- What the user calls on a session. -/
inductive UserCall
  | reply (outcome : ReplyOutcome)
  | shutdown
  deriving DecidableEq, Repr

/-- What a call on a session returned: refused for its `passive`, or the result. -/
inductive CallResult
  | einval
  | done (ret : Int) (errno : Errno)
  deriving DecidableEq, Repr

/-- Every choice of the environment for one datagram. -/
structure Input where
  /-- `dup(service->listen_fd) >= 0` -/
  dup : Bool
  /-- `target->init(...) >= 0` -/
  targetInit : Bool
  /-- `__set_fd_nonblock`, `malloc` and `new_connection` in `accept_conn` -/
  setNonblock : Bool
  mallocEntry : Bool
  newConnection : Bool
  newSession : Bool
  messageIn : Bool
  /-- The bytes of the datagram. -/
  size : Nat
  /-- The calls of `append`, in order. -/
  appends : List Append
  /-- What the user does in the first `handle()`. -/
  inHandle : List UserCall
  destroysInHandle : Bool
  /-- What the user does afterwards, before the session is destroyed at the latest. -/
  later : List UserCall
  deriving DecidableEq, Repr

/-- `CommService::ref`, the target's `ref`, the entry and the session. -/
structure State where
  serviceRef : Int
  unbound : Nat
  sockets : Int
  targetRef : Int
  targetFreed : Nat
  entryCreated : Nat
  entryReleased : Nat
  entryRef : Int
  entryState : ConnState
  entryError : Errno
  idle : Bool
  hasSession : Bool
  destroyed : Bool
  passive : Nat
  hasIn : Bool
  /-- The states `handle()` was called with, and the errors. -/
  handled : List (CsState × Errno)
  /-- What the user's calls returned. -/
  calls : List CallResult
  deriving DecidableEq, Repr

/-- Before the datagram; the fields of what does not exist yet are zero. -/
def State.start (serviceRef : Int) : State where
  serviceRef := serviceRef
  unbound := 0
  sockets := 0
  targetRef := 0
  targetFreed := 0
  entryCreated := 0
  entryReleased := 0
  entryRef := 0
  entryState := .connecting
  entryError := 0
  idle := false
  hasSession := false
  destroyed := false
  passive := 0
  hasIn := false
  handled := []
  calls := []

/-! ## References -/

/-- `CommService::decref`. -/
def serviceDecref (s : State) : State :=
  { s with
    serviceRef := s.serviceRef - 1
    unbound := if s.serviceRef - 1 = 0 then s.unbound + 1 else s.unbound }

/-- `CommServiceTarget::decref`. -/
def targetDecref (s : State) : State :=
  let s := { s with targetRef := s.targetRef - 1 }
  if s.targetRef = 0 then { serviceDecref s with targetFreed := s.targetFreed + 1 } else s

/-- `__release_conn`. -/
def releaseConn (s : State) : State :=
  { s with entryReleased := s.entryReleased + 1, sockets := s.sockets - 1 }

/-- `CommServiceTarget::shutdown` of a service that is not reliable. -/
def targetShutdown (s : State) : Int × State :=
  if s.idle then (1, targetDecref (releaseConn { s with idle := false })) else (0, s)

/-- `CommSession::~CommSession`. -/
def destroySession (s : State) : State :=
  let s := { s with destroyed := true }
  if s.passive = 0 then s
  else
    let s := if s.passive = 2 then (targetShutdown s).2 else s
    targetDecref s

/-! ## The poller thread -/

/-- `Communicator::accept`. -/
def accept (i : Input) (s : State) : Option State :=
  if i.targetInit then some { s with serviceRef := s.serviceRef + 1, targetRef := 1 } else none

/-- `Communicator::accept_conn`. -/
def acceptConn (i : Input) (s : State) : Option State :=
  if i.setNonblock ∧ i.mallocEntry ∧ i.newConnection then
    some { s with
      entryCreated := s.entryCreated + 1
      entryState := .connected
      entryRef := 1 }
  else none

/-- `size -= n` on `size_t`. -/
def sizeSub (size n : Nat) : Nat := (size + UInt64.size - n % UInt64.size) % UInt64.size

/-- The loop of `recv_request`: the entry's state and error after it, or `none` when the listed
calls do not end it. -/
def appendLoop : List Append → Nat → ConnState × Errno → Option (ConnState × Errno)
  | [], _, _ => none
  | a :: as, size, e =>
    if a.ret = 0 then
      let size := sizeSub size a.size
      if 0 < size then appendLoop as size e else some e
    else if a.ret < 0 then some (.error, a.errno)
    else some (.success, e.2)

/-- `Communicator::recv_request`: its result and the state after it. -/
def recvRequest (i : Input) (s : State) : Option (Int × State) :=
  if i.newSession then
    let s := { s with
      hasSession := true
      passive := 1
      entryState := .receiving
      targetRef := s.targetRef + 1 }
    if i.messageIn then do
      let e ← appendLoop i.appends i.size (s.entryState, s.entryError)
      some (0, { s with hasIn := true, entryState := e.1, entryError := e.2 })
    else some (0, s)
  else some (-1, s)

/-- `Communicator::recvfrom`: whether it returned the entry, and the state after it. -/
def recvfrom (i : Input) (s : State) : Option (Bool × State) :=
  if i.dup then
    let s := { s with sockets := s.sockets + 1 }
    match accept i s with
    | none => some (false, { s with sockets := s.sockets - 1 })
    | some s =>
      match acceptConn i s with
      | none => some (false, targetDecref { s with sockets := s.sockets - 1 })
      | some s => do
        let (ret, s) ← recvRequest i s
        if 0 ≤ ret then some (true, s) else some (false, targetDecref (releaseConn s))
  else some (false, s)

/-! ## The user -/

/-- `Communicator::reply_message_unreliable`: the result and `errno`. -/
def replyMessageUnreliable (o : ReplyOutcome) : Int × Errno :=
  -- `(unsigned int)cnt > ENCODE_IOV_MAX` is also true of a negative count
  if o.encode < 0 then (-1, o.encodeErrno)
  else if (ENCODE_IOV_MAX : Int) < o.encode then (-1, EOVERFLOW)
  else if 0 < o.encode ∧ o.sendmsg < 0 then (-1, o.sendmsgErrno)
  else (0, o.encodeErrno)

/-- `Communicator::reply_unreliable`: the result, `errno` and the state after it. -/
def replyUnreliable (o : ReplyOutcome) (s : State) : Int × Errno × State :=
  if s.idle then
    let s := { s with idle := false }
    let (ret, errno) :=
      if o.messageOut then replyMessageUnreliable o else (-1, o.encodeErrno)
    if 0 ≤ ret then (0, errno, s) else (-1, errno, targetDecref (releaseConn s))
  else (-1, ENOENT, s)

/-- `Communicator::reply`. -/
def reply (o : ReplyOutcome) (s : State) : CallResult × State :=
  if s.passive ≠ 2 then (.einval, s)
  else
    let (ret, errno, s) := replyUnreliable o { s with passive := 3 }
    if ret = 0 then
      let s := { s with handled := s.handled ++ [(.success, 0)] }
      let s := if o.destroys then destroySession s else s
      let s := { s with entryRef := s.entryRef - 1 }
      (.done 0 0, if s.entryRef = 0 then targetDecref (releaseConn s) else s)
    else (.done (-1) errno, s)

/-- `Communicator::shutdown`. -/
def shutdown (s : State) : CallResult × State :=
  if s.passive ≠ 2 then (.einval, s)
  else
    let (ret, s) := targetShutdown { s with passive := 3 }
    if ret = 0 then (.done (-1) ENOENT, s) else (.done 0 0, s)

/-- One call of the user; there is nothing to call once the session is destroyed. -/
def userCall (s : State) (c : UserCall) : State :=
  if s.destroyed then s
  else
    let (r, s) := match c with
      | .reply o => reply o s
      | .shutdown => shutdown s
    { s with calls := s.calls ++ [r] }

def destroyOnce (s : State) : State := if s.destroyed then s else destroySession s

/-- The user's part of the first `handle()`. -/
def userHandle (i : Input) (s : State) : State :=
  let s := i.inHandle.foldl userCall s
  if i.destroysInHandle then destroyOnce s else s

/-! ## The handler thread and the whole run -/

/-- `Communicator::handle_recvfrom_result`, arm `PR_ST_SUCCESS`. -/
def handleRecvfromResult (i : Input) (s : State) : State :=
  if s.entryState = .success then
    let s := { s with entryState := .idle, idle := true }
    userHandle i { s with handled := s.handled ++ [(.toreply, 0)] }
  else
    let error := if s.entryState = .error then s.entryError else EBADMSG
    let s := userHandle i { s with handled := s.handled ++ [(.error, error)] }
    targetDecref (releaseConn s)

/-- The datagram from `recvfrom` to the destruction of its session, or `none` when the listed
`append` calls do not end the loop. -/
def run (i : Input) (serviceRef : Int) : Option State := do
  let (entry, s) ← recvfrom i (State.start serviceRef)
  if entry then some (destroyOnce (i.later.foldl userCall (handleRecvfromResult i s))) else some s

/-! ## The law -/

/-- The first call is accepted and every later one is refused. -/
def AcceptedOnce : List CallResult → Prop
  | [] => True
  | r :: rs => r ≠ .einval ∧ ∀ r' ∈ rs, r' = .einval

/-- What is asked of the end of a run that started with `serviceRef`. -/
structure Lawful (serviceRef : Int) (s : State) : Prop where
  accepted : (∃ error, (CsState.toreply, error) ∈ s.handled) → AcceptedOnce s.calls
  released : s.destroyed = true → s.entryReleased = 1
  freed : s.destroyed = true → s.targetFreed = 1
  unreferenced : s.destroyed = true → s.serviceRef = serviceRef

/-- Some listed `append` ends the message before the datagram is used up. -/
def endsMessage : List Append → Nat → Bool
  | [], _ => false
  | a :: as, size =>
    if a.ret = 0 then 0 < sizeSub size a.size && endsMessage as (sizeSub size a.size)
    else 0 < a.ret

/-- The datagram gets its objects and is a complete message. -/
def Complete (i : Input) : Prop :=
  i.dup ∧ i.targetInit ∧ i.setNonblock ∧ i.mallocEntry ∧ i.newConnection ∧ i.newSession ∧
    i.messageIn ∧ endsMessage i.appends i.size

/-! ## The references -/

/-- The references and the log of a state whose session has `passive` 1. -/
structure Refs (s : State) (service target : Int) (freed released : Nat) (destroyed : Bool)
    (handled : List (CsState × Errno)) : Prop where
  service : s.serviceRef = service
  target : s.targetRef = target
  freed : s.targetFreed = freed
  released : s.entryReleased = released
  destroyed : s.destroyed = destroyed
  handled : s.handled = handled
  passive : s.passive = 1

section Refs

variable {s : State} {service : Int} {freed released : Nat} {destroyed : Bool}
  {handled : List (CsState × Errno)}

/-- Dropping a reference that is not the last one. -/
theorem Refs.shared (h : Refs s service 2 freed released destroyed handled) :
    Refs (targetDecref s) service 1 freed released destroyed handled := by
  have hcount : targetDecref s = { s with targetRef := s.targetRef - 1 } := by
    simp [targetDecref, h.target]
  rw [hcount]
  exact ⟨h.service, by simp [h.target], h.freed, h.released, h.destroyed, h.handled, h.passive⟩

/-- Dropping the last reference frees the target and drops the service's. -/
theorem Refs.last (h : Refs s service 1 freed released destroyed handled) :
    Refs (targetDecref s) (service - 1) 0 (freed + 1) released destroyed handled := by
  have hcount : targetDecref s =
      { serviceDecref { s with targetRef := 0 } with targetFreed := s.targetFreed + 1 } := by
    simp [targetDecref, h.target]
  rw [hcount]
  exact ⟨by simp [serviceDecref, h.service], rfl, by simp [h.freed], h.released, h.destroyed,
    h.handled, h.passive⟩

theorem Refs.release {target : Int} (h : Refs s service target freed released destroyed handled) :
    Refs (releaseConn s) service target freed (released + 1) destroyed handled :=
  ⟨h.service, h.target, h.freed, by simp [releaseConn, h.released], h.destroyed, h.handled,
    h.passive⟩

/-- A call on a session whose `passive` is 1 is refused. -/
theorem userCall_passive (h : s.passive = 1) (c : UserCall) :
    userCall s c = if s.destroyed then s else { s with calls := s.calls ++ [.einval] } := by
  unfold userCall
  cases c <;> simp [reply, shutdown, h]

/-- So the calls of a user leave a trace in the log only. -/
theorem Refs.userCalls {target : Int} (h : Refs s service target freed released destroyed handled)
    (cs : List UserCall) :
    Refs (cs.foldl userCall s) service target freed released destroyed handled := by
  induction cs generalizing s with
  | nil => exact h
  | cons c cs ih =>
    rw [List.foldl_cons, userCall_passive h.passive]
    split
    · exact ih h
    · exact ih ⟨h.service, h.target, h.freed, h.released, h.destroyed, h.handled, h.passive⟩

/-- Destroying the session drops its reference to the target and nothing else. -/
theorem destroyOnce_alive (h : s.passive = 1) (alive : s.destroyed = false) :
    destroyOnce s = targetDecref { s with destroyed := true } := by
  simp [destroyOnce, destroySession, h, alive]

theorem Refs.destroyShared (h : Refs s service 2 freed released false handled) :
    Refs (destroyOnce s) service 1 freed released true handled := by
  rw [destroyOnce_alive h.passive h.destroyed]
  exact Refs.shared ⟨h.service, h.target, h.freed, h.released, rfl, h.handled, h.passive⟩

theorem Refs.destroyLast (h : Refs s service 1 freed released false handled) :
    Refs (destroyOnce s) (service - 1) 0 (freed + 1) released true handled := by
  rw [destroyOnce_alive h.passive h.destroyed]
  exact Refs.last ⟨h.service, h.target, h.freed, h.released, rfl, h.handled, h.passive⟩

theorem Refs.destroyGone {target : Int} (h : Refs s service target freed released true handled) :
    Refs (destroyOnce s) service target freed released true handled := by
  rw [destroyOnce, if_pos h.destroyed]
  exact h

/-- The user's part of the first `handle()`, early destruction included. -/
theorem Refs.userHandle (i : Input) (h : Refs s service 2 freed released false handled) :
    Refs (userHandle i s) service (if i.destroysInHandle then 1 else 2) freed released
      i.destroysInHandle handled := by
  have hcalls := h.userCalls i.inHandle
  simp only [Datagram.userHandle]
  cases i.destroysInHandle with
  | true => exact hcalls.destroyShared
  | false => exact hcalls

end Refs

/-! ## What `recvfrom` leaves -/

theorem endsMessage_of_appendLoop {as : List Append} {size : Nat} {e e' : ConnState × Errno}
    (start : e.1 = .receiving) (h : appendLoop as size e = some e') :
    e'.1 = .success ↔ endsMessage as size = true := by
  induction as generalizing size with
  | nil => cases h
  | cons a as ih =>
    simp only [appendLoop] at h
    simp only [endsMessage]
    by_cases hzero : a.ret = 0
    · simp only [hzero, if_true] at h ⊢
      by_cases hmore : 0 < sizeSub size a.size
      · rw [if_pos hmore] at h
        simpa [hmore] using ih h
      · rw [if_neg hmore] at h
        cases h
        simp [hmore, start]
    · simp only [if_neg hzero] at h ⊢
      by_cases hneg : a.ret < 0
      · rw [if_pos hneg] at h
        cases h
        simp only [reduceCtorEq, false_iff, decide_eq_true_eq]
        omega
      · rw [if_neg hneg] at h
        cases h
        simp only [true_iff, decide_eq_true_eq]
        omega

theorem appendLoop_of_endsMessage {as : List Append} {size : Nat} (e : ConnState × Errno)
    (h : endsMessage as size = true) : ∃ e', appendLoop as size e = some e' := by
  induction as generalizing size with
  | nil => cases h
  | cons a as ih =>
    simp only [endsMessage] at h
    simp only [appendLoop]
    by_cases hzero : a.ret = 0
    · simp only [hzero, if_true, Bool.and_eq_true, decide_eq_true_eq] at h ⊢
      rw [if_pos h.1]
      exact ih h.2
    · rw [if_neg hzero]
      split
      · exact ⟨_, rfl⟩
      · exact ⟨_, rfl⟩

/-- What `recv_request` can return. -/
theorem recvRequest_cases {i : Input} {s s' : State} {ret : Int}
    (h : recvRequest i s = some (ret, s')) :
    (ret = -1 ∧ i.newSession = false ∧ s' = s) ∨
    (ret = 0 ∧ i.newSession = true ∧
      (s'.entryState = .success ↔ i.messageIn = true ∧ endsMessage i.appends i.size = true) ∧
      ∃ e : ConnState × Errno, s' = { s with
        hasSession := true
        passive := 1
        targetRef := s.targetRef + 1
        hasIn := i.messageIn || s.hasIn
        entryState := e.1
        entryError := e.2 }) := by
  simp only [recvRequest] at h
  split at h
  · next hsession =>
    split at h
    · next hin =>
      simp only [Option.bind_eq_bind, Option.bind_eq_some_iff] at h
      obtain ⟨e, hloop, heq⟩ := h
      cases heq
      refine .inr ⟨rfl, hsession, ?_, e, by simp [hin]⟩
      simpa [hin] using endsMessage_of_appendLoop rfl hloop
    · next hin =>
      cases h
      exact .inr ⟨rfl, hsession, by simp [hin], (ConnState.receiving, s.entryError), by simp [hin]⟩
  · next hsession =>
    cases h
    exact .inl ⟨rfl, by simpa using hsession, rfl⟩

/-- An entry is handed over with the references it needs, in state success exactly when the
datagram is complete. -/
theorem recvfrom_received {i : Input} {serviceRef : Int} {s : State}
    (h : recvfrom i (State.start serviceRef) = some (true, s)) :
    Refs s (serviceRef + 1) 2 0 0 false [] ∧ (s.entryState = .success ↔ Complete i) := by
  simp only [recvfrom, accept, acceptConn] at h
  by_cases hdup : i.dup = true
  · by_cases hinit : i.targetInit = true
    · by_cases hconn : i.setNonblock = true ∧ i.mallocEntry = true ∧ i.newConnection = true
      · simp only [if_pos hdup, if_pos hinit, if_pos hconn, Option.bind_eq_bind,
          Option.bind_eq_some_iff] at h
        obtain ⟨⟨ret, s₁⟩, hrequest, hentry⟩ := h
        rcases recvRequest_cases hrequest with ⟨rfl, -, -⟩ | ⟨rfl, hsession, hends, e, rfl⟩
        · simp at hentry
        · cases hentry
          refine ⟨⟨rfl, rfl, rfl, rfl, rfl, rfl, rfl⟩, ?_⟩
          simpa [Complete, hdup, hinit, hconn, hsession] using hends
      · simp [hdup, hinit, hconn] at h
    · simp [hdup, hinit] at h
  · simp [hdup] at h

/-- A datagram that gets no session leaves no reference, no socket and no entry behind. -/
theorem recvfrom_refused {i : Input} {serviceRef : Int} {s : State}
    (h : recvfrom i (State.start serviceRef) = some (false, s)) :
    s.serviceRef = serviceRef ∧ s.sockets = 0 ∧ s.entryReleased = s.entryCreated ∧
      s.hasSession = false ∧ s.destroyed = false ∧ s.handled = [] := by
  simp only [recvfrom, accept, acceptConn] at h
  by_cases hdup : i.dup = true
  · by_cases hinit : i.targetInit = true
    · by_cases hconn : i.setNonblock = true ∧ i.mallocEntry = true ∧ i.newConnection = true
      · simp only [if_pos hdup, if_pos hinit, if_pos hconn, Option.bind_eq_bind,
          Option.bind_eq_some_iff] at h
        obtain ⟨⟨ret, s₁⟩, hrequest, hentry⟩ := h
        rcases recvRequest_cases hrequest with ⟨rfl, -, rfl⟩ | ⟨rfl, -⟩
        · cases hentry
          simp [targetDecref, serviceDecref, releaseConn, State.start]
        · cases hentry
      · simp only [if_pos hdup, if_pos hinit, if_neg hconn] at h
        cases h
        simp [targetDecref, serviceDecref, State.start]
    · simp only [if_pos hdup, hinit] at h
      cases h
      simp [State.start]
  · simp only [if_neg hdup] at h
    cases h
    simp [State.start]

theorem recvfrom_of_complete {i : Input} (serviceRef : Int) (h : Complete i) :
    ∃ s, recvfrom i (State.start serviceRef) = some (true, s) := by
  obtain ⟨hdup, hinit, hnonblock, hmalloc, hconn, hsession, hin, hends⟩ := h
  obtain ⟨e, he⟩ := appendLoop_of_endsMessage (ConnState.receiving, 0) hends
  simp only [recvfrom, accept, acceptConn, recvRequest, hdup, hinit, hnonblock, hmalloc, hconn,
    hsession, hin, if_true, and_self]
  exact ⟨_, by rw [show (State.start serviceRef).entryError = 0 from rfl, he]; rfl⟩

/-! ## The two ends -/

/-- A complete datagram is handed to the user, and nothing of it is ever released. -/
theorem complete_end (i : Input) {service : Int} {s : State}
    (h : Refs s service 2 0 0 false []) (hs : s.entryState = .success) :
    Refs (destroyOnce (i.later.foldl userCall (handleRecvfromResult i s))) service 1 0 0 true
      [(.toreply, 0)] := by
  have htold : Refs { s with
      entryState := .idle, idle := true, handled := s.handled ++ [(.toreply, 0)] }
      service 2 0 0 false [(.toreply, 0)] :=
    ⟨h.service, h.target, h.freed, h.released, h.destroyed, by simp [h.handled], h.passive⟩
  have hend := (htold.userHandle i).userCalls i.later
  simp only [handleRecvfromResult, hs, if_true]
  cases hearly : i.destroysInHandle with
  | true =>
    simp only [hearly, if_true] at hend
    exact hend.destroyGone
  | false =>
    simp only [hearly, Bool.false_eq_true, if_false] at hend
    exact hend.destroyShared

/-- A datagram that is not complete is reported as an error, and all of it is released. -/
theorem error_end (i : Input) {service : Int} {s : State}
    (h : Refs s service 2 0 0 false []) (hs : s.entryState ≠ .success) :
    ∃ error, Refs (destroyOnce (i.later.foldl userCall (handleRecvfromResult i s))) (service - 1) 0
      1 1 true [(.error, error)] := by
  simp only [handleRecvfromResult, hs, if_false]
  generalize (if s.entryState = .error then s.entryError else EBADMSG) = error
  refine ⟨error, ?_⟩
  have htold : Refs { s with handled := s.handled ++ [(.error, error)] }
      service 2 0 0 false [(.error, error)] :=
    ⟨h.service, h.target, h.freed, h.released, h.destroyed, by simp [h.handled], h.passive⟩
  have hend := (htold.userHandle i).release
  cases hearly : i.destroysInHandle with
  | true =>
    -- the session's reference went first, the entry's is the last
    simp only [hearly, if_true] at hend
    exact (hend.last.userCalls i.later).destroyGone
  | false =>
    simp only [hearly, Bool.false_eq_true, if_false] at hend
    exact (hend.shared.userCalls i.later).destroyLast

/-! ## The law -/

/-- What a complete datagram leaves over once its session is destroyed: its entry, its target and
the target's reference to the service. -/
theorem complete_leaks {i : Input} (serviceRef : Int) (h : Complete i) :
    ∃ s, run i serviceRef = some s ∧ Refs s (serviceRef + 1) 1 0 0 true [(.toreply, 0)] := by
  obtain ⟨s, hrecv⟩ := recvfrom_of_complete serviceRef h
  obtain ⟨hr, hs⟩ := recvfrom_received hrecv
  refine ⟨_, ?_, complete_end i hr (hs.mpr h)⟩
  simp [run, hrecv]

/-- The lifecycle law holds of every end of a datagram's run exactly when the datagram is not a
complete message. -/
theorem lawful_iff (i : Input) (serviceRef : Int) :
    (∀ s, run i serviceRef = some s → Lawful serviceRef s) ↔ ¬ Complete i := by
  constructor
  · intro hlaw hcomplete
    obtain ⟨s, hrun, hrefs⟩ := complete_leaks serviceRef hcomplete
    have hone := (hlaw s hrun).released hrefs.destroyed
    rw [hrefs.released] at hone
    omega
  · intro hpart s hrun
    simp only [run, Option.bind_eq_bind, Option.bind_eq_some_iff] at hrun
    obtain ⟨⟨entry, s₁⟩, hrecv, hend⟩ := hrun
    cases entry with
    | true =>
      cases hend
      obtain ⟨hr, hs⟩ := recvfrom_received hrecv
      obtain ⟨error, hrefs⟩ := error_end i hr fun hsuccess => hpart (hs.mp hsuccess)
      refine ⟨fun ⟨e, he⟩ => ?_, fun _ => hrefs.released, fun _ => hrefs.freed, fun _ => ?_⟩
      · rw [hrefs.handled] at he
        simp at he
      · rw [hrefs.service]
        omega
    | false =>
      cases hend
      obtain ⟨-, -, -, -, halive, hhandled⟩ := recvfrom_refused hrecv
      refine ⟨fun ⟨e, he⟩ => ?_, ?_, ?_, ?_⟩
      · rw [hhandled] at he
        cases he
      all_goals simp [halive]

/-- A datagram of three bytes that is a message, and a session that is replied to in `handle()` and
destroyed later. -/
def repliedDatagram : Input where
  dup := true
  targetInit := true
  setNonblock := true
  mallocEntry := true
  newConnection := true
  newSession := true
  messageIn := true
  size := 3
  appends := [⟨1, 3, 0⟩]
  inHandle := [.reply ⟨true, 1, 0, 3, 0, false⟩]
  destroysInHandle := false
  later := []

/-- The one reply to it is refused, and its entry is never released. -/
theorem repliedDatagram_unlawful :
    ∃ s, run repliedDatagram 1 = some s ∧ ¬ Lawful 1 s := by
  have hcomplete : Complete repliedDatagram := by
    unfold Complete
    decide
  obtain ⟨s, hrun, hrefs⟩ := complete_leaks 1 hcomplete
  refine ⟨s, hrun, fun hlaw => ?_⟩
  have hone := hlaw.released hrefs.destroyed
  rw [hrefs.released] at hone
  omega

end WorkflowKernel.Communicator.Datagram
