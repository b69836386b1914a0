import Mathlib.Order.Lattice.Nat
import Mathlib.Order.WithBot
import WorkflowKernel.Poller.Table.Model

/-!
# The timeouts of a session

`session->timeout` is the rest of the whole limit, the `send_timeout()` or `receive_timeout()`. The
poller is given what is left of it when that is no more than the response timeout, and then it
becomes 0: there is nothing to watch any more. An `int` is an integer in its range; conversions and
differences wrap.

`deadline` is the point in time that the poller has for the socket, none for a negative timeout. Every
call reads the clock once, which the poller is taken to read the same.
-/

namespace WorkflowKernel.Communicator.Timeout

open WorkflowKernel.Communicator
open WorkflowKernel.Poller.Table (Timespec absTimeout nodeSetTimeout)

/-! ## Integers -/

/-- The values of an `int`. -/
def IsInt (x : Int) : Prop := -2147483648 ≤ x ∧ x ≤ 2147483647

instance (x : Int) : Decidable (IsInt x) := inferInstanceAs (Decidable (_ ∧ _))

/-- The conversion to `int`. -/
def toInt (x : Int) : Int := x.bmod 4294967296

/-- The conversion of an `int` to `unsigned int`. -/
def toUnsigned (x : Int) : Int := x % 4294967296

/-! ## The session -/

/-- What of `CommSession` the timeouts are kept in. -/
structure Session where
  timeout : Int
  beginSec : Int
  beginNsec : Int
  deriving DecidableEq, Repr

/-- What the session's virtual functions return, and `append` of its message. -/
structure Answers where
  append : Int
  firstTimeout : Int
  receiveTimeout : Int
  keepAliveTimeout : Int
  deriving DecidableEq, Repr

/-- A connection entry and its session, and what the poller has for its socket. -/
structure State where
  session : Session
  state : ConnState
  /-- `entry->service` is not NULL. -/
  service : Bool
  registered : Bool
  deadline : Option Timespec
  deriving DecidableEq, Repr

/-- `Communicator::first_timeout`. -/
def firstTimeout (responseTimeout : Int) (session : Session) (now : Timespec) : Int × Session :=
  if responseTimeout < 0 ∨ toUnsigned session.timeout ≤ toUnsigned responseTimeout then
    (session.timeout, { session with timeout := 0 })
  else (responseTimeout, { session with beginSec := now.sec, beginNsec := now.nsec })

/-- The milliseconds since `begin_time`, each difference truncated. -/
def timeUsed (session : Session) (now : Timespec) : Int :=
  1000 * (now.sec - session.beginSec) + (now.nsec - session.beginNsec).tdiv 1000000

/-- `Communicator::next_timeout`. -/
def nextTimeout (responseTimeout : Int) (session : Session) (now : Timespec) : Int × Session :=
  if 0 < session.timeout then
    let timeLeft := toInt (session.timeout - toInt (timeUsed session now))
    if timeLeft ≤ responseTimeout then
      (if timeLeft < 0 then 0 else timeLeft, { session with timeout := 0 })
    else (responseTimeout, session)
  else (responseTimeout, session)

/-- `Communicator::first_timeout_send`. -/
def firstTimeoutSend (responseTimeout sendTimeout : Int) (session : Session) (now : Timespec) :
    Int × Session :=
  firstTimeout responseTimeout { session with timeout := sendTimeout } now

/-- `Communicator::first_timeout_recv`. -/
def firstTimeoutRecv (responseTimeout receiveTimeout : Int) (session : Session) (now : Timespec) :
    Int × Session :=
  firstTimeout responseTimeout { session with timeout := receiveTimeout } now

/-! ## Who arms the poller -/

/-- `mpoller_add`, `mpoller_mod` or `mpoller_set_timeout` with a timeout and what became of the
session. -/
def arm (s : State) (r : Int × Session) (now : Timespec) : State :=
  { s with session := r.2, deadline := absTimeout r.1 now }

/-- `Communicator::append_message`. -/
def appendMessage (responseTimeout : Int) (a : Answers) (now : Timespec) (s : State) : State :=
  if 0 < a.append then
    let s := { s with state := .success }
    if !s.service then
      let s := { s with session := { s.session with timeout := a.keepAliveTimeout } }
      if a.keepAliveTimeout = 0 then { s with registered := false, deadline := none }
      else arm s (a.keepAliveTimeout, s.session) now
    else arm s (-1, s.session) now
  else if a.append = 0 ∧ s.session.timeout ≠ 0 then
    if s.session.beginSec < 0 then
      let timeout := if s.session.beginNsec < 0 then a.firstTimeout else 0
      if timeout = 0 then
        arm s (firstTimeoutRecv responseTimeout a.receiveTimeout s.session now) now
      else arm s (timeout, { s.session with beginNsec := 0 }) now
    else arm s (nextTimeout responseTimeout s.session now) now
  else s

/-- `Communicator::partial_written`, behind a write event that sent a part. -/
def partialWritten (responseTimeout : Int) (now : Timespec) (s : State) : State :=
  arm s (nextTimeout responseTimeout s.session now) now

/-! ## Limits -/

/-- The end of a timeout that starts at `t`, in nanoseconds; a negative one has none. -/
def limit (timeout : Int) (t : Timespec) : WithTop Nat :=
  if timeout < 0 then ⊤ else WithTop.some (t.ns + timeout.toNat * 1000000)

variable {timeout : Int} {now t : Timespec}

theorem limit_of_neg (h : timeout < 0) : limit timeout t = ⊤ := if_pos h

theorem limit_of_nonneg (h : 0 ≤ timeout) :
    limit timeout t = WithTop.some (t.ns + timeout.toNat * 1000000) :=
  if_neg (Int.not_lt.mpr h)

theorem nodeSetTimeout_ns (timeout : Nat) (now : Timespec) :
    (nodeSetTimeout timeout now).ns = now.ns + timeout * 1000000 := by
  unfold nodeSetTimeout Timespec.plus Timespec.ns
  split
  next hcarry =>
    simp only
    omega
  next =>
    simp only
    omega

theorem absTimeout_of_neg (h : timeout < 0) : absTimeout timeout now = none :=
  if_neg (Int.not_le.mpr h)

theorem absTimeout_of_nonneg (h : 0 ≤ timeout) (now : Timespec) :
    ∃ d, absTimeout timeout now = some d ∧ d.ns = now.ns + timeout.toNat * 1000000 :=
  ⟨_, if_pos h, nodeSetTimeout_ns _ _⟩

/-- The milliseconds that `next_timeout` finds used are those that have passed, up to one. -/
theorem timeUsed_bounds {session : Session} {start : Timespec} (hsec : session.beginSec = start.sec)
    (hnsec : session.beginNsec = start.nsec) (hle : start.ns ≤ now.ns) :
    0 ≤ timeUsed session now ∧
      timeUsed session now * 1000000 < (now.ns : Int) - start.ns + 1000000 ∧
      (now.ns : Int) - start.ns < timeUsed session now * 1000000 + 1000000 := by
  have hnow := now.nsec_lt
  have hstart := start.nsec_lt
  unfold Timespec.ns at hle ⊢
  rw [timeUsed, hsec, hnsec]
  rcases Int.le_total 0 ((now.nsec : Int) - start.nsec) with hpos | hneg
  · rw [Int.tdiv_eq_ediv_of_nonneg hpos]
    omega
  · have hflip : ((now.nsec : Int) - start.nsec).tdiv 1000000 =
        -(((start.nsec : Int) - now.nsec) / 1000000) := by
      rw [← Int.tdiv_eq_ediv_of_nonneg (by omega), ← Int.neg_tdiv, Int.neg_sub]
    rw [hflip]
    omega

/-- The time left does not wrap in the end, as the elapsed time is below 2³¹ ms. -/
theorem timeLeft_eq {timeout used : Int} (htimeout : IsInt timeout) (hpos : 0 < timeout)
    (hused : 0 ≤ used) (hle : used ≤ 2147483648) : toInt (timeout - toInt used) = timeout - used := by
  obtain ⟨hmin, hmax⟩ := htimeout
  unfold toInt
  rw [Int.sub_bmod_bmod]
  exact Int.bmod_eq_of_le (by omega) (by omega)

/-! ## What the two computations return -/

section Computations

variable {responseTimeout : Int} {session : Session} {start : Timespec}

/-- The whole limit is not folded in yet: it started at `start` and is longer than the response
timeout. -/
structure Watching (responseTimeout timeout : Int) (start : Timespec) (session : Session) :
    Prop where
  rest : session.timeout = timeout
  longer : timeout < 0 ∨ responseTimeout < timeout
  response : 0 ≤ responseTimeout
  sec : session.beginSec = start.sec
  nsec : session.beginNsec = start.nsec

/-- `first_timeout` takes the shorter one, by an unsigned comparison. -/
theorem firstTimeout_cases (hresponse : IsInt responseTimeout) (session : Session)
    (htimeout : IsInt session.timeout) (now : Timespec) :
    (responseTimeout < 0 ∨ 0 ≤ session.timeout ∧ session.timeout ≤ responseTimeout) ∧
      firstTimeout responseTimeout session now = (session.timeout, { session with timeout := 0 }) ∨
    ∃ session', firstTimeout responseTimeout session now = (responseTimeout, session') ∧
      Watching responseTimeout session.timeout now session' := by
  obtain ⟨hmin, hmax⟩ := hresponse
  obtain ⟨hmin', hmax'⟩ := htimeout
  unfold firstTimeout toUnsigned
  split
  next h => exact .inl ⟨by omega, rfl⟩
  next h => exact .inr ⟨_, rfl, rfl, by omega, by omega, rfl, rfl⟩

/-- `next_timeout` folds the whole limit in when it ends first. -/
theorem nextTimeout_cases {now : Timespec} (h : Watching responseTimeout timeout start session)
    (htimeout : IsInt timeout) (hle : start.ns ≤ now.ns)
    (helapsed : now.ns < start.ns + 2147483648 * 1000000) :
    (timeout < 0 ∨ responseTimeout < timeout - timeUsed session now) ∧
      nextTimeout responseTimeout session now = (responseTimeout, session) ∨
    (0 < timeout ∧ timeout - timeUsed session now ≤ responseTimeout) ∧
      nextTimeout responseTimeout session now =
        (max (timeout - timeUsed session now) 0, { session with timeout := 0 }) := by
  obtain ⟨hpos, hupper, -⟩ := timeUsed_bounds h.sec h.nsec hle
  have hlonger := h.longer
  have hresponse := h.response
  unfold nextTimeout
  rw [h.rest]
  split
  next htpos =>
    rw [timeLeft_eq htimeout htpos hpos (by omega)]
    simp only
    split
    next hshort =>
      refine .inr ⟨⟨htpos, hshort⟩, ?_⟩
      congr 1
      split <;> omega
    next hlong => exact .inl ⟨.inr (by omega), rfl⟩
  next hneg => exact .inl ⟨.inl (by omega), rfl⟩

end Computations

end WorkflowKernel.Communicator.Timeout
