import Mathlib.Data.List.Count
import WorkflowKernel.IoService.Model

/-!
# What a service counts

Three laws that hold however the session list is used. Each accepted request is in exactly one
place: at the kernel, with the poller thread, in a result, with a handler, or finished. `ref` is the
number of results and handlers that hold a reference, and one for the bind until it is shut down.
The bind's reference has one owner, which passes from the registration to the thread that runs
`shutdown_io_service`.

## What is proved

- `lost_step`: no step loses or invents a session; what is accepted and not handled is somewhere.
- `Refs.step`: the reference law, with the owner of the bind's reference.
- `Refs.quiet`: when `ref` is 0, only the kernel still has sessions.
-/

namespace WorkflowKernel.IoService

open WorkflowKernel.Transition WorkflowKernel.ListHead WorkflowKernel.Communicator

section Counting

variable {α : Type} [BEq α] [LawfulBEq α] {a : α} {l : List α}

/-- Counting what an erased member leaves. -/
theorem countP_of_mem (h : a ∈ l) (p : α → Bool) :
    l.countP p = (l.erase a).countP p + if p a then 1 else 0 := by
  rw [(List.perm_cons_erase h).countP_eq p, List.countP_cons]

theorem count_of_mem [DecidableEq α] (h : a ∈ l) (b : α) :
    l.count b = (l.erase a).count b + if a = b then 1 else 0 := by
  rw [(List.perm_cons_erase h).count_eq b, List.count_cons]
  simp only [beq_iff_eq]

end Counting

variable {S : Type} [DecidableEq S] {s t : State S} {x y : S} {p q : Pc S} {e : Event S}

/-! ## The counters -/

def Phase.fetched (x : S) : Phase S → Nat
  | .incref _ y _ => if y = x then 1 else 0
  | _ => 0

/-- The completions that the poller thread has still to fetch. -/
def Phase.cnt : Phase S → Nat
  | .rest => 0
  | .event cnt | .incref cnt _ _ => cnt

/-- The places where an accepted session is in the session list. -/
def State.waits (s : State S) (x : S) : Nat :=
  s.submitted.count x + s.completed.countP (fun e => e.1 = x) + s.poller.fetched x +
    s.results.count (.success x) + s.threads.count (.listDel x)

def Result.holds : Result S → Bool
  | .success _ => true
  | _ => false

def Pc.holds : Pc S → Bool
  | .listDel _ | .handle _ | .decref => true
  | _ => false

/-- The references that results and threads hold, and the one that `shutdown_io_service` is going to
drop. -/
def State.holders (s : State S) : Nat := s.results.countP Result.holds + s.threads.countP Pc.holds

/-- The bind's reference, which `shutdown_io_service` passes on. -/
def State.own (s : State S) : Nat := if 0 ≤ s.eventFd then 1 else 0

/-- The owners of the bind's reference. -/
def State.owners (s : State S) : Nat :=
  (if s.registered then 1 else 0) + (if s.pipe then 1 else 0) + s.results.count .deleted +
    s.threads.count .shutdown + if s.unbinding || s.registered then 0 else 1

/-- The log counts what is written. -/
theorem accepts_write : (s.write e).accepts x = s.accepts x + if e = .accepted x then 1 else 0 := by
  unfold State.accepts State.write
  rw [List.count_append, List.count_singleton]
  simp only [beq_iff_eq]

theorem handles_write : (s.write e).handles x = s.handles x + if e.isHandled x then 1 else 0 := by
  unfold State.handles State.write
  rw [List.countP_append, List.countP_singleton]

theorem unbounds_write : (s.write e).unbounds = s.unbounds + if e = .unbound then 1 else 0 := by
  unfold State.unbounds State.write
  rw [List.count_append, List.count_singleton]
  simp only [beq_iff_eq]

omit [DecidableEq S] in
/-- `handle` is logged once, whatever the result says. -/
theorem callHandle_eq (s : State S) (x : S) (res : Int) :
    ∃ state error, callHandle s x res = s.write (.handled x state error) := by
  unfold callHandle
  split
  · exact ⟨_, _, rfl⟩
  · exact ⟨_, _, rfl⟩

omit [DecidableEq S] in
theorem callHandle_threads {res : Int} : (callHandle s x res).threads = s.threads := by
  obtain ⟨state, error, hcall⟩ := callHandle_eq s x res
  rw [hcall]
  rfl

omit [DecidableEq S] in
theorem guarded_eq_some {P : Prop} [Decidable P] (h : guarded P s = some t) : P ∧ s = t := by
  unfold guarded at h
  split at h
  · next hP => exact ⟨hP, Option.some.inj h⟩
  · cases h

omit [DecidableEq S] in
theorem eventFails_log (s : State S) (cnt : Nat) (error : Errno) :
    (eventFails s cnt error).log = s.log := by
  unfold eventFails
  split <;> rfl

omit [DecidableEq S] in
theorem eventFails_threads (s : State S) (cnt : Nat) (error : Errno) :
    (eventFails s cnt error).threads = s.threads := by
  unfold eventFails
  split <;> rfl

/-! ## The sessions in the list -/

/-- A thread comes to a `list_del` with its session. -/
theorem waits_enter : (s.enter p).waits x = s.waits x + if p = .listDel x then 1 else 0 := by
  unfold State.waits State.enter
  simp only [List.count_cons, beq_iff_eq]
  omega

/-- And takes it away from there. -/
theorem waits_leave (hp : p ∈ s.threads) :
    s.waits x = (s.leave p).waits x + if p = .listDel x then 1 else 0 := by
  have hcount := count_of_mem hp (.listDel x)
  unfold State.waits State.leave
  simp only
  omega

/-- A result that is taken has its session with it. -/
theorem waits_taken {r : Result S} (hr : r ∈ s.results) :
    s.waits x = (s.taken r).waits x + if r = .success x then 1 else 0 := by
  have hcount := count_of_mem hr (.success x)
  unfold State.waits State.taken
  simp only
  omega

/-- An accepted session waits at the kernel. -/
theorem waits_accept : (accept s y).waits x = s.waits x + if y = x then 1 else 0 := by
  unfold State.waits accept State.write
  simp only [List.count_append, List.count_singleton, beq_iff_eq]
  omega

/-- From the kernel to its completions, to the poller thread and to the results a session waits
on. -/
theorem waits_complete {res : Int} (hy : y ∈ s.submitted) :
    (complete s y res).waits x = s.waits x := by
  have hsub := count_of_mem hy x
  unfold State.waits complete
  simp only [List.countP_append, List.countP_singleton, decide_eq_true_eq]
  omega

theorem waits_aioFinish {cnt : Nat} {res : Int} (hp : s.poller = .event (cnt + 1))
    (hy : (y, res) ∈ s.completed) : (aioFinish s cnt y res).waits x = s.waits x := by
  have hcomp := countP_of_mem hy (fun e => e.1 = x)
  simp only [decide_eq_true_eq] at hcomp
  unfold State.waits aioFinish
  simp only [hp, Phase.fetched]
  omega

theorem waits_aioFinished {cnt : Nat} {res : Int} (hp : s.poller = .incref cnt y res) :
    (aioFinished s cnt y res).waits x = s.waits x := by
  unfold State.waits aioFinished State.setRes
  simp only [hp, Phase.fetched, List.count_append, List.count_singleton, beq_iff_eq,
    Result.success.injEq]
  omega

/-- The last `decref` fetches a completion itself. -/
theorem waits_drained {res : Int} (hy : (y, res) ∈ s.completed) :
    s.waits x = (s.drained y res).waits x + if y = x then 1 else 0 := by
  have hcomp := countP_of_mem hy (fun e => e.1 = x)
  simp only [decide_eq_true_eq] at hcomp
  unfold State.waits State.drained State.setRes
  simp only
  omega

theorem waits_endRegistration {r : Result S} (hr : r.holds = false) :
    (s.endRegistration r).waits x = s.waits x := by
  have hne : r ≠ .success x := by
    rintro rfl
    cases hr
  unfold State.waits State.endRegistration
  simp [hne]

/-- What the poller thread has not fetched is still with the kernel. -/
theorem waits_putBack {cnt n : Nat} (hp : s.poller = .event n) :
    (s.putBack cnt).waits x = s.waits x := by
  unfold State.waits State.putBack
  simp [hp, Phase.fetched]

theorem waits_eventFails {cnt n : Nat} {error : Errno} (hp : s.poller = .event n) :
    (eventFails s cnt error).waits x = s.waits x := by
  unfold eventFails
  split
  · exact (waits_endRegistration rfl).trans (waits_putBack hp)
  · exact waits_putBack hp

theorem waits_readEvent (hp : s.poller = .rest) : (readEvent s).waits x = s.waits x := by
  unfold State.waits readEvent
  simp [hp, Phase.fetched]

theorem waits_eventEnds (hp : s.poller = .event 0) :
    State.waits { s with poller := .rest } x = s.waits x := by
  unfold State.waits
  simp [hp, Phase.fetched]

theorem waits_handlePipe (s : State S) (x : S) : (handlePipe s).waits x = s.waits x := by
  unfold State.waits handlePipe
  simp

/-! ## Each accepted request is in one place -/

def Result.owes (x : S) (r : Result S) : Int := if r = .success x then 1 else 0

def Pc.owes (x : S) (p : Pc S) : Int := if p = .listDel x ∨ p = .handle x then 1 else 0

/-- The accepted requests of a session whose `handle` has not been called. -/
def State.owed (s : State S) (x : S) : Nat := s.waits x + s.threads.count (.handle x)

/-- What is accepted and neither handled nor anywhere. -/
def State.lost (s : State S) (x : S) : Int := s.accepts x - (s.handles x + s.owed x)

/-- A thread at a `list_del` or a `handle` owes its session that call. -/
theorem lost_enter : (s.enter p).lost x = s.lost x - p.owes x := by
  have hwaits := waits_enter (s := s) (p := p) (x := x)
  have hhandle : (s.enter p).threads.count (.handle x) =
      s.threads.count (.handle x) + if p = .handle x then 1 else 0 := by
    unfold State.enter
    simp only [List.count_cons, beq_iff_eq]
  unfold State.lost State.owed Pc.owes
  rw [hwaits, hhandle]
  show (s.accepts x : Int) - _ = (s.accepts x : Int) - _ - _
  have hhandles : (s.enter p).handles x = s.handles x := rfl
  rw [hhandles]
  by_cases hdel : p = .listDel x
  · subst hdel
    simp
    omega
  · simp only [hdel, if_false, false_or]
    split <;> omega

theorem lost_leave (hp : p ∈ s.threads) : (s.leave p).lost x = s.lost x + p.owes x := by
  have hback : ((s.leave p).enter p).lost x = s.lost x := by
    unfold State.lost State.owed State.waits State.enter State.leave State.accepts State.handles
    simp only [(List.perm_cons_erase hp).symm.count_eq]
  rw [lost_enter] at hback
  omega

theorem lost_taken {r : Result S} (hr : r ∈ s.results) :
    (s.taken r).lost x = s.lost x + r.owes x := by
  have hwaits := waits_taken (x := x) hr
  unfold State.lost State.owed Result.owes
  rw [hwaits]
  show (s.accepts x : Int) - (s.handles x + _) = s.accepts x - (s.handles x + _) + _
  have hthreads : (s.taken r).threads = s.threads := rfl
  rw [hthreads]
  split <;> omega

theorem lost_setRes {res : Int} : (s.setRes y res).lost x = s.lost x := rfl

/-- Only the acceptance of a session and its `handle` change the account. -/
theorem lost_write : (s.write e).lost x =
    s.lost x + (if e = .accepted x then 1 else 0) - if e.isHandled x then 1 else 0 := by
  have howed : (s.write e).owed x = s.owed x := rfl
  unfold State.lost
  rw [accepts_write, handles_write, howed]
  split
  · split <;> omega
  · split <;> omega

/-- A `handle` settles what is owed to the session. -/
theorem lost_callHandle {res : Int} :
    (callHandle s y res).lost x = s.lost x - if y = x then 1 else 0 := by
  obtain ⟨state, error, hcall⟩ := callHandle_eq s y res
  rw [hcall, lost_write]
  simp [Event.isHandled, eq_comm]

/-- A step that logs nothing and leaves every session where it is. -/
theorem lost_of_waits (hlog : t.log = s.log) (hthreads : t.threads = s.threads)
    (hwaits : t.waits x = s.waits x) : t.lost x = s.lost x := by
  unfold State.lost State.accepts State.handles State.owed
  rw [hlog, hwaits, hthreads]

/-- An accepted request is at the kernel, a refused one nowhere. -/
theorem lost_request (s : State S) (y : S) (o : Submit) : (request s y o).lost x = s.lost x := by
  have hrefuse : ∀ error, (refuse s y error).lost x = s.lost x := by
    intro error
    unfold refuse
    rw [lost_write, lost_setRes]
    simp [Event.isHandled]
  have haccept : (accept s y).lost x = s.lost x := by
    have haccepts : (accept s y).accepts x = s.accepts x + if y = x then 1 else 0 := by
      refine accepts_write.trans ?_
      simp [State.accepts]
    have hhandles : (accept s y).handles x = s.handles x := by
      refine handles_write.trans ?_
      simp [State.handles, Event.isHandled]
    have hthreads : (accept s y).threads = s.threads := rfl
    unfold State.lost State.owed
    rw [waits_accept, haccepts, hhandles, hthreads]
    split <;> omega
  unfold request
  split
  · exact hrefuse ENOENT
  · cases o with
    | submitted => exact haccept
    | failed error => exact hrefuse error

/-- The completion that the last `decref` fetches is owed its `handle`. -/
theorem lost_drained {res : Int} (hy : (y, res) ∈ s.completed) :
    (s.drained y res).lost x = s.lost x + if y = x then 1 else 0 := by
  have hwaits := waits_drained (x := x) hy
  unfold State.lost State.owed
  rw [hwaits]
  show (s.accepts x : Int) - (s.handles x + _) = s.accepts x - (s.handles x + _) + _
  have hthreads : (s.drained y res).threads = s.threads := rfl
  rw [hthreads]
  split <;> omega

/-- A handler takes over what the result owes. -/
theorem lost_take {r : Result S} (hr : r ∈ s.results) : (take s r).lost x = s.lost x := by
  cases r with
  | success y =>
    show ((s.taken (.success y)).enter (.listDel y)).lost x = _
    rw [lost_enter, lost_taken hr]
    simp [Result.owes, Pc.owes]
  | deleted =>
    show ((s.taken .deleted).enter .shutdown).lost x = _
    rw [lost_enter, lost_taken hr]
    simp [Result.owes, Pc.owes]
  | error error | stopped error =>
    show ((s.taken _).write (.stop error)).lost x = _
    rw [lost_write, lost_taken hr]
    simp [Result.owes, Event.isHandled]

theorem lost_ioUnbind (s : State S) (x : S) : (ioUnbind s).lost x = s.lost x := by
  unfold ioUnbind
  split
  · rfl
  · rw [lost_enter]
    exact Int.sub_zero _

/-- The thread that takes a session off the list owes its `handle()`, -/
theorem lost_listDel {y : S} (hy : .listDel y ∈ s.threads) : (listDel s y).lost x = s.lost x := by
  have hleave := lost_leave (x := x) hy
  unfold listDel
  rw [lost_enter]
  change (s.leave (.listDel y)).lost x - _ = _
  rw [hleave]
  simp [Pc.owes]

/-- and calls it. -/
theorem lost_handle {y : S} (hy : .handle y ∈ s.threads) : (handle s y).lost x = s.lost x := by
  unfold handle
  rw [lost_enter, lost_leave, lost_callHandle]
  · simp [Pc.owes]
  · rwa [callHandle_threads]

theorem lost_shutdown (hp : .shutdown ∈ s.threads) : (shutdown s).lost x = s.lost x := by
  unfold shutdown
  rw [lost_enter, lost_leave]
  · simp [Pc.owes]
    rfl
  · exact hp

theorem lost_decref (hp : .decref ∈ s.threads) : (decref s).lost x = s.lost x := by
  have hleave : ({ s with ref := s.ref - 1 }.leave .decref).lost x = s.lost x := by
    rw [lost_leave]
    · exact Int.add_zero _
    · exact hp
  unfold decref
  split
  · rw [lost_enter, hleave]
    exact Int.sub_zero _
  · exact hleave

/-- The last reference loses no session by draining, -/
theorem lost_drain (hp : .drain ∈ s.threads) : (drain s).lost x = s.lost x := by
  unfold drain
  split
  · rw [lost_write, lost_leave hp]
    simp [Event.isHandled, Pc.owes]
  · rw [lost_enter, lost_leave hp]
    simp [Pc.owes]

/-- No step loses or invents a session. -/
theorem lost_step {l : Label S} (h : step s l = some t) (x : S) : t.lost x = s.lost x := by
  cases l with
  | request y o =>
    obtain ⟨-, rfl⟩ := guarded_eq_some h
    exact lost_request s y o
  | complete y res =>
    obtain ⟨hy, rfl⟩ := guarded_eq_some h
    exact lost_of_waits rfl rfl (waits_complete hy)
  | readEvent =>
    obtain ⟨⟨-, hp⟩, rfl⟩ := guarded_eq_some h
    exact lost_of_waits rfl rfl (waits_readEvent hp)
  | aioFinish y res =>
    simp only [step, stepFinish] at h
    split at h
    · next cnt hp =>
      split at h
      · next hy =>
        cases h
        exact lost_of_waits rfl rfl (waits_aioFinish hp hy)
      · cases h
    · cases h
  | aioFinished =>
    simp only [step, stepFinished] at h
    split at h
    · next cnt y res hp =>
      cases h
      exact lost_of_waits rfl rfl (waits_aioFinished hp)
    · cases h
  | eventEnds =>
    obtain ⟨hp, rfl⟩ := guarded_eq_some h
    exact lost_of_waits rfl rfl (waits_eventEnds hp)
  | aioFinishNull error =>
    simp only [step, stepNull] at h
    split at h
    · next cnt hp =>
      cases h
      exact lost_of_waits (eventFails_log ..) (eventFails_threads ..) (waits_eventFails hp)
    · cases h
  | eventFails error =>
    simp only [step, stepFails] at h
    split at h
    · next cnt hp =>
      cases h
      exact lost_of_waits (eventFails_log ..) (eventFails_threads ..) (waits_eventFails hp)
    · cases h
  | handlePipe =>
    obtain ⟨-, rfl⟩ := guarded_eq_some h
    exact lost_of_waits rfl rfl (waits_handlePipe s x)
  | pollerStop error =>
    obtain ⟨-, rfl⟩ := guarded_eq_some h
    exact lost_of_waits rfl rfl (waits_endRegistration rfl)
  | ioUnbind =>
    obtain ⟨-, rfl⟩ := guarded_eq_some h
    exact lost_ioUnbind s x
  | take r =>
    obtain ⟨hr, rfl⟩ := guarded_eq_some h
    exact lost_take hr
  | listDel y =>
    obtain ⟨hy, rfl⟩ := guarded_eq_some h
    exact lost_listDel hy
  | handle y =>
    obtain ⟨hy, rfl⟩ := guarded_eq_some h
    exact lost_handle hy
  | shutdown =>
    obtain ⟨hp, rfl⟩ := guarded_eq_some h
    exact lost_shutdown hp
  | decref =>
    obtain ⟨hp, rfl⟩ := guarded_eq_some h
    exact lost_decref hp
  | drain =>
    obtain ⟨hp, rfl⟩ := guarded_eq_some h
    exact lost_drain hp
  | getevents y res =>
    obtain ⟨⟨hp, hy⟩, rfl⟩ := guarded_eq_some h
    unfold getevents
    rw [lost_enter, lost_leave, lost_callHandle, lost_drained hy]
    · simp [Pc.owes]
    · rwa [callHandle_threads]

/-! ## The references -/

/-- The threads in the last `decref`. -/
def State.drains (s : State S) : Nat := s.threads.count .drain + s.threads.count .getevents

/-- `ref` counts its holders, the bind's reference has one owner, the poller thread is busy with the
descriptor only before that owner is a handler, and `ref` is 0 for one thread. -/
structure Refs (s : State S) : Prop where
  ref : s.ref = s.own + s.holders
  owners : s.owners = s.own
  registered : s.registered = true → s.unbinding = false
  poller : s.poller = .rest ∨ s.registered = true ∨ s.pipe = true
  counted : 0 ≤ s.eventFd → s.eventCnt + s.poller.cnt ≤ s.completed.length
  last : s.drains + s.unbounds = if s.ref = 0 then 1 else 0

omit [DecidableEq S] in
/-- A thread brings its reference along. -/
theorem holders_enter : (s.enter p).holders = s.holders + if p.holds then 1 else 0 := by
  unfold State.holders State.enter
  rw [List.countP_cons, Nat.add_assoc]

/-- A thread at `shutdown_io_service` owns the bind's reference. -/
theorem owners_enter : (s.enter p).owners = s.owners + if p = .shutdown then 1 else 0 := by
  unfold State.owners State.enter
  simp only [List.count_cons, beq_iff_eq]
  omega

theorem drains_enter :
    (s.enter p).drains = s.drains + if p = .drain ∨ p = .getevents then 1 else 0 := by
  unfold State.drains State.enter
  simp only [List.count_cons, beq_iff_eq]
  cases p with
  | listDel y | handle y | shutdown | decref => simp
  | drain => simp; omega
  | getevents => simp; omega

omit [DecidableEq S] in
/-- There is one such reference. -/
theorem own_le (s : State S) : s.own ≤ 1 := by
  unfold State.own
  split <;> omega

theorem enter_leave_perm (hp : p ∈ s.threads) :
    ((s.leave p).enter p).threads.Perm s.threads := (List.perm_cons_erase hp).symm

/-- The reverse of the three laws above, for a thread that goes on. -/
theorem holders_leave (hp : p ∈ s.threads) :
    s.holders = (s.leave p).holders + if p.holds then 1 else 0 := by
  rw [← holders_enter]
  unfold State.holders
  rw [(enter_leave_perm hp).countP_eq]
  rfl

theorem owners_leave (hp : p ∈ s.threads) :
    s.owners = (s.leave p).owners + if p = .shutdown then 1 else 0 := by
  rw [← owners_enter]
  unfold State.owners
  rw [(enter_leave_perm hp).count_eq]
  rfl

theorem drains_leave (hp : p ∈ s.threads) :
    s.drains = (s.leave p).drains + if p = .drain ∨ p = .getevents then 1 else 0 := by
  rw [← drains_enter]
  unfold State.drains
  rw [(enter_leave_perm hp).count_eq, (enter_leave_perm hp).count_eq]

/-- A session's result holds a reference. -/
theorem holders_taken {r : Result S} (hr : r ∈ s.results) :
    s.holders = (s.taken r).holders + if r.holds then 1 else 0 := by
  have hres := countP_of_mem hr Result.holds
  unfold State.holders State.taken
  simp only
  omega

/-- The deleted result owns the bind's reference. -/
theorem owners_taken {r : Result S} (hr : r ∈ s.results) :
    s.owners = (s.taken r).owners + if r = .deleted then 1 else 0 := by
  have hres := count_of_mem hr .deleted
  unfold State.owners State.taken
  simp only
  omega

/-- The fields that the reference law reads, the poller thread's apart. -/
structure SameRefs (s t : State S) : Prop where
  ref : t.ref = s.ref
  eventFd : t.eventFd = s.eventFd
  results : t.results = s.results
  threads : t.threads = s.threads
  registered : t.registered = s.registered
  pipe : t.pipe = s.pipe
  unbinding : t.unbinding = s.unbinding
  unbounds : t.unbounds = s.unbounds

theorem Refs.of_same (h : Refs s) (same : SameRefs s t)
    (poller : t.poller = .rest ∨ s.registered = true ∨ s.pipe = true)
    (counted : 0 ≤ s.eventFd → t.eventCnt + t.poller.cnt ≤ t.completed.length) : Refs t where
  ref := by
    unfold State.own State.holders
    rw [same.ref, same.eventFd, same.results, same.threads]
    exact h.ref
  owners := by
    unfold State.owners State.own
    rw [same.registered, same.pipe, same.results, same.threads, same.unbinding, same.eventFd]
    exact h.owners
  registered := by
    rw [same.registered, same.unbinding]
    exact h.registered
  poller := by
    rw [same.registered, same.pipe]
    exact poller
  counted := by
    rw [same.eventFd]
    exact counted
  last := by
    unfold State.drains
    rw [same.threads, same.unbounds, same.ref]
    exact h.last

/-- A service whose last reference is gone has been shut down and has no holders. -/
theorem Refs.quiet (h : Refs s) (href : s.ref = 0) : s.own = 0 ∧ s.holders = 0 := by
  have := h.ref
  omega

/-- While the poller thread is busy with the descriptor the bind's reference is there. -/
theorem Refs.own_of_busy (h : Refs s) (hbusy : s.poller ≠ .rest) : s.own = 1 := by
  have hle := own_le s
  have howners := h.owners
  unfold State.owners at howners
  rcases h.poller with hrest | hreg | hpipe
  · exact absurd hrest hbusy
  · rw [if_pos hreg] at howners
    omega
  · rw [if_pos hpipe] at howners
    omega

/-- A thread drains because the last reference is gone. -/
theorem Refs.closed (h : Refs s) (hp : p ∈ s.threads) (hdrain : p = .drain ∨ p = .getevents) :
    s.ref = 0 := by
  have hlast := h.last
  have hleave := drains_leave hp
  rw [if_pos hdrain] at hleave
  split at hlast
  · assumption
  · omega

/-- A request does not touch the references. -/
theorem request_same (s : State S) (y : S) (o : Submit) : SameRefs s (request s y o) := by
  have hrefuse : ∀ error, SameRefs s (refuse s y error) := fun error =>
    ⟨rfl, rfl, rfl, rfl, rfl, rfl, rfl, unbounds_write.trans (by simp [State.unbounds, State.setRes])⟩
  have haccept : SameRefs s (accept s y) :=
    ⟨rfl, rfl, rfl, rfl, rfl, rfl, rfl, unbounds_write.trans (by simp [State.unbounds])⟩
  unfold request
  split
  · exact hrefuse ENOENT
  · cases o with
    | submitted => exact haccept
    | failed error => exact hrefuse error

theorem request_poller (s : State S) (y : S) (o : Submit) :
    (request s y o).poller = s.poller ∧ (request s y o).eventCnt = s.eventCnt ∧
      (request s y o).completed = s.completed := by
  unfold request
  split
  · exact ⟨rfl, rfl, rfl⟩
  · cases o <;> exact ⟨rfl, rfl, rfl⟩

/-- The descriptor ends by itself: nobody owns the bind's reference but a later `io_unbind`. -/
theorem Refs.endRegistration {r : Result S} (h : Refs s) (hreg : s.registered = true)
    (hrest : s.poller = .rest) (hr : r ≠ .deleted) (hholds : r.holds = false) :
    Refs (s.endRegistration r) := by
  have howners := h.owners
  have hunb := h.registered hreg
  refine ⟨?_, ?_, nofun, .inl hrest, h.counted, h.last⟩
  · have hhold : (s.endRegistration r).holders = s.holders := by
      unfold State.holders State.endRegistration
      simp [hholds]
    rw [hhold]
    exact h.ref
  · have hown : (s.endRegistration r).owners = s.owners := by
      unfold State.owners State.endRegistration
      simp [hr, hreg, hunb]
      omega
    rw [hown]
    exact howners

/-- Completions that are not fetched are counted again. -/
theorem Refs.putBack {cnt n : Nat} (h : Refs s) (hp : s.poller = .event n) (hcnt : cnt ≤ n) :
    Refs (s.putBack cnt) := by
  refine h.of_same ⟨rfl, rfl, rfl, rfl, rfl, rfl, rfl, rfl⟩ (.inl rfl) ?_
  intro hfd
  have hcounted := h.counted hfd
  rw [hp] at hcounted
  show s.eventCnt + cnt + 0 ≤ s.completed.length
  change s.eventCnt + n ≤ s.completed.length at hcounted
  omega

theorem Refs.eventFails {cnt n : Nat} {error : Errno} (h : Refs s) (hp : s.poller = .event n)
    (hcnt : cnt ≤ n) : Refs (eventFails s cnt error) := by
  unfold IoService.eventFails
  split
  · next hreg => exact (h.putBack hp hcnt).endRegistration hreg rfl nofun rfl
  · exact h.putBack hp hcnt

/-- `aio_finish` takes the reference that its result holds; the bind's one is still there. -/
theorem Refs.aioFinished {cnt : Nat} {res : Int} (h : Refs s) (hp : s.poller = .incref cnt y res) :
    Refs (aioFinished s cnt y res) := by
  have href := h.ref
  have hlast := h.last
  have hown : s.own = 1 := h.own_of_busy (by rw [hp]; nofun)
  refine ⟨?_, ?_, h.registered, ?_, ?_, ?_⟩
  · have hhold : (IoService.aioFinished s cnt y res).holders = s.holders + 1 := by
      unfold State.holders IoService.aioFinished
      simp [State.setRes, Result.holds]
      omega
    rw [hhold]
    show s.ref + 1 = (s.own : Int) + _
    omega
  · have hres : (s.results ++ [Result.success y]).count .deleted = s.results.count .deleted := by
      simp
    have howners := h.owners
    unfold State.owners at howners ⊢
    show _ + (s.results ++ [Result.success y]).count .deleted + _ + _ = s.own
    rw [hres]
    exact howners
  · have hpoller := h.poller
    rw [hp] at hpoller
    exact .inr (hpoller.resolve_left nofun)
  · intro hfd
    have hcounted := h.counted hfd
    rw [hp] at hcounted
    exact hcounted
  · rw [if_neg (by omega)] at hlast
    show s.drains + s.unbounds = if s.ref + 1 = 0 then 1 else 0
    rw [if_neg (by omega)]
    exact hlast

/-- The bind's reference goes from the pipe to the deleted result. -/
theorem Refs.handlePipe (h : Refs s) (hpipe : s.pipe = true) (hrest : s.poller = .rest) :
    Refs (handlePipe s) := by
  refine ⟨?_, ?_, h.registered, .inl hrest, h.counted, h.last⟩
  · have hhold : (IoService.handlePipe s).holders = s.holders := by
      unfold State.holders IoService.handlePipe
      simp [Result.holds]
    rw [hhold]
    exact h.ref
  · have howners : (IoService.handlePipe s).owners = s.owners := by
      unfold State.owners IoService.handlePipe
      simp [hpipe]
      omega
    rw [howners]
    exact h.owners

/-- `io_unbind` sends it to the pipe, or keeps it for its own `shutdown_io_service`. -/
theorem Refs.ioUnbind (h : Refs s) (hunb : s.unbinding = false) : Refs (ioUnbind s) := by
  have howners := h.owners
  unfold IoService.ioUnbind
  split
  · next hreg =>
    refine ⟨h.ref, ?_, nofun, .inr (.inr rfl), h.counted, h.last⟩
    have hpipe : s.pipe = false := by
      have hle := own_le s
      unfold State.owners at howners
      rw [if_pos hreg] at howners
      cases hp : s.pipe with
      | false => rfl
      | true =>
        rw [if_pos hp] at howners
        omega
    have heq : State.owners { s with unbinding := true, registered := false, pipe := true } =
        s.owners := by
      unfold State.owners
      simp [hreg, hpipe]
    rw [heq]
    exact howners
  · next hreg =>
    have hreg : s.registered = false := by simpa using hreg
    refine ⟨?_, ?_, ?_, h.poller, h.counted, ?_⟩
    · rw [holders_enter]
      exact h.ref
    · rw [owners_enter, if_pos rfl]
      have heq : State.owners { s with unbinding := true } + 1 = s.owners := by
        unfold State.owners
        simp [hreg, hunb]
      exact heq.trans howners
    · intro hregistered
      exact absurd hregistered (by simp [State.enter, hreg])
    · rw [drains_enter]
      exact h.last

/-- A handler takes over the reference of a result. -/
theorem Refs.take {r : Result S} (h : Refs s) (hr : r ∈ s.results) : Refs (take s r) := by
  have href := h.ref
  have howners := h.owners
  have hhold := holders_taken hr
  have hown := owners_taken hr
  cases r with
  | success y =>
    refine ⟨?_, ?_, h.registered, h.poller, h.counted, ?_⟩
    · show s.ref = (s.own : Int) + ((s.taken _).enter _).holders
      rw [holders_enter]
      show s.ref = (s.own : Int) + ((s.taken (.success y)).holders + 1 : Nat)
      change s.holders = (s.taken (.success y)).holders + 1 at hhold
      omega
    · show ((s.taken _).enter _).owners = s.own
      rw [owners_enter, if_neg nofun]
      rw [if_neg nofun] at hown
      omega
    · show ((s.taken _).enter _).drains + s.unbounds = if s.ref = 0 then 1 else 0
      rw [drains_enter, if_neg (by simp)]
      exact h.last
  | deleted =>
    refine ⟨?_, ?_, h.registered, h.poller, h.counted, ?_⟩
    · show s.ref = (s.own : Int) + ((s.taken _).enter _).holders
      rw [holders_enter, if_neg nofun]
      rw [if_neg nofun] at hhold
      omega
    · show ((s.taken _).enter _).owners = s.own
      rw [owners_enter, if_pos rfl]
      rw [if_pos rfl] at hown
      omega
    · show ((s.taken _).enter _).drains + s.unbounds = if s.ref = 0 then 1 else 0
      rw [drains_enter, if_neg (by simp)]
      exact h.last
  | error error | stopped error =>
    rw [if_neg nofun] at hhold hown
    refine ⟨?_, ?_, h.registered, h.poller, h.counted, ?_⟩
    · show s.ref = (s.own : Int) + (s.taken _).holders
      omega
    · show (s.taken _).owners = s.own
      omega
    · show s.drains + (State.write (s.taken _) _).unbounds = if s.ref = 0 then 1 else 0
      rw [unbounds_write, if_neg nofun]
      exact h.last

/-- A thread goes from one step to the next and nothing else that counts changes. -/
theorem Refs.move (h : Refs s) (hp : p ∈ s.threads) (hholds : p.holds = q.holds)
    (hshutdown : p = .shutdown ↔ q = .shutdown)
    (hdrain : (p = .drain ∨ p = .getevents) ↔ (q = .drain ∨ q = .getevents)) :
    Refs ((s.leave p).enter q) := by
  refine ⟨?_, ?_, h.registered, h.poller, h.counted, ?_⟩
  · rw [holders_enter, ← hholds, ← holders_leave hp]
    exact h.ref
  · rw [owners_enter, ← if_congr hshutdown rfl rfl, ← owners_leave hp]
    exact h.owners
  · rw [drains_enter, ← if_congr hdrain rfl rfl, ← drains_leave hp]
    exact h.last

/-- A `handle` does not touch the references. -/
theorem Refs.callHandle {res : Int} (h : Refs s) : Refs (callHandle s x res) := by
  obtain ⟨state, error, hcall⟩ := callHandle_eq s x res
  rw [hcall]
  refine h.of_same ⟨rfl, rfl, rfl, rfl, rfl, rfl, rfl, ?_⟩ h.poller h.counted
  exact unbounds_write.trans (by simp)

/-- `shutdown_io_service` closes the descriptor and turns the bind's reference into a plain one. -/
theorem Refs.shutdown (h : Refs s) (hp : .shutdown ∈ s.threads) : Refs (shutdown s) := by
  have hle := own_le s
  have href := h.ref
  have howners := h.owners
  have hhold := holders_leave hp
  have howner := owners_leave hp
  rw [if_neg nofun] at hhold
  rw [if_pos rfl] at howner
  unfold IoService.shutdown
  refine ⟨?_, ?_, h.registered, h.poller, fun hfd => ?_, ?_⟩
  · rw [holders_enter]
    show s.ref = ((0 : Nat) : Int) + ((s.leave .shutdown).holders + 1 : Nat)
    omega
  · rw [owners_enter, if_neg nofun]
    show (s.leave .shutdown).owners = 0
    omega
  · change (0 : Int) ≤ -1 at hfd
    omega
  · rw [drains_enter, if_neg (by simp)]
    have hdrains := drains_leave hp
    rw [if_neg (by simp)] at hdrains
    show (s.leave .shutdown).drains + s.unbounds = if s.ref = 0 then 1 else 0
    rw [← h.last]
    omega

/-- The update that brings `ref` to 0 is followed by the drain, and there is one such. -/
theorem Refs.decref (h : Refs s) (hp : .decref ∈ s.threads) : Refs (decref s) := by
  have href := h.ref
  have hlast := h.last
  have hhold : s.holders = (s.leave .decref).holders + 1 := holders_leave hp
  have howner := owners_leave hp
  have hdrains := drains_leave hp
  rw [if_neg (by simp)] at howner hdrains
  rw [if_neg (by omega)] at hlast
  unfold IoService.decref
  split
  · next hzero =>
    refine ⟨?_, ?_, h.registered, h.poller, h.counted, ?_⟩
    · rw [holders_enter, if_neg nofun]
      show s.ref - 1 = (s.own : Int) + (s.leave .decref).holders
      omega
    · rw [owners_enter, if_neg nofun]
      show (s.leave .decref).owners = s.own
      rw [← h.owners]
      omega
    · rw [drains_enter, if_pos (.inl rfl)]
      show (s.leave .decref).drains + 1 + s.unbounds = if s.ref - 1 = 0 then 1 else 0
      rw [if_pos hzero]
      omega
  · next hpos =>
    refine ⟨?_, ?_, h.registered, h.poller, h.counted, ?_⟩
    · show s.ref - 1 = (s.own : Int) + (s.leave .decref).holders
      omega
    · show (s.leave .decref).owners = s.own
      rw [← h.owners]
      omega
    · show (s.leave .decref).drains + s.unbounds = if s.ref - 1 = 0 then 1 else 0
      rw [if_neg hpos]
      omega

/-- An empty list ends the drain with `handle_unbound`. -/
theorem Refs.drain (h : Refs s) (hp : .drain ∈ s.threads) : Refs (drain s) := by
  unfold IoService.drain
  split
  · have hhold := holders_leave hp
    have howner := owners_leave hp
    have hdrains := drains_leave hp
    rw [if_neg nofun] at hhold howner
    rw [if_pos (.inl rfl)] at hdrains
    refine ⟨?_, ?_, h.registered, h.poller, h.counted, ?_⟩
    · show s.ref = (s.own : Int) + (s.leave .drain).holders
      rw [h.ref]
      omega
    · show (s.leave .drain).owners = s.own
      rw [← h.owners]
      omega
    · rw [unbounds_write, if_pos rfl]
      show (s.leave .drain).drains + (s.unbounds + 1) = if s.ref = 0 then 1 else 0
      rw [← h.last]
      omega
  · exact h.move hp rfl (by simp) (by simp)

/-- In the drain nobody else reads the completions. -/
theorem Refs.getevents {res : Int} (h : Refs s) (hp : .getevents ∈ s.threads) :
    Refs (getevents s y res) := by
  unfold IoService.getevents
  have hdrained : Refs (s.drained y res) := by
    refine h.of_same ⟨rfl, rfl, rfl, rfl, rfl, rfl, rfl, rfl⟩ h.poller ?_
    intro hfd
    have hown := (h.quiet (h.closed hp (.inr rfl))).1
    unfold State.own at hown
    rw [if_pos hfd] at hown
    cases hown
  apply hdrained.callHandle.move
  · rwa [callHandle_threads]
  · rfl
  · simp
  · simp

/-- A request takes what `request_poller` says it does. -/
theorem Refs.request {y : S} {o : Submit} (h : Refs s)
    (hstep : IoService.step s (.request y o) = some t) : Refs t := by
  obtain ⟨-, rfl⟩ := guarded_eq_some hstep
  obtain ⟨hpoller, hcnt, hcompleted⟩ := request_poller s y o
  apply h.of_same (request_same s y o)
  · rw [hpoller]
    exact h.poller
  · rw [hpoller, hcnt, hcompleted]
    exact h.counted

/-- The kernel completes an operation and counts it. -/
theorem Refs.complete {y : S} {res : Int} (h : Refs s)
    (hstep : IoService.step s (.complete y res) = some t) : Refs t := by
  obtain ⟨-, rfl⟩ := guarded_eq_some hstep
  refine h.of_same ⟨rfl, rfl, rfl, rfl, rfl, rfl, rfl, rfl⟩ h.poller ?_
  intro hfd
  have hcounted := h.counted hfd
  show s.eventCnt + 1 + s.poller.cnt ≤ (s.completed ++ [(y, res)]).length
  rw [List.length_append, List.length_singleton]
  omega

/-- The poller thread reads the counter. -/
theorem Refs.readEvent (h : Refs s) (hstep : IoService.step s .readEvent = some t) : Refs t := by
  obtain ⟨⟨hreg, hrest⟩, rfl⟩ := guarded_eq_some hstep
  refine h.of_same ⟨rfl, rfl, rfl, rfl, rfl, rfl, rfl, rfl⟩ (.inr (.inl hreg)) ?_
  intro hfd
  have hcounted := h.counted hfd
  rw [hrest] at hcounted
  show 0 + s.eventCnt ≤ s.completed.length
  rw [Nat.zero_add]
  exact hcounted

/-- It gets one of the operations that it counted. -/
theorem Refs.aioFinish {y : S} {res : Int} (h : Refs s)
    (hstep : IoService.step s (.aioFinish y res) = some t) : Refs t := by
  simp only [IoService.step, stepFinish] at hstep
  split at hstep
  · next cnt hp =>
    split at hstep
    · next hy =>
      cases hstep
      have hbusy : s.registered = true ∨ s.pipe = true := by
        have hpoller := h.poller
        rw [hp] at hpoller
        exact hpoller.resolve_left nofun
      refine h.of_same ⟨rfl, rfl, rfl, rfl, rfl, rfl, rfl, rfl⟩ (.inr hbusy) ?_
      intro hfd
      have hcounted : s.eventCnt + (cnt + 1) ≤ s.completed.length := by
        have := h.counted hfd
        rwa [hp] at this
      show s.eventCnt + cnt ≤ (s.completed.erase (y, res)).length
      rw [List.length_erase_of_mem hy]
      omega
    · cases hstep
  · cases hstep

/-- It has got all of them. -/
theorem Refs.eventEnds (h : Refs s) (hstep : IoService.step s .eventEnds = some t) : Refs t := by
  obtain ⟨hp, rfl⟩ := guarded_eq_some hstep
  refine h.of_same ⟨rfl, rfl, rfl, rfl, rfl, rfl, rfl, rfl⟩ (.inl rfl) ?_
  intro hfd
  have hcounted := h.counted hfd
  rw [hp] at hcounted
  exact hcounted

/-- A handler takes the session off the list, and calls its `handle()`. -/
theorem Refs.listDel {y : S} (h : Refs s) (hy : .listDel y ∈ s.threads) :
    Refs (IoService.listDel s y) := by
  have hmove : Refs ((s.leave (.listDel y)).enter (.handle y)) :=
    h.move hy rfl (by simp) (by simp)
  exact hmove.of_same ⟨rfl, rfl, rfl, rfl, rfl, rfl, rfl, rfl⟩ hmove.poller hmove.counted

/-- Every step keeps the reference law. -/
theorem Refs.step {l : Label S} (h : Refs s) (hstep : step s l = some t) : Refs t := by
  cases l with
  | request y o => exact h.request hstep
  | complete y res => exact h.complete hstep
  | readEvent => exact h.readEvent hstep
  | aioFinish y res => exact h.aioFinish hstep
  | aioFinished =>
    simp only [IoService.step, stepFinished] at hstep
    split at hstep
    · next cnt y res hp =>
      cases hstep
      exact h.aioFinished hp
    · cases hstep
  | eventEnds => exact h.eventEnds hstep
  | aioFinishNull error =>
    simp only [IoService.step, stepNull] at hstep
    split at hstep
    · next cnt hp =>
      cases hstep
      exact h.eventFails hp (Nat.le_succ cnt)
    · cases hstep
  | eventFails error =>
    simp only [IoService.step, stepFails] at hstep
    split at hstep
    · next cnt hp =>
      cases hstep
      exact h.eventFails hp (Nat.le_refl cnt)
    · cases hstep
  | handlePipe =>
    obtain ⟨⟨hpipe, hrest⟩, rfl⟩ := guarded_eq_some hstep
    exact h.handlePipe hpipe hrest
  | pollerStop error =>
    obtain ⟨⟨hreg, hrest⟩, rfl⟩ := guarded_eq_some hstep
    exact h.endRegistration hreg hrest nofun rfl
  | ioUnbind =>
    obtain ⟨hunb, rfl⟩ := guarded_eq_some hstep
    exact h.ioUnbind hunb
  | take r =>
    obtain ⟨hr, rfl⟩ := guarded_eq_some hstep
    exact h.take hr
  | listDel y =>
    obtain ⟨hy, rfl⟩ := guarded_eq_some hstep
    exact h.listDel hy
  | handle y =>
    obtain ⟨hy, rfl⟩ := guarded_eq_some hstep
    apply h.callHandle.move
    · rwa [callHandle_threads]
    · rfl
    · simp
    · simp
  | shutdown =>
    obtain ⟨hp, rfl⟩ := guarded_eq_some hstep
    exact h.shutdown hp
  | decref =>
    obtain ⟨hp, rfl⟩ := guarded_eq_some hstep
    exact h.decref hp
  | drain =>
    obtain ⟨hp, rfl⟩ := guarded_eq_some hstep
    exact h.drain hp
  | getevents y res =>
    obtain ⟨⟨hp, -⟩, rfl⟩ := guarded_eq_some hstep
    exact h.getevents hp

end WorkflowKernel.IoService
