import Mathlib.Data.List.Basic
import Mathlib.Logic.Function.Basic
import WorkflowKernel.Lib.Transition

/-!
# The thread pool

`thrdpool.cc`: the workers in `__thrdpool_routine`, `thrdpool_schedule`, `thrdpool_increase` and
`thrdpool_decrease` from any thread, `thrdpool_exit` from a task, and one `thrdpool_destroy`, from a
task or from outside.

A section on `pool->mutex` is one step, but for `thrdpool_increase`: the thread it creates runs
before `pool->nthreads++`, so `creating` says that the mutex is held there. Workers are numbered in
the order of their creation, and the outside thread is `none`. The queue hands out its tasks in any
order, and NULL when it is empty and non-blocking. A put never waits here: in the code the queue has
`msg_max` 0, so that on an empty put buffer `thrdpool_schedule` waits while the queue blocks, and
`thrdpool_decrease` while it does not. This only adds runs to those of the code. A pool is not used
after its `thrdpool_destroy` has returned. `nthreads` is a natural number that wraps only below 0: no run starts `2 ^ 64` threads.

`exits`, `joins` and `frees` are logs, the newest entry first; no step reads them.
-/

namespace WorkflowKernel.ThreadPool

open WorkflowKernel.Transition

/-- A task's routine is the user's or `__thrdpool_exit_routine`. -/
inductive Task
  | user
  | exit
  deriving DecidableEq, Repr

/-- Where a worker stands. -/
inductive Pc
  | absent
  /-- At the test of `pool->stop`. -/
  | loop
  /-- In `msgqueue_get`. -/
  | get
  /-- In a user's routine. -/
  | task
  /-- In `thrdpool_destroy`, called by the routine. -/
  | destroying
  /-- In the routine, behind `thrdpool_destroy`. -/
  | destroyed
  /-- At the section of `__thrdpool_exit_routine`. -/
  | exit
  /-- Behind the section, with the thread id that was in the pool. -/
  | joining (tid : Option Nat)
  /-- `pthread_exit`. -/
  | ended
  /-- Returned from `__thrdpool_routine` after `free(pool)`. -/
  | returned
  deriving DecidableEq, Repr

/-- Where `thrdpool_destroy` stands. -/
inductive Phase
  | idle
  /-- At the first section of `__thrdpool_terminate`. -/
  | called
  /-- In `terminate.wait`. -/
  | asleep
  | woken
  /-- Behind the wait, at the test of `pool->tid`. -/
  | last
  | joining (tid : Nat)
  /-- Emptying the queue. -/
  | drain
  | returned
  deriving DecidableEq, Repr

/-- `thrdpool`, its queue, its workers, the one `thrdpool_destroy`, and the logs. -/
structure State where
  nthreads : Nat
  tid : Option Nat
  stop : Bool
  nonblock : Bool
  queue : List Task
  /-- The workers created so far. -/
  started : Nat
  creating : Bool
  pc : Nat → Pc
  phase : Phase
  /-- The worker that called `thrdpool_destroy`. -/
  caller : Option Nat
  detached : List Nat
  /-- The workers behind the section of `__thrdpool_exit_routine`. -/
  exits : List Nat
  /-- Who joined whom. -/
  joins : List (Option Nat × Nat)
  /-- Who freed the pool. -/
  frees : List (Option Nat)

def State.setPc (s : State) (w : Nat) (p : Pc) : State :=
  { s with pc := Function.update s.pc w p }

/-! ## thrdpool_create -/

/-- A pool before its threads. -/
def State.allocated (nthreads : Nat) : State where
  nthreads := nthreads
  tid := none
  stop := false
  nonblock := false
  queue := []
  started := 0
  creating := false
  pc := fun _ => .absent
  phase := .idle
  caller := none
  detached := []
  exits := []
  joins := []
  frees := []

/-- `pthread_create` with `__thrdpool_routine`. -/
def pthreadCreate (s : State) : State := { s.setPc s.started .loop with started := s.started + 1 }

/-- `--nthreads` of a `size_t`. -/
def sizePred (n : Nat) : Nat := if n = 0 then UInt64.size - 1 else n - 1

theorem sizePred_of_pos {n : Nat} (h : 0 < n) : sizePred n = n - 1 := if_neg (Nat.ne_of_gt h)

def State.incNthreads (s : State) : State := { s with nthreads := s.nthreads + 1 }

/-- The loop of `__thrdpool_create_threads`; `ok` says which calls of `pthread_create` succeed. -/
def createThreads (ok : Nat → Bool) (nthreads : Nat) (s : State) : State :=
  if s.nthreads < nthreads ∧ ok s.started then
    createThreads ok nthreads (pthreadCreate s).incNthreads
  else s
termination_by nthreads - s.nthreads
decreasing_by
  simp only [pthreadCreate, State.setPc, State.incNthreads]
  omega

/-- `thrdpool_create`, when memory does not run out: NULL if the loop ended early. -/
def thrdpoolCreate (ok : Nat → Bool) (nthreads : Nat) : Option State :=
  let s := createThreads ok nthreads (.allocated nthreads)
  if s.nthreads = nthreads then some s else none

/-! ## schedule, increase and decrease -/

/-- The pool may be used. -/
def State.usable (s : State) : Bool := s.phase ≠ .returned

def thrdpoolSchedule (s : State) : Option State :=
  if s.usable then some { s with queue := s.queue ++ [.user] } else none

def thrdpoolDecrease (s : State) : Option State :=
  if s.usable then some { s with queue := .exit :: s.queue } else none

/-- The section of `thrdpool_increase` up to a `pthread_create` that succeeds. -/
def thrdpoolIncrease (s : State) : Option State :=
  if s.usable ∧ s.creating = false then some { pthreadCreate s with creating := true } else none

/-- The rest of the section. -/
def thrdpoolIncreased (s : State) : Option State :=
  if s.creating then some { s.incNthreads with creating := false } else none

/-! ## The workers -/

/-- The test of the `while` in `__thrdpool_routine`. -/
def testStop (s : State) (w : Nat) : Option State :=
  if s.pc w = .loop then some (s.setPc w (if s.stop then .exit else .get)) else none

/-- `msgqueue_get` returns a task, whose routine is called. -/
def getTask (s : State) (w : Nat) (t : Task) : Option State :=
  if s.pc w = .get ∧ t ∈ s.queue then
    some ({ s with queue := s.queue.erase t }.setPc w (match t with | .user => .task | .exit => .exit))
  else none

/-- `msgqueue_get` returns NULL. -/
def getNull (s : State) (w : Nat) : Option State :=
  if s.pc w = .get ∧ s.queue = [] ∧ s.nonblock = true then some (s.setPc w .exit) else none

/-- `thrdpool_exit` in a task. -/
def thrdpoolExit (s : State) (w : Nat) : Option State :=
  if s.pc w = .task then some (s.setPc w .exit) else none

/-- The task returns and the worker tests `pool->nthreads`. -/
def taskReturns (s : State) (w : Nat) : Option State :=
  if s.pc w = .task ∨ s.pc w = .destroyed then
    if s.nthreads = 0 then some { s.setPc w .returned with frees := some w :: s.frees }
    else some (s.setPc w .loop)
  else none

/-- `terminate.notify_one`. -/
def Phase.notify : Phase → Phase
  | .asleep => .woken
  | p => p

/-- What the section of `__thrdpool_exit_routine` does. -/
def countOut (s : State) (w : Nat) : State :=
  { s.setPc w (.joining s.tid) with
    tid := some w
    nthreads := sizePred s.nthreads
    phase := if sizePred s.nthreads = 0 ∧ s.stop then s.phase.notify else s.phase
    exits := w :: s.exits }

/-- The section of `__thrdpool_exit_routine`. -/
def exitRoutine (s : State) (w : Nat) : Option State :=
  if s.pc w = .exit ∧ s.creating = false then some (countOut s w) else none

def State.join (s : State) (by' : Option Nat) (w : Nat) : State :=
  { s with joins := (by', w) :: s.joins }

/-- `pthread_join` in `__thrdpool_exit_routine`, and `pthread_exit`. -/
def exitJoin (s : State) (w : Nat) : Option State :=
  match s.pc w with
  | .joining none => some (s.setPc w .ended)
  | .joining (some t) => if s.pc t = .ended then some ((s.join (some w) t).setPc w .ended) else none
  | _ => none

/-! ## thrdpool_destroy -/

/-- `thrdpool_destroy` is called, by a task or from outside. -/
def thrdpoolDestroy (s : State) (caller : Option Nat) : Option State :=
  if s.phase = .idle then
    match caller with
    | none => some { s with phase := .called }
    | some w =>
      if s.pc w = .task then
        some { s.setPc w .destroying with phase := .called, caller := some w }
      else none
  else none

/-- Where the `while` of `__thrdpool_terminate` goes. -/
def State.testNthreads (s : State) : State :=
  { s with phase := if 0 < s.nthreads then .asleep else .last }

/-- The first section of `__thrdpool_terminate` from within the pool. -/
def State.detach (s : State) (w : Nat) : State :=
  { s with detached := w :: s.detached, nthreads := sizePred s.nthreads }

/-- `__thrdpool_terminate` up to its wait. -/
def terminate (s : State) : Option State :=
  if s.phase = .called ∧ s.creating = false then
    let s := { s with nonblock := true, stop := true }
    match s.caller with
    | none => some s.testNthreads
    | some w => some (s.detach w).testNthreads
  else none

/-- A spurious wakeup. -/
def wake (s : State) : Option State :=
  if s.phase = .asleep then some { s with phase := .woken } else none

/-- The wait has the mutex again. -/
def testAgain (s : State) : Option State :=
  if s.phase = .woken ∧ s.creating = false then some s.testNthreads else none

/-- `pool->tid` is read. -/
def readTid (s : State) : Option State :=
  if s.phase = .last then
    match s.tid with
    | none => some { s with phase := .drain }
    | some t => some { s with phase := .joining t }
  else none

/-- `pthread_join` in `__thrdpool_terminate`. -/
def terminateJoin (s : State) : Option State :=
  match s.phase with
  | .joining t => if s.pc t = .ended then some { s.join s.caller t with phase := .drain } else none
  | _ => none

/-- A task that was not run is freed, after `pending` if it is a user's. -/
def drainTask (s : State) (t : Task) : Option State :=
  if s.phase = .drain ∧ t ∈ s.queue then some { s with queue := s.queue.erase t } else none

/-- The queue is empty and destroyed, and `thrdpool_destroy` returns. -/
def destroyReturns (s : State) : Option State :=
  if s.phase = .drain ∧ s.queue = [] then
    match s.caller with
    | none => some { s with phase := .returned, frees := none :: s.frees }
    | some w => some { s.setPc w .destroyed with phase := .returned }
  else none

/-! ## The transition system -/

inductive Label
  | schedule
  | decrease
  | increase
  | increased
  | testStop (w : Nat)
  | getTask (w : Nat) (t : Task)
  | getNull (w : Nat)
  | exit (w : Nat)
  | taskReturns (w : Nat)
  | exitRoutine (w : Nat)
  | exitJoin (w : Nat)
  | destroy (caller : Option Nat)
  | terminate
  | wake
  | testAgain
  | readTid
  | terminateJoin
  | drainTask (t : Task)
  | destroyReturns
  deriving DecidableEq, Repr

def step (s : State) : Label → Option State
  | .schedule => thrdpoolSchedule s
  | .decrease => thrdpoolDecrease s
  | .increase => thrdpoolIncrease s
  | .increased => thrdpoolIncreased s
  | .testStop w => testStop s w
  | .getTask w t => getTask s w t
  | .getNull w => getNull s w
  | .exit w => thrdpoolExit s w
  | .taskReturns w => taskReturns s w
  | .exitRoutine w => exitRoutine s w
  | .exitJoin w => exitJoin s w
  | .destroy caller => thrdpoolDestroy s caller
  | .terminate => terminate s
  | .wake => wake s
  | .testAgain => testAgain s
  | .readTid => readTid s
  | .terminateJoin => terminateJoin s
  | .drainTask t => drainTask s t
  | .destroyReturns => destroyReturns s

/-- The steps that change nothing but the queue. -/
def Label.queues : Label → Bool
  | .schedule | .decrease | .drainTask _ => true
  | _ => false

/-- The worker that makes a step of the loop in `__thrdpool_routine`, up to its routine. -/
def Label.works : Label → Option Nat
  | .testStop w | .getTask w _ | .getNull w | .exit w => some w
  | _ => none

/-- In the loop of `__thrdpool_routine`, or in a user's routine. -/
def Pc.working : Pc → Bool
  | .loop | .get | .task => true
  | _ => false

/-- A worker goes on, to its exit perhaps, and may have a task from the queue. -/
def GoesOn (s t : State) (w : Nat) : Prop :=
  ∃ q queue, (s.pc w).working = true ∧ (q.working = true ∨ q = .exit) ∧
    t = State.setPc { s with queue := queue } w q

section Kinds

variable {s t : State} {l : Label} {w : Nat}

/-- What a step of the queue does. -/
theorem queue_of_step (hl : l.queues = true) (hstep : step s l = some t) :
    ∃ queue, t = { s with queue := queue } := by
  cases l with
  | schedule | decrease | drainTask =>
    simp only [step, thrdpoolSchedule, thrdpoolDecrease, drainTask] at hstep
    split at hstep
    · cases hstep
      exact ⟨_, rfl⟩
    · cases hstep
  | _ => cases hl

/-- What a step of the loop does. -/
theorem goesOn_of_step (hl : l.works = some w) (hstep : step s l = some t) : GoesOn s t w := by
  cases l with
  | testStop v =>
    obtain rfl := Option.some.inj hl
    simp only [step, testStop] at hstep
    split at hstep
    · next hv =>
      cases hstep
      refine ⟨_, s.queue, by rw [hv]; rfl, ?_, rfl⟩
      split
      · exact .inr rfl
      · exact .inl rfl
    · cases hstep
  | getTask v task =>
    obtain rfl := Option.some.inj hl
    simp only [step, getTask] at hstep
    split at hstep
    · next hv =>
      cases hstep
      refine ⟨_, _, by rw [hv.1]; rfl, ?_, rfl⟩
      cases task with
      | user => exact .inl rfl
      | exit => exact .inr rfl
    · cases hstep
  | getNull v | exit v =>
    obtain rfl := Option.some.inj hl
    simp only [step, getNull, thrdpoolExit] at hstep
    split at hstep
    · next hv =>
      cases hstep
      exact ⟨.exit, s.queue, by simp [hv, Pc.working], .inr rfl, rfl⟩
    · cases hstep
  | _ => cases hl

end Kinds

/-- A pool made by a successful `thrdpool_create`. -/
def system (nthreads : Nat) : System State Label where
  Init s := ∃ ok, thrdpoolCreate ok nthreads = some s
  step := step

/-- The loop of `__thrdpool_create_threads` finds `nthreads` where it is to bring it. -/
theorem thrdpoolCreate_eq (ok : Nat → Bool) (nthreads : Nat) :
    thrdpoolCreate ok nthreads = some (.allocated nthreads) := by
  have hloop : createThreads ok nthreads (.allocated nthreads) = .allocated nthreads := by
    rw [createThreads, if_neg]
    rintro ⟨hlt, -⟩
    exact Nat.lt_irrefl nthreads hlt
  unfold thrdpoolCreate
  rw [hloop]
  exact if_pos rfl

theorem init_iff {nthreads : Nat} {s : State} :
    (system nthreads).Init s ↔ s = .allocated nthreads := by
  constructor
  · rintro ⟨ok, hs⟩
    exact Option.some.inj (hs.symm.trans (thrdpoolCreate_eq ok nthreads))
  · rintro rfl
    exact ⟨fun _ => true, thrdpoolCreate_eq _ nthreads⟩

end WorkflowKernel.ThreadPool
