import Mathlib.Logic.Function.Basic
import WorkflowKernel.Lib.CallStacks
import WorkflowKernel.Lib.Transition

/-!
# Series and parallel tasks

`SubTask` and `ParallelTask`. What the tasks are and what their `done()` returns is a `Plan`: the
tasks below one root, nested to a finite depth, each of which is dispatched from one place.

A thread is its call stack. `dispatch` and `subtask_done` are frames, and a step runs the first frame
of one thread up to the next call or the next decrement of `nleft`. A leaf's `dispatch()` and every
`done()` are user code, which may call `subtask_done` of a leaf that was dispatched, and so may a
thread that runs nothing of this file; each leaf has it called once for a `dispatch()`.

`dispatches`, `dones` and `counted` count events; no step reads them.
-/

namespace WorkflowKernel.SubTask

open WorkflowKernel.Lib WorkflowKernel.Transition

/-- The tasks below `root`. -/
structure Plan (T : Type) where
  root : T
  /-- The `subtasks` of a `ParallelTask`; the other tasks are the leaves. -/
  subtasks : T → Option (List T)
  /-- What `done()` returns; `none` is NULL. -/
  next : T → Option T
  depth : T → Nat
  height : Nat
  depth_le : ∀ t, depth t ≤ height
  depth_subtask : ∀ {t us u}, subtasks t = some us → u ∈ us → depth t < depth u
  depth_next : ∀ {t u}, next t = some u → depth t < depth u
  /-- Every task is dispatched from somewhere, -/
  origin : ∀ u, u = root ∨ (∃ t us, subtasks t = some us ∧ u ∈ us) ∨ ∃ t, next t = some u
  /-- and from one place only. -/
  subtask_once : ∀ {t us}, subtasks t = some us → us.Nodup
  subtask_unique : ∀ {t t' us us' u}, subtasks t = some us → subtasks t' = some us' → u ∈ us →
    u ∈ us' → t = t'
  next_unique : ∀ {t t' u}, next t = some u → next t' = some u → t = t'
  subtask_not_next : ∀ {t us u}, subtasks t = some us → u ∈ us → ∀ t', next t' ≠ some u
  root_not_subtask : ∀ {t us}, subtasks t = some us → root ∉ us
  root_not_next : ∀ t, next t ≠ some root

/-- A call that a thread is in. -/
inductive Frame (T : Type)
  | dispatch (t : T)
  /-- A leaf's `dispatch()`. -/
  | body (t : T)
  /-- The loop of `ParallelTask::dispatch`, the subtasks from `p` on. -/
  | loop (t : T) (rest : List T)
  /-- `subtask_done`, at the head of its loop. -/
  | subtaskDone (cur : T)
  /-- Its `done()` of `cur`; it has read `parent`. -/
  | done (cur : T) (parent : Option T)
  /-- It goes for the decrement, behind the `done()` of `cur`. -/
  | decrement (cur parent : T)
  deriving DecidableEq, Repr

structure State (T : Type) where
  parent : T → Option T
  /-- It is set by `dispatch`. -/
  nleft : T → Int
  threads : List (List (Frame T))
  /-- The leaves that were dispatched and whose `subtask_done` was not called. -/
  outstanding : T → Nat
  dispatches : T → Nat
  dones : T → Nat
  /-- The decrements behind the `done()` of a task. -/
  counted : T → Nat

variable {T : Type}

/-- The root is dispatched by a first thread; there are `others` more. -/
def State.start (root : T) (others : Nat) : State T where
  parent := fun _ => none
  nleft := fun _ => 0
  threads := [.dispatch root] :: List.replicate others []
  outstanding := fun _ => 0
  dispatches := fun _ => 0
  dones := fun _ => 0
  counted := fun _ => 0

variable [DecidableEq T]

/-- One more event of a task. -/
def bump (f : T → Nat) (t : T) : T → Nat := Function.update f t (f t + 1)

/-- `SubTask::dispatch`, of a leaf or of a `ParallelTask` up to its loop. -/
def dispatch (p : Plan T) (s : State T) (t : T) : State T × List (Frame T) :=
  match p.subtasks t with
  | none =>
    ({ s with dispatches := bump s.dispatches t, outstanding := bump s.outstanding t }, [.body t])
  | some us =>
    ({ s with dispatches := bump s.dispatches t, nleft := Function.update s.nleft t us.length },
      if us.length ≠ 0 then [.loop t us] else [.subtaskDone t])

/-- The loop of `ParallelTask::dispatch`. -/
def loop (s : State T) (t : T) : List T → State T × List (Frame T)
  | [] => (s, [])
  | u :: rest =>
    ({ s with parent := Function.update s.parent u (some t) }, [.dispatch u, .loop t rest])

/-- `subtask_done` up to the call of `done()`. -/
def subtaskDone (s : State T) (cur : T) : State T × List (Frame T) :=
  ({ s with dones := bump s.dones cur }, [.done cur (s.parent cur)])

/-- `done()` of `cur` returns to `subtask_done`. -/
def doneReturned (p : Plan T) (s : State T) (cur : T) (parent : Option T) :
    State T × List (Frame T) :=
  match p.next cur with
  | some u => ({ s with parent := Function.update s.parent u parent }, [.dispatch u])
  | none => (s, parent.toList.map fun parent => .decrement cur parent)

/-- `__sync_sub_and_fetch(&parent->nleft, 1)`; the loop goes on with the parent at 0. -/
def decrement (s : State T) (cur parent : T) : State T × List (Frame T) :=
  ({ s with
      nleft := Function.update s.nleft parent (s.nleft parent - 1)
      counted := bump s.counted cur },
    if s.nleft parent - 1 = 0 then [.subtaskDone parent] else [])

/-- A frame runs, or its user code returns, and leaves these. -/
def runFrame (p : Plan T) (s : State T) : Frame T → State T × List (Frame T)
  | .dispatch t => dispatch p s t
  | .body _ => (s, [])
  | .loop t rest => loop s t rest
  | .subtaskDone cur => subtaskDone s cur
  | .done cur parent => doneReturned p s cur parent
  | .decrement cur parent => decrement s cur parent

/-- Whether a thread is in user code. -/
def inUserCode : List (Frame T) → Bool
  | [] => true
  | .body _ :: _ => true
  | .done _ _ :: _ => true
  | _ => false

inductive Label (T : Type)
  | run (i : Nat)
  /-- User code on the thread `i` calls `subtask_done` of a leaf. -/
  | call (i : Nat) (t : T)
  deriving DecidableEq, Repr

def step (p : Plan T) (s : State T) : Label T → Option (State T)
  | .run i =>
    match s.threads[i]? with
    | some (f :: rest) =>
      some { (runFrame p s f).1 with threads := s.threads.set i ((runFrame p s f).2 ++ rest) }
    | _ => none
  | .call i t =>
    match s.threads[i]? with
    | some stack =>
      if inUserCode stack ∧ 0 < s.outstanding t then
        some { s with
          threads := s.threads.set i (.subtaskDone t :: stack)
          outstanding := Function.update s.outstanding t (s.outstanding t - 1) }
      else none
    | none => none

/-- A plan, run by any number of threads. -/
def system (p : Plan T) : System (State T) (Label T) where
  Init s := ∃ others, s = State.start p.root others
  step := step p

end WorkflowKernel.SubTask
