import WorkflowKernel.SubTask.Series

/-!
# Where the events of a plan come from

A task's `dispatch()` has been called, is about to be called, or its caller has not come to it;
likewise for its `done()` and for the decrement behind it. `Counts` has one equation for each of
these, over the frames of all threads, whichever thread they run on and below which call.

`Counts.bound` carries every step: a task is dispatched once because its `ParallelTask` is, or the
task before it, up to the root.
-/

namespace WorkflowKernel.SubTask

open WorkflowKernel.Lib WorkflowKernel.Lib.CallStacks WorkflowKernel.Transition

variable {T : Type} [DecidableEq T] {p : Plan T} {s : State T} {t u cur parent : T} {us : List T}
  {threads : List (List (Frame T))}

/-! ## Counts of frames -/

/-- A call of `dispatch()`. -/
@[grind =] def Frame.starts (t : T) : Frame T → Nat
  | .dispatch u => if u = t then 1 else 0
  | _ => 0

/-- The call of `u->dispatch()` in the loop of a `ParallelTask`. -/
@[grind =] def Frame.waits (parent u : T) : Frame T → Nat
  | .loop t rest => if t = parent then rest.count u else 0
  | _ => 0

/-- A call of `done()`. -/
@[grind =] def Frame.finishes (t : T) : Frame T → Nat
  | .subtaskDone u => if u = t then 1 else 0
  | _ => 0

/-- A `done()` that has not returned. -/
@[grind =] def Frame.inDone (t : T) : Frame T → Nat
  | .done u _ => if u = t then 1 else 0
  | _ => 0

/-- The decrement behind `done()`. -/
@[grind =] def Frame.counts (t : T) : Frame T → Nat
  | .decrement u _ => if u = t then 1 else 0
  | _ => 0

def State.starting (s : State T) (t : T) : Nat := total (Frame.starts t) s.threads

def State.waiting (s : State T) (parent u : T) : Nat := total (Frame.waits parent u) s.threads

def State.finishing (s : State T) (t : T) : Nat := total (Frame.finishes t) s.threads

def State.inDone (s : State T) (t : T) : Nat := total (Frame.inDone t) s.threads

def State.counting (s : State T) (t : T) : Nat := total (Frame.counts t) s.threads

/-- The series of a `ParallelTask` that have not been counted off, each by its subtask. -/
def uncounted (p : Plan T) (s : State T) (us : List T) : Finset T :=
  us.toFinset.filter fun u => s.counted (p.last u) = 0

/-- What a frame knows of the plan. -/
def FrameOk (p : Plan T) : Frame T → Prop
  | .loop parent rest => ∃ us, p.subtasks parent = some us ∧ ∀ u ∈ rest, u ∈ us
  | .done cur read => ∀ parent, read = some parent ↔ p.Series parent cur
  | .decrement cur parent => p.Series parent cur ∧ p.next cur = none
  | _ => True

structure Counts (p : Plan T) (s : State T) : Prop where
  root : s.starting p.root + s.dispatches p.root = 1
  subtask : ∀ parent us u, p.subtasks parent = some us → u ∈ us →
    s.starting u + s.dispatches u + s.waiting parent u = s.dispatches parent
  next : ∀ t u, p.next t = some u → s.starting u + s.dispatches u + s.inDone t = s.dones t
  leaf : ∀ t, p.subtasks t = none → s.outstanding t + s.finishing t + s.dones t = s.dispatches t
  parallel : ∀ t us, p.subtasks t = some us → s.outstanding t = 0 ∧
    s.finishing t + s.dones t = if s.dispatches t = 1 ∧ s.nleft t = 0 then 1 else 0
  ended : ∀ parent t, p.next t = none → p.Series parent t →
    s.counting t + s.counted t + s.inDone t = s.dones t
  parent : ∀ t, 0 < s.starting t + s.dispatches t →
    ∀ parent, s.parent t = some parent ↔ p.Series parent t
  frames : ∀ f, Runs s.threads f → FrameOk p f
  nleft : ∀ parent us, p.subtasks parent = some us → s.dispatches parent = 1 →
    s.nleft parent = (uncounted p s us).card

@[grind =] theorem bump_apply (f : T → Nat) (t u : T) :
    bump f t u = f u + if t = u then 1 else 0 := by
  rw [bump, Function.update_apply]
  split <;> split <;> grind

/-! ## What the counts say -/

namespace Counts

theorem done_le (h : Counts p s) (t : T) : s.finishing t + s.dones t ≤ s.dispatches t := by
  cases hsub : p.subtasks t with
  | none =>
    have hleaf := h.leaf t hsub
    omega
  | some us =>
    have hpar := (h.parallel t us hsub).2
    split at hpar
    next hone => omega
    next => omega

/-- A task is dispatched once: as its `ParallelTask` is, or as the `done()` before it is called. -/
theorem bound (h : Counts p s) (t : T) : s.starting t + s.dispatches t ≤ 1 := by
  induction hn : p.depth t using Nat.strong_induction_on generalizing t with
  | _ n ih =>
    rcases p.origin t with rfl | ⟨parent, us, hus, ht⟩ | ⟨v, hnext⟩
    · have hroot := h.root
      omega
    · have hsub := h.subtask parent us t hus ht
      have hparent := ih _ (hn ▸ p.depth_subtask hus ht) parent rfl
      omega
    · have heq := h.next v t hnext
      have hdone := h.done_le v
      have hv := ih _ (hn ▸ p.depth_next hnext) v rfl
      omega

theorem dones_le_one (h : Counts p s) (t : T) : s.finishing t + s.dones t ≤ 1 := by
  have hdone := h.done_le t
  have hbound := h.bound t
  omega

/-- The tasks before one that was dispatched have had their `done()` called. -/
theorem follows (h : Counts p s) (hfollows : p.Follows t u)
    (hu : 0 < s.starting u + s.dispatches u) : 0 < s.starting t + s.dispatches t := by
  induction hfollows using Relation.ReflTransGen.head_induction_on with
  | refl => exact hu
  | @head v x hnext _ ih =>
    have heq := h.next v x hnext
    have hdone := h.done_le v
    omega

/-- A series is started by its `ParallelTask`. -/
theorem series (h : Counts p s) (hseries : p.Series parent t)
    (ht : 0 < s.starting t + s.dispatches t) : 0 < s.dispatches parent := by
  obtain ⟨us, u, hus, hu, hfollows⟩ := hseries
  have hfirst := h.follows hfollows ht
  have hsub := h.subtask parent us u hus hu
  omega

/-- The end of a series that goes for the decrement has not been counted off. -/
theorem uncounted_mem (h : Counts p s) (hruns : Runs s.threads (.decrement cur parent)) :
    s.dispatches parent = 1 ∧ s.counted cur = 0 ∧ s.inDone cur = 0 ∧
    ∃ us u, p.subtasks parent = some us ∧ u ∈ us ∧ p.last u = cur := by
  obtain ⟨hseries, hend⟩ := h.frames _ hruns
  have hpos : 1 ≤ s.counting cur := by
    have hle := le_total (w := Frame.counts cur) hruns
    rwa [Frame.counts, if_pos rfl] at hle
  have hended := h.ended parent cur hend hseries
  have hdone := h.done_le cur
  have honce := h.dones_le_one cur
  have hbegun := h.series hseries (by omega)
  have hbound := h.bound parent
  obtain ⟨us, u, hus, hu, hfollows⟩ := hseries
  exact ⟨by omega, by omega, by omega, us, u, hus, hu, Plan.last_of_follows hfollows hend⟩

theorem counted_le (h : Counts p s) (hend : p.next t = none) (hseries : p.Series parent t) :
    s.counted t ≤ s.dones t := by
  have hended := h.ended parent t hend hseries
  omega

/-- No series of a `ParallelTask` has been counted off before its `dispatch()`. -/
theorem uncounted_before (h : Counts p s) (hus : p.subtasks parent = some us) (hu : u ∈ us)
    (hbefore : s.dispatches parent = 0) : s.counted (p.last u) = 0 := by
  have hseries : p.Series parent (p.last u) := ⟨us, u, hus, hu, Plan.follows_last u⟩
  have hle := h.counted_le (Plan.next_last u) hseries
  have hdone := h.done_le (p.last u)
  by_contra hne
  have hbegun := h.series hseries (by omega)
  omega

end Counts

end WorkflowKernel.SubTask
