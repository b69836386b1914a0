import Mathlib.Algebra.BigOperators.Group.Finset.Basic
import WorkflowKernel.SubTask.ForkJoin

/-!
# A plan completes

Each task has one `dispatch()` and one `done()` to come, with what these leave, and the calls that
threads are in have their own steps to come. `State.left` adds all of these up and every step drops
it, so user code that calls `subtask_done` of each leaf is all that a plan waits for.

## What is proved

- `left_lt`: a step of any thread leaves less to come.
- `run_completes`: a run is bounded by the plan; with no leaf outstanding its calls come to their
  end, and a run that cannot go on has completed the plan.
-/

namespace WorkflowKernel.SubTask

open WorkflowKernel.Lib WorkflowKernel.Lib.CallStacks WorkflowKernel.Transition

variable {T : Type} {p : Plan T} {s s' : State T} {t u : T} {old new : List (Frame T)}

/-! ## The tasks of a plan -/

/-- The tasks that `n` calls of `dispatch()` and `done()` lead to from the root. -/
def Plan.within (p : Plan T) : Nat → List T
  | 0 => [p.root]
  | n + 1 => p.within n ++
      (p.within n).flatMap fun t => (p.subtasks t).getD [] ++ (p.next t).toList

theorem Plan.root_mem_within : ∀ n, p.root ∈ p.within n
  | 0 => List.mem_singleton_self _
  | n + 1 => List.mem_append_left _ (Plan.root_mem_within n)

theorem Plan.mem_within : ∀ (n : Nat) (u : T), p.depth u ≤ n → u ∈ p.within n := by
  intro n
  induction n with
  | zero =>
    intro u hu
    rcases p.origin u with rfl | ⟨t, us, hus, hmem⟩ | ⟨t, hnext⟩
    · exact List.mem_singleton_self _
    · have hlt := p.depth_subtask hus hmem
      omega
    · have hlt := p.depth_next hnext
      omega
  | succ n ih =>
    intro u hu
    rcases p.origin u with rfl | ⟨t, us, hus, hmem⟩ | ⟨t, hnext⟩
    · exact Plan.root_mem_within _
    · have hlt := p.depth_subtask hus hmem
      refine List.mem_append_right _ (List.mem_flatMap.mpr ⟨t, ih t (by omega), ?_⟩)
      rw [hus]
      exact List.mem_append_left _ hmem
    · have hlt := p.depth_next hnext
      refine List.mem_append_right _ (List.mem_flatMap.mpr ⟨t, ih t (by omega), ?_⟩)
      rw [hnext]
      exact List.mem_append_right _ (List.mem_singleton_self _)

variable [DecidableEq T]

/-- All tasks: a plan has finitely many. -/
def Plan.tasks (p : Plan T) : Finset T := (p.within p.height).toFinset

theorem Plan.mem_tasks (t : T) : t ∈ p.tasks :=
  List.mem_toFinset.mpr (Plan.mem_within _ _ (p.depth_le t))

/-! ## What is to come -/

/-- The steps of a task's `dispatch()`: of a leaf the call and the return of its body and user code's
call of `subtask_done`, of a `ParallelTask` the loop. -/
def Plan.dispatchSteps (p : Plan T) (t : T) : Nat :=
  match p.subtasks t with
  | none => 3
  | some us => us.length + 2

/-- The most steps that a run of the plan has. -/
def Plan.steps (p : Plan T) : Nat := ∑ t ∈ p.tasks, (p.dispatchSteps t + 3)

/-- What a call has to come, but for what a first `dispatch()` or `done()` brings. -/
def Frame.left : Frame T → Nat
  | .dispatch _ => 0
  | .body _ => 1
  | .loop _ rest => rest.length + 1
  | .subtaskDone _ => 0
  | .done _ _ => 2
  | .decrement _ _ => 1

/-- What a task has to come. -/
def State.leftOf (p : Plan T) (s : State T) (t : T) : Nat :=
  p.dispatchSteps t * (1 - s.dispatches t) + 3 * (1 - s.dones t) + s.outstanding t

def State.left (p : Plan T) (s : State T) : Nat :=
  ∑ t ∈ p.tasks, s.leftOf p t + total Frame.left s.threads

/-- A step that writes the counts of one task. -/
theorem sum_leftOf (t : T) (hother : ∀ u, u ≠ t → s'.leftOf p u = s.leftOf p u) :
    ∑ u ∈ p.tasks, s'.leftOf p u + s.leftOf p t = ∑ u ∈ p.tasks, s.leftOf p u + s'.leftOf p t := by
  have hrest : ∑ u ∈ p.tasks.erase t, s'.leftOf p u = ∑ u ∈ p.tasks.erase t, s.leftOf p u :=
    Finset.sum_congr rfl fun u hu => hother u (Finset.ne_of_mem_erase hu)
  rw [← Finset.add_sum_erase p.tasks (s'.leftOf p) (Plan.mem_tasks t),
    ← Finset.add_sum_erase p.tasks (s.leftOf p) (Plan.mem_tasks t), hrest]
  omega

/-- What a step leaves to come, by its frames and by the task that it is about. -/
theorem left_lt_of_replaced (hr : Replaced s.threads s'.threads old new) (t : T)
    (hother : ∀ u, u ≠ t → s'.leftOf p u = s.leftOf p u)
    (hdrop : s'.leftOf p t + (new.map Frame.left).sum < s.leftOf p t + (old.map Frame.left).sum) :
    s'.left p < s.left p := by
  have htotal := hr.total Frame.left
  have hsum := sum_leftOf t hother
  rw [State.left, State.left]
  omega

namespace Counts

/-- A `dispatch()` that is called is the first of its task, -/
theorem not_dispatched (h : Counts p s) (hruns : Runs s.threads (.dispatch t)) :
    s.dispatches t = 0 := by
  have hpos : 1 ≤ s.starting t := pos_of_runs hruns (by rw [Frame.starts, if_pos rfl])
  have hbound := h.bound t
  omega

/-- and so is a `done()`. -/
theorem not_done (h : Counts p s) (hruns : Runs s.threads (.subtaskDone t)) : s.dones t = 0 := by
  have hpos : 1 ≤ s.finishing t := pos_of_runs hruns (by rw [Frame.finishes, if_pos rfl])
  have honce := h.dones_le_one t
  omega

/-- A frame that runs leaves less to come. -/
theorem left_runFrame (h : Counts p s) {i : Nat} {f : Frame T} {below : List (Frame T)}
    (hi : s.threads[i]? = some (f :: below)) :
    State.left p { (SubTask.runFrame p s f).1 with
      threads := s.threads.set i ((SubTask.runFrame p s f).2 ++ below) } < s.left p := by
  have hruns := runs_head hi
  cases f with
  | dispatch t =>
    have hzero := h.not_dispatched hruns
    simp only [SubTask.runFrame, dispatch]
    split
    next hsub =>
      refine left_lt_of_replaced (Replaced.run hi _) t (fun u hne => ?_) ?_
      · simp [State.leftOf, bump_apply, hne.symm]
      · simp [State.leftOf, bump_apply, Frame.left, Plan.dispatchSteps, hsub, hzero]
        omega
    next us hsub =>
      refine left_lt_of_replaced (Replaced.run hi _) t (fun u hne => ?_) ?_
      · simp [State.leftOf, bump_apply, hne.symm]
      · split
        · simp [State.leftOf, bump_apply, Frame.left, Plan.dispatchSteps, hsub, hzero]
          omega
        · simp [State.leftOf, bump_apply, Frame.left, Plan.dispatchSteps, hsub, hzero]
  | body t =>
    exact left_lt_of_replaced (Replaced.run hi []) t (fun _ _ => rfl) (Nat.lt_succ_self _)
  | loop t rest =>
    cases rest with
    | nil => exact left_lt_of_replaced (Replaced.run hi []) t (fun _ _ => rfl) (Nat.lt_succ_self _)
    | cons u rest =>
      refine left_lt_of_replaced (Replaced.run hi [.dispatch u, .loop t rest]) t (fun _ _ => rfl) ?_
      simp only [SubTask.runFrame, SubTask.loop, State.leftOf, Frame.left, List.map_cons,
        List.map_nil, List.sum_cons, List.sum_nil, List.length_cons]
      omega
  | subtaskDone cur =>
    have hzero := h.not_done hruns
    refine left_lt_of_replaced (Replaced.run hi _) cur (fun u hne => ?_) ?_
    · simp [SubTask.runFrame, SubTask.subtaskDone, State.leftOf, bump_apply, hne.symm]
    · simp [SubTask.runFrame, SubTask.subtaskDone, State.leftOf, bump_apply, Frame.left, hzero]
      omega
  | done cur read =>
    simp only [SubTask.runFrame, doneReturned]
    split
    next u hnext =>
      exact left_lt_of_replaced (Replaced.run hi _) cur (fun _ _ => rfl)
        (by simp [State.leftOf, Frame.left])
    next =>
      refine left_lt_of_replaced (Replaced.run hi _) cur (fun _ _ => rfl) ?_
      cases read <;> simp [State.leftOf, Frame.left]
  | decrement cur parent =>
    refine left_lt_of_replaced (Replaced.run hi _) cur (fun _ _ => rfl) ?_
    simp only [SubTask.runFrame, SubTask.decrement]
    split <;> simp [State.leftOf, Frame.left]

theorem left_lt (h : Counts p s) {l : Label T} (hstep : SubTask.step p s l = some s') :
    s'.left p < s.left p := by
  cases l with
  | run i =>
    rw [SubTask.step] at hstep
    split at hstep
    next f below hi =>
      cases hstep
      exact h.left_runFrame hi
    next => cases hstep
  | call i t =>
    rw [SubTask.step] at hstep
    split at hstep
    next stack hi =>
      split at hstep
      next hcond =>
        cases hstep
        have hout := hcond.2
        refine left_lt_of_replaced (Replaced.call hi _) t (fun u hne => ?_) ?_
        · simp [State.leftOf, Function.update_of_ne hne]
        · simp [State.leftOf, Frame.left]
          omega
      next => cases hstep
    next => cases hstep

end Counts

theorem left_start (p : Plan T) (others : Nat) :
    (State.start p.root others).left p = p.steps := by
  simp [State.left, State.leftOf, State.start, Plan.steps, total, Frame.left]

/-! ## The end of a run -/

theorem threads_length_of_step {l : Label T} (hstep : step p s l = some s') :
    s'.threads.length = s.threads.length := by
  cases l <;> rw [step] at hstep <;> split at hstep
  · cases hstep
    exact List.length_set
  · cases hstep
  · split at hstep
    · cases hstep
      exact List.length_set
    · cases hstep
  · cases hstep

theorem threads_pos (hreach : (system p).Reachable s) : 0 < s.threads.length := by
  induction hreach with
  | init hinit =>
    obtain ⟨others, rfl⟩ := hinit
    exact Nat.succ_pos _
  | step _ _ hstep ih => rwa [threads_length_of_step hstep]

/-- Where no call goes on the threads are out of all calls. -/
theorem no_frames (hstop : ∀ i, step p s (.run i) = none) : ∀ stack ∈ s.threads, stack = [] := by
  intro stack hmem
  obtain ⟨i, hi⟩ := List.mem_iff_getElem?.mp hmem
  cases stack with
  | nil => rfl
  | cons f below =>
    have hstuck := hstop i
    rw [step, hi] at hstuck
    cases hstuck

/-- With no leaf outstanding the calls of a plan come to their end. -/
theorem quiet_of_stopped (hstop : ∀ i, step p s (.run i) = none) (hout : ∀ t, s.outstanding t = 0) :
    Quiet s := by
  refine ⟨hout, ?_⟩
  rintro f ⟨stack, hmem, hf⟩
  rw [no_frames hstop stack hmem] at hf
  cases hf

/-- A thread out of all calls is user code, which can end any leaf. -/
theorem no_outstanding (hreach : (system p).Reachable s) (hstop : ∀ l, step p s l = none) (t : T) :
    s.outstanding t = 0 := by
  obtain ⟨stack, rest, hcons⟩ := List.exists_cons_of_length_pos (threads_pos hreach)
  have hempty := no_frames (fun i => hstop (.run i)) stack (hcons ▸ List.mem_cons_self)
  have hstuck := hstop (.call 0 t)
  by_contra hne
  have hgoes : inUserCode stack = true ∧ 0 < s.outstanding t :=
    ⟨hempty ▸ rfl, Nat.pos_of_ne_zero hne⟩
  simp only [step, hcons, List.getElem?_cons_zero, if_pos hgoes] at hstuck
  cases hstuck

/-- A run of a plan is bounded by the plan. With no leaf outstanding it is on the way to `Quiet`, and
one that cannot go on has called each `dispatch()` and `done()`. -/
theorem run_completes {others : Nat} {ls : List (Label T)}
    (hrun : (system p).run (State.start p.root others) ls = some s) :
    ls.length ≤ p.steps ∧
    ((∀ i, step p s (.run i) = none) → (∀ t, s.outstanding t = 0) → Quiet s) ∧
    ((∀ l, step p s l = none) → ∀ t, s.dispatches t = 1 ∧ s.dones t = 1) := by
  have hreach := System.reachable_of_run (show (system p).Init _ from ⟨others, rfl⟩) hrun
  refine ⟨?_, quiet_of_stopped, fun hstop => ?_⟩
  · have hdrops : ∀ s l t, Counts p s → (system p).step s l = some t → t.left p < s.left p :=
      fun _ _ _ hs hstep => hs.left_lt hstep
    have hlength := System.run_length_le (fun _ _ _ hs hstep => hs.step hstep) hdrops
      (Counts.start p others) hrun
    rw [left_start] at hlength
    omega
  · have hquiet := quiet_of_stopped (fun i => hstop (.run i)) (no_outstanding hreach hstop)
    exact (forkJoin hreach).complete hquiet

end WorkflowKernel.SubTask
