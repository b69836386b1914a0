import Mathlib.Data.Fin.VecNotation
import Mathlib.Data.Fintype.Basic
import Mathlib.Tactic.FinCases
import WorkflowKernel.SubTask.Steps

/-!
# Fork and join

What a plan's run is: each task's `dispatch()` and `done()` once and in this order, a series in the
order of its `done()`, a `ParallelTask` behind its series, and `nleft` what is left of these.

## What is proved

- `forkJoin`: this law in every state that any number of threads reaches. The completion of a plan
  is an induction on how far a task is above the deepest one.
-/

namespace WorkflowKernel.SubTask

open WorkflowKernel.Lib WorkflowKernel.Lib.CallStacks WorkflowKernel.Transition

variable {T : Type} [DecidableEq T] {p : Plan T} {s : State T} {t u parent : T} {us : List T}

/-- No leaf is outstanding, and no thread is in `dispatch` or `subtask_done` of this file: a leaf's
`dispatch()` may still run. -/
def Quiet (s : State T) : Prop :=
  (∀ t, s.outstanding t = 0) ∧ ∀ f, Runs s.threads f → ∃ t, f = .body t

structure ForkJoin (p : Plan T) (s : State T) : Prop where
  /-- `dispatch()` and `done()` of a task are called once, -/
  once : ∀ t, s.dispatches t ≤ 1
  /-- and `dispatch()` first. -/
  order : ∀ t, s.dones t ≤ s.dispatches t
  /-- The next task of a series is dispatched behind the `done()` that returns it, and has the
  parent of its predecessor. -/
  series : ∀ t u, p.next t = some u → s.dispatches u = 1 →
    s.dones t = 1 ∧ s.inDone t = 0 ∧ s.parent u = s.parent t
  /-- A series knows its `ParallelTask`. -/
  parent : ∀ t, s.dispatches t = 1 → ∀ parent, s.parent t = some parent ↔ p.Series parent t
  /-- A `ParallelTask` is done behind the `done()` of all tasks of its series, the last of which has
  returned NULL. -/
  join : ∀ parent us, p.subtasks parent = some us → s.dones parent = 1 →
    ∀ t, p.Series parent t → s.dones t = 1 ∧ s.inDone t = 0
  nleft : ∀ parent us, p.subtasks parent = some us → s.dispatches parent = 1 →
    s.nleft parent = (uncounted p s us).card
  /-- The decrement of `nleft` does not underflow. -/
  decrement : ∀ cur parent, Runs s.threads (.decrement cur parent) →
    p.Series parent cur ∧ 0 < s.nleft parent
  /-- What is in a call goes on. -/
  progress : ∀ i f below, s.threads[i]? = some (f :: below) → (step p s (.run i)).isSome = true
  complete : Quiet s → ∀ t, s.dispatches t = 1 ∧ s.dones t = 1

namespace Counts

/-- The tasks up to one whose `done()` was called have had theirs. -/
theorem follows_done (h : Counts p s) (hfollows : p.Follows t u) (hu : s.dones u = 1)
    (hin : s.inDone u = 0) : s.dones t = 1 ∧ s.inDone t = 0 := by
  induction hfollows using Relation.ReflTransGen.head_induction_on with
  | refl => exact ⟨hu, hin⟩
  | @head v x hnext _ ih =>
    have heq := h.next v x hnext
    have hdone := h.done_le x
    have honce := h.dones_le_one v
    omega

theorem join (h : Counts p s) (hus : p.subtasks parent = some us) (hdone : s.dones parent = 1)
    (hseries : p.Series parent t) : s.dones t = 1 ∧ s.inDone t = 0 := by
  have hpar := (h.parallel parent us hus).2
  split at hpar
  next hcond =>
    have hnleft := h.nleft parent us hus hcond.1
    have hempty : uncounted p s us = ∅ := by
      rw [← Finset.card_eq_zero]
      omega
    obtain ⟨us', u, hus', hu, hfollows⟩ := hseries
    obtain rfl : us = us' := by
      rw [hus] at hus'
      exact Option.some.inj hus'
    have hcounted : s.counted (p.last u) ≠ 0 := by
      intro hzero
      have hmem : u ∈ uncounted p s us := by
        rw [uncounted, Finset.mem_filter, List.mem_toFinset]
        exact ⟨hu, hzero⟩
      rw [hempty] at hmem
      cases hmem
    have hended := h.ended parent _ (Plan.next_last u) ⟨us, u, hus, hu, Plan.follows_last u⟩
    have honce := h.dones_le_one (p.last u)
    have hbehind : p.Follows t (p.last u) := by
      rcases hfollows.total (Plan.follows_last u) with htl | hlt
      · exact htl
      · rw [hlt.eq_of_end (Plan.next_last u)]
        exact Relation.ReflTransGen.refl
    exact h.follows_done hbehind (by omega) (by omega)
  next => omega

section Complete

variable (h : Counts p s) (hquiet : Quiet s)
include h hquiet

omit [DecidableEq T] h in
theorem quiet_total {w : Frame T → Nat} (hw : ∀ t, w (.body t) = 0) : total w s.threads = 0 := by
  by_contra hne
  obtain ⟨f, hf, hpos⟩ := exists_of_total_pos (Nat.pos_of_ne_zero hne)
  obtain ⟨t, rfl⟩ := hquiet.2 f hf
  rw [hw] at hpos
  omega

/-- What was dispatched is done, the deepest tasks first. -/
theorem quiet_done (t : T) (ht : s.dispatches t = 1) : s.dones t = 1 := by
  have hstart : ∀ u, s.starting u = 0 := fun u => quiet_total hquiet fun _ => rfl
  have hwait : ∀ t u, s.waiting t u = 0 := fun t u => quiet_total hquiet fun _ => rfl
  have hfin : ∀ u, s.finishing u = 0 := fun u => quiet_total hquiet fun _ => rfl
  have hin : ∀ u, s.inDone u = 0 := fun u => quiet_total hquiet fun _ => rfl
  have hcount : ∀ u, s.counting u = 0 := fun u => quiet_total hquiet fun _ => rfl
  induction hn : p.height - p.depth t using Nat.strong_induction_on generalizing t with
  | _ n ih =>
    cases hsub : p.subtasks t with
    | none =>
      have hleaf := h.leaf t hsub
      have hout := hquiet.1 t
      have hfint := hfin t
      omega
    | some us =>
      have hdeep : ∀ u, p.depth t < p.depth u → s.dispatches u = 1 → s.dones u = 1 := by
        intro u hlt hu
        have hle := p.depth_le u
        exact ih _ (by omega) u hu rfl
      have hfollows : ∀ u, u ∈ us → ∀ x, p.Follows u x → s.dispatches x = 1 := by
        intro u hu x hux
        induction hux with
        | refl =>
          have heq := h.subtask t us u hsub hu
          rw [hstart, hwait] at heq
          omega
        | @tail y x huy hnext ihy =>
          have heq := h.next y x hnext
          have hlt := Plan.Series.depth_lt ⟨us, u, hsub, hu, huy⟩
          rw [hdeep y hlt ihy, hstart, hin] at heq
          omega
      have hempty : uncounted p s us = ∅ := by
        rw [uncounted, Finset.filter_eq_empty_iff]
        intro u hu hzero
        rw [List.mem_toFinset] at hu
        have hseries : p.Series t (p.last u) := ⟨us, u, hsub, hu, Plan.follows_last u⟩
        have hlast := hfollows u hu _ (Plan.follows_last u)
        have hended := h.ended t _ (Plan.next_last u) hseries
        rw [hdeep _ hseries.depth_lt hlast, hcount, hin, hzero] at hended
        omega
      have hnleft : s.nleft t = 0 := by
        rw [h.nleft t us hsub ht, hempty]
        rfl
      have hpar := (h.parallel t us hsub).2
      rw [if_pos ⟨ht, hnleft⟩, hfin] at hpar
      omega

theorem quiet_dispatched (t : T) : s.dispatches t = 1 := by
  have hstart : ∀ u, s.starting u = 0 := fun u => quiet_total hquiet fun _ => rfl
  have hwait : ∀ t u, s.waiting t u = 0 := fun t u => quiet_total hquiet fun _ => rfl
  have hin : ∀ u, s.inDone u = 0 := fun u => quiet_total hquiet fun _ => rfl
  induction hn : p.depth t using Nat.strong_induction_on generalizing t with
  | _ n ih =>
    rcases p.origin t with rfl | ⟨parent, us, hus, ht⟩ | ⟨v, hnext⟩
    · have hroot := h.root
      rw [hstart] at hroot
      omega
    · have heq := h.subtask parent us t hus ht
      rw [hstart, hwait, ih _ (hn ▸ p.depth_subtask hus ht) parent rfl] at heq
      omega
    · have heq := h.next v t hnext
      have hv := ih _ (hn ▸ p.depth_next hnext) v rfl
      rw [hstart, hin, h.quiet_done hquiet v hv] at heq
      omega

end Complete

end Counts

/-- Series and parallel tasks fork and join, on any threads in any order. -/
theorem forkJoin {p : Plan T} {s : State T} (h : (system p).Reachable s) : ForkJoin p s := by
  have hcounts := Counts.reachable h
  constructor
  · intro t
    have hbound := hcounts.bound t
    omega
  · intro t
    have hdone := hcounts.done_le t
    omega
  · intro t u hnext hu
    have heq := hcounts.next t u hnext
    have honce := hcounts.dones_le_one t
    have hdone := hcounts.done_le t
    refine ⟨by omega, by omega, ?_⟩
    ext parent
    rw [hcounts.parent u (by omega), hcounts.parent t (by omega)]
    exact p.series_next hnext
  · intro t ht
    exact hcounts.parent t (by omega)
  · intro parent us hus hdone t hseries
    exact hcounts.join hus hdone hseries
  · exact hcounts.nleft
  · intro cur parent hruns
    exact ⟨(hcounts.frames _ hruns).1, hcounts.nleft_pos hruns⟩
  · intro i f below hi
    rw [step, hi]
    rfl
  · intro hquiet t
    have ht := hcounts.quiet_dispatched hquiet t
    exact ⟨ht, hcounts.quiet_done hquiet t ht⟩

/-! ## A run -/

/-- A root with two series, one of two leaves and one of a `ParallelTask` without subtasks, and a
leaf behind the root. -/
def nested : Plan (Fin 5) where
  root := 0
  subtasks := ![some [1, 2], none, some [], none, none]
  next := ![some 4, some 3, none, none, none]
  depth := ![0, 1, 1, 2, 1]
  height := 2
  depth_le := by decide
  depth_subtask := by
    intro t us u h hu
    fin_cases t <;> cases h <;> revert u <;> decide
  depth_next := by decide
  origin := by
    intro u
    fin_cases u
    · exact .inl rfl
    · exact .inr (.inl ⟨0, [1, 2], rfl, by decide⟩)
    · exact .inr (.inl ⟨0, [1, 2], rfl, by decide⟩)
    · exact .inr (.inr ⟨1, rfl⟩)
    · exact .inr (.inr ⟨0, rfl⟩)
  subtask_once := by
    intro t us h
    fin_cases t <;> cases h <;> decide
  subtask_unique := by
    intro t t' us us' u h h' hu hu'
    fin_cases t <;> cases h <;> fin_cases t' <;> cases h'
    · rfl
    · exact absurd hu' List.not_mem_nil
    · exact absurd hu List.not_mem_nil
    · rfl
  next_unique := by decide
  subtask_not_next := by
    intro t us u h hu
    fin_cases t <;> cases h <;> revert u <;> decide
  root_not_subtask := by
    intro t us h
    fin_cases t <;> cases h <;> decide
  root_not_next := by decide

/-- The first leaf ends inside its `dispatch()`, the others on a second thread. -/
def schedule : List (Label (Fin 5)) :=
  [.run 0, .run 0, .run 0, .call 0 1, .run 0, .run 0, .run 0, .call 1 3, .run 1, .run 1, .run 1,
    .run 0, .run 0, .run 0, .run 0, .run 0, .run 0, .run 0, .run 0, .run 0, .run 0, .call 1 4,
    .run 1, .run 1, .run 0, .run 0]

theorem nested_completes : ∃ s, (system nested).run (State.start 0 1) schedule = some s ∧
    ∀ t, s.dispatches t = 1 ∧ s.dones t = 1 := by
  have hrun : ((system nested).run (State.start 0 1) schedule).map (fun s =>
      (s.threads, (List.finRange 5).map s.outstanding)) = some ([[], []], [0, 0, 0, 0, 0]) := by
    decide +kernel
  obtain ⟨s, hs, hend⟩ := Option.map_eq_some_iff.mp hrun
  rw [Prod.mk.injEq] at hend
  have hquiet : Quiet s := by
    constructor
    · intro t
      have hzero : ∀ n ∈ (List.finRange 5).map s.outstanding, n = 0 := by
        rw [hend.2]
        decide
      exact hzero _ (List.mem_map_of_mem (List.mem_finRange t))
    · rintro f ⟨stack, hmem, hf⟩
      rw [hend.1] at hmem
      fin_cases hmem <;> cases hf
  exact ⟨s, hs, (forkJoin (System.reachable_of_run (M := system nested) ⟨1, rfl⟩ hs)).complete
    hquiet⟩

end WorkflowKernel.SubTask
