import Mathlib.Data.Finset.Card
import Mathlib.Logic.Relation
import WorkflowKernel.SubTask.Model

/-!
# The series of a plan

A series starts at a subtask and follows `done()` to the task that returns NULL, its `last`. A task is
in one series of one `ParallelTask` at most, since it is dispatched from one place.

## What is proved

- `Plan.next_last`: a series ends.
- `Plan.Series.parallel_unique`, `Plan.start_unique`: it is found from any of its tasks.
-/

namespace WorkflowKernel.SubTask

variable {T : Type} {p : Plan T} {t u v x y parent parent' : T} {us : List T}

/-- `u` is `t` or comes behind it in its series. -/
def Plan.Follows (p : Plan T) : T → T → Prop := Relation.ReflTransGen fun t u => p.next t = some u

/-- `t` is in a series of `parent`. -/
def Plan.Series (p : Plan T) (parent t : T) : Prop :=
  ∃ us u, p.subtasks parent = some us ∧ u ∈ us ∧ p.Follows u t

/-- Where at most `n` calls of `done()` lead to. -/
def Plan.walk (p : Plan T) : Nat → T → T
  | 0, t => t
  | n + 1, t =>
    match p.next t with
    | some u => p.walk n u
    | none => t

/-- The task behind which the series of `t` ends. -/
def Plan.last (p : Plan T) (t : T) : T := p.walk p.height t

/-! ## The end of a series -/

/-- A walk stays in the series, -/
theorem Plan.follows_walk : ∀ (n : Nat) (t : T), p.Follows t (p.walk n t)
  | 0, _ => Relation.ReflTransGen.refl
  | n + 1, t => by
    rw [Plan.walk]
    split
    next u hnext => exact Relation.ReflTransGen.head hnext (Plan.follows_walk n u)
    next => exact Relation.ReflTransGen.refl

/-- and one that is long enough comes to its end. -/
theorem Plan.next_walk : ∀ (n : Nat) (t : T), p.height ≤ p.depth t + n →
    p.next (p.walk n t) = none
  | 0, t, hn => by
    rw [Plan.walk, Option.eq_none_iff_forall_not_mem]
    intro u hnext
    have hlt := p.depth_next hnext
    have hle := p.depth_le u
    omega
  | n + 1, t, hn => by
    rw [Plan.walk]
    split
    next u hnext =>
      have hlt := p.depth_next hnext
      exact Plan.next_walk n u (by omega)
    next hnext => exact hnext

theorem Plan.follows_last (t : T) : p.Follows t (p.last t) := Plan.follows_walk p.height t

/-- A series ends. -/
theorem Plan.next_last (t : T) : p.next (p.last t) = none :=
  Plan.next_walk p.height t (Nat.le_add_left _ _)

/-- Nothing follows the end. -/
theorem Plan.Follows.eq_of_end (h : p.Follows t u) (hend : p.next t = none) : u = t := by
  rcases Relation.ReflTransGen.cases_head h with heq | ⟨v, hnext, -⟩
  · exact heq.symm
  · rw [hend] at hnext
    cases hnext

/-- Two tasks that follow one are in its series. -/
theorem Plan.Follows.total (hu : p.Follows t u) (hv : p.Follows t v) :
    p.Follows u v ∨ p.Follows v u := by
  refine Relation.ReflTransGen.total_of_right_unique ?_ hu hv
  intro a b c hb hc
  rw [hb] at hc
  exact Option.some.inj hc

/-- A series has one end. -/
theorem Plan.last_of_follows (h : p.Follows t u) (hend : p.next u = none) : p.last t = u := by
  rcases h.total (p.follows_last t) with huv | hvu
  · exact huv.eq_of_end hend
  · exact (hvu.eq_of_end (p.next_last t)).symm

/-! ## The start of a series -/

/-- A series goes down. -/
theorem Plan.Follows.depth_le (h : p.Follows t u) : p.depth t ≤ p.depth u := by
  induction h with
  | refl => exact Nat.le_refl _
  | tail _ hnext ih => exact Nat.le_trans ih (Nat.le_of_lt (p.depth_next hnext))

/-- A task that no `done()` returns is followed by the task that follows another such one only if
they are the same. -/
theorem Plan.start_unique (hx : p.Follows x t) (hy : p.Follows y t)
    (hxs : ∀ v, p.next v ≠ some x) (hys : ∀ v, p.next v ≠ some y) : x = y := by
  induction hx generalizing y with
  | refl =>
    rcases Relation.ReflTransGen.cases_tail hy with heq | ⟨v, -, hnext⟩
    · exact heq
    · exact absurd hnext (hxs v)
  | tail hxb hnext ih =>
    rcases Relation.ReflTransGen.cases_tail hy with heq | ⟨v, hyv, hnext'⟩
    · rw [heq] at hnext
      exact absurd hnext (hys _)
    · rw [p.next_unique hnext' hnext] at hyv
      exact ih hyv hys

/-- A subtask starts a series of its `ParallelTask`. -/
theorem Plan.series_first (h : p.subtasks parent = some us) (hu : u ∈ us) : p.Series parent u :=
  ⟨us, u, h, hu, Relation.ReflTransGen.refl⟩

/-- A series is below its `ParallelTask`. -/
theorem Plan.Series.depth_lt (h : p.Series parent t) : p.depth parent < p.depth t := by
  obtain ⟨us, u, hus, hu, hfollows⟩ := h
  exact Nat.lt_of_lt_of_le (p.depth_subtask hus hu) hfollows.depth_le

/-- A task is in a series of one `ParallelTask`. -/
theorem Plan.Series.parallel_unique (h : p.Series parent t) (h' : p.Series parent' t) :
    parent = parent' := by
  obtain ⟨us, u, hus, hu, hfollows⟩ := h
  obtain ⟨us', u', hus', hu', hfollows'⟩ := h'
  have heq : u = u' :=
    p.start_unique hfollows hfollows' (p.subtask_not_next hus hu) (p.subtask_not_next hus' hu')
  subst heq
  exact p.subtask_unique hus hus' hu hu'

/-- `done()` stays in the series. -/
theorem Plan.series_next (hnext : p.next t = some u) : p.Series parent u ↔ p.Series parent t := by
  constructor
  · rintro ⟨us, x, hus, hx, hfollows⟩
    rcases Relation.ReflTransGen.cases_tail hfollows with heq | ⟨v, hxv, hnext'⟩
    · rw [heq] at hnext
      exact absurd hnext (p.subtask_not_next hus hx t)
    · rw [p.next_unique hnext' hnext] at hxv
      exact ⟨us, x, hus, hx, hxv⟩
  · rintro ⟨us, x, hus, hx, hfollows⟩
    exact ⟨us, x, hus, hx, hfollows.tail hnext⟩

/-- The root is in no series. -/
theorem Plan.not_series_root : ¬ p.Series parent p.root := by
  rintro ⟨us, x, hus, hx, hfollows⟩
  rcases Relation.ReflTransGen.cases_tail hfollows with heq | ⟨v, -, hnext⟩
  · rw [← heq] at hx
    exact p.root_not_subtask hus hx
  · exact p.root_not_next v hnext

end WorkflowKernel.SubTask
