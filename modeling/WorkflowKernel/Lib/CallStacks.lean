import Mathlib.Algebra.BigOperators.Group.List.Basic
import Mathlib.Algebra.Order.BigOperators.Group.List
import Mathlib.Algebra.Order.Ring.Nat

/-!
# Threads with call stacks

The threads of a program are the list of their call stacks, the frame that runs first. A step
replaces the first frame of one stack by the frames that it leaves. An invariant that does not ask
which thread runs a frame, or below which other one, is about `total`, the sum of a weight over all
frames: a step changes it by what it takes and leaves.

## What is proved

- `Replaced.run`, `Replaced.call`: the total before and after a step, and where its frames are from.
- `le_total`, `exists_of_total_pos`: the frames that have a part in the total.
-/

namespace WorkflowKernel.Lib.CallStacks

variable {F : Type*} {w : F → Nat} {threads : List (List F)} {i : Nat} {f : F} {rest new : List F}

/-- The sum of a weight over all frames of all threads. -/
def total (w : F → Nat) (threads : List (List F)) : Nat :=
  (threads.map fun stack => (stack.map w).sum).sum

theorem total_set {old : List F} (h : threads[i]? = some old) (new : List F) :
    total w (threads.set i new) + (old.map w).sum = total w threads + (new.map w).sum := by
  induction threads generalizing i with
  | nil => simp at h
  | cons stack threads ih =>
    cases i with
    | zero =>
      obtain rfl : stack = old := by simpa using h
      simp only [total, List.set_cons_zero, List.map_cons, List.sum_cons]
      omega
    | succ i =>
      have hrest := ih (i := i) (by simpa using h)
      simp only [total, List.set_cons_succ, List.map_cons, List.sum_cons] at hrest ⊢
      omega

/-- A frame of some thread. -/
def Runs (threads : List (List F)) (f : F) : Prop := ∃ stack ∈ threads, f ∈ stack

theorem runs_head (h : threads[i]? = some (f :: rest)) : Runs threads f :=
  ⟨_, List.mem_of_getElem? h, List.mem_cons_self⟩

/-- A frame has a part in the total. -/
theorem le_total (h : Runs threads f) : w f ≤ total w threads := by
  obtain ⟨stack, hstack, hf⟩ := h
  have hinner : w f ≤ (stack.map w).sum :=
    List.single_le_sum (by simp) _ (List.mem_map_of_mem hf)
  have houter : (stack.map w).sum ≤ total w threads :=
    List.single_le_sum (by simp) _ (List.mem_map_of_mem hstack)
  exact Nat.le_trans hinner houter

/-- Where the total is positive a frame has a part in it. -/
theorem exists_of_total_pos (h : 0 < total w threads) : ∃ f, Runs threads f ∧ 0 < w f := by
  obtain ⟨n, hn, hpos⟩ := List.sum_pos_iff_exists_pos_nat.mp h
  obtain ⟨stack, hstack, rfl⟩ := List.mem_map.mp hn
  obtain ⟨m, hm, hpos⟩ := List.sum_pos_iff_exists_pos_nat.mp hpos
  obtain ⟨f, hf, rfl⟩ := List.mem_map.mp hm
  exact ⟨f, ⟨stack, hstack, hf⟩, hpos⟩

/-- What a step does to the frames: some of them go and others come. -/
structure Replaced (threads threads' : List (List F)) (old new : List F) : Prop where
  total : ∀ w, total w threads' + (old.map w).sum = total w threads + (new.map w).sum
  runs : ∀ f, Runs threads' f → Runs threads f ∨ f ∈ new

/-- The running frame of a thread leaves others. -/
theorem Replaced.run (h : threads[i]? = some (f :: rest)) (new : List F) :
    Replaced threads (threads.set i (new ++ rest)) [f] new where
  total w := by
    have hset := total_set (w := w) h (new ++ rest)
    simp only [List.map_cons, List.sum_cons, List.map_append, List.sum_append, List.map_nil,
      List.sum_nil] at hset ⊢
    omega
  runs g hg := by
    obtain ⟨stack, hmem, hg⟩ := hg
    rcases List.mem_or_eq_of_mem_set hmem with hmem | rfl
    · exact .inl ⟨stack, hmem, hg⟩
    · rcases List.mem_append.mp hg with hnew | hrest
      · exact .inr hnew
      · exact .inl ⟨_, List.mem_of_getElem? h, List.mem_cons_of_mem _ hrest⟩

/-- A thread calls a function. -/
theorem Replaced.call {stack : List F} (h : threads[i]? = some stack) (f : F) :
    Replaced threads (threads.set i (f :: stack)) [] [f] where
  total w := by
    have hset := total_set (w := w) h (f :: stack)
    simp only [List.map_cons, List.sum_cons, List.map_nil, List.sum_nil] at hset ⊢
    omega
  runs g hg := by
    obtain ⟨stack', hmem, hg⟩ := hg
    rcases List.mem_or_eq_of_mem_set hmem with hmem | rfl
    · exact .inl ⟨stack', hmem, hg⟩
    · rcases List.mem_cons.mp hg with rfl | hold
      · exact .inr (List.mem_singleton_self _)
      · exact .inl ⟨_, List.mem_of_getElem? h, hold⟩

end WorkflowKernel.Lib.CallStacks
