import Mathlib.Data.List.Basic

/-!
# Double-ended queues and their histories

What a container is for that threads put elements into at both ends and take them from at the front.
A history is a list of operations, each with its thread and with what it put or got; `replay` runs
it and refuses an operation that a double-ended queue does not allow there.

An implementation is such a queue if the effects of its operations can be put in an allowed order in
which each lies between the call and the return of its operation. `Linearizes` says so of a state in
which some threads are inside an operation: what the order holds of a thread is what its operations
have returned, and then the effect of the one at hand if it has taken place.

## What is proved

- `replay_append`: a history in two parts.
- `Linearizes.step`: the thread of a step takes effect or returns, and the others stay.
-/

namespace WorkflowKernel.Lib.Deque

variable {T A : Type*}

/-- An operation that has taken effect, and its thread. -/
inductive Op (T A : Type*)
  | pushBack (thread : T) (a : A)
  | pushFront (thread : T) (a : A)
  | popFront (thread : T) (a : A)
  /-- An attempt to take an element that finds none. -/
  | empty (thread : T)
  deriving DecidableEq, Repr

def Op.thread : Op T A → T
  | .pushBack t _ | .pushFront t _ | .popFront t _ | .empty t => t

section Replay

variable [DecidableEq A]

def apply (xs : List A) : Op T A → Option (List A)
  | .pushBack _ a => some (xs ++ [a])
  | .pushFront _ a => some (a :: xs)
  | .popFront _ a => if xs.head? = some a then some xs.tail else none
  | .empty _ => if xs = [] then some [] else none

/-- The contents after more operations. -/
def replayFrom (xs : List A) (ops : List (Op T A)) : Option (List A) := ops.foldlM apply xs

/-- The contents after a history. -/
def replay (ops : List (Op T A)) : Option (List A) := replayFrom [] ops

/-- More operations go on from what the first ones leave. -/
theorem replay_append {ops new : List (Op T A)} {xs : List A} (h : replay ops = some xs) :
    replay (ops ++ new) = replayFrom xs new := by
  rw [replay, replayFrom, List.foldlM_append]
  change (replay ops).bind _ = _
  rw [h]
  rfl

end Replay

section Threads

variable [DecidableEq T]

/-- What the thread `t` has done in a history. -/
def of (t : T) (ops : List (Op T A)) : List (Op T A) := ops.filter fun op => op.thread = t

/-- `events` is an order of effects for the operations that have returned `outcomes`, and for those
at hand that have taken effect. -/
def Linearizes (events outcomes : List (Op T A)) (pending : T → List (Op T A)) : Prop :=
  ∀ t, of t events = of t outcomes ++ pending t

variable {events outcomes new returned : List (Op T A)} {pending pending' : T → List (Op T A)} {t : T}

/-- Operations of one thread are all its own, -/
theorem of_self (h : ∀ op ∈ new, op.thread = t) : of t new = new :=
  List.filter_eq_self.mpr fun op hop => decide_eq_true (h op hop)

/-- and no other thread has one among them. -/
theorem of_other {u : T} (h : ∀ op ∈ new, op.thread = t) (hu : u ≠ t) : of u new = [] :=
  List.filter_eq_nil_iff.mpr fun op hop => by
    simpa [h op hop] using hu.symm

/-- A thread takes effect or returns. -/
theorem Linearizes.step (h : Linearizes events outcomes pending) (hnew : ∀ op ∈ new, op.thread = t)
    (hreturned : ∀ op ∈ returned, op.thread = t) (here : pending t ++ new = returned ++ pending' t)
    (others : ∀ u, u ≠ t → pending' u = pending u) :
    Linearizes (events ++ new) (outcomes ++ returned) pending' := by
  intro u
  have split : ∀ xs ys : List (Op T A), of u (xs ++ ys) = of u xs ++ of u ys := fun xs ys =>
    List.filter_append ..
  rw [split, split, h u]
  by_cases hu : u = t
  · subst hu
    rw [of_self hnew, of_self hreturned, List.append_assoc, here, List.append_assoc]
  · rw [of_other hnew hu, of_other hreturned hu, others u hu, List.append_nil, List.append_nil]

end Threads

end WorkflowKernel.Lib.Deque
