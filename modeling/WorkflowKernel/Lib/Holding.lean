import Mathlib.Algebra.BigOperators.Group.List.Basic
import Mathlib.Algebra.Order.Group.Multiset
import Mathlib.Data.Multiset.AddSub
import Mathlib.Tactic.Abel

/-!
# What a program holds

Programs that take resources from an environment that may refuse, and give them back. `World` has
what is held, the environment's answers and the number of times something was given back that was
not held. A resource may be anything with decidable equality, an answer anything at all.

`Takes P c Q` says that `c`, started with `P`, ends with `Q` of its result, whatever the environment
answers, and gives nothing back that is not held. What is held besides `P` stays as it is, so the
rules compose.

`serve` opens and closes things in any order.

## What is proved

- `Takes.bind`, `Takes.frame`: the rule for sequences, with what the second half does not need.
- `takes_acquire`, `takes_release`: the two steps that change what is held.
- `takes_serve`: things that come and go in any order.
- `Takes.run`: what the judgement says of a whole run.
-/

namespace WorkflowKernel.Holding

universe u

/-- `answers` is asked one place after the other. -/
structure World (A R : Type) where
  held : Multiset R
  answers : Nat → Option A
  asked : Nat
  wrong : Nat

/-- A program with the environment's answers in `A` and resources in `R`. -/
abbrev Prog (A R α : Type) := StateM (World A R) α

variable {A R α β : Type}

/-- A call that may fail. -/
def ask : Prog A R (Option A) := fun w => (w.answers w.asked, { w with asked := w.asked + 1 })

/-- A call that takes resources if it does not fail. -/
def acquire (taken : A → Multiset R) : Prog A R (Option A) := fun w =>
  match w.answers w.asked with
  | some a => (some a, { w with asked := w.asked + 1, held := taken a + w.held })
  | none => (none, { w with asked := w.asked + 1 })

/-- Something is taken that nobody refuses. -/
def take (r : R) : Prog A R Unit := fun w => ((), { w with held := r ::ₘ w.held })

/-- A resource is given back. -/
def release [DecidableEq R] (r : R) : Prog A R Unit := fun w =>
  if r ∈ w.held then ((), { w with held := w.held.erase r })
  else ((), { w with wrong := w.wrong + 1 })

/-- What comes with a result that may not be there. -/
def gained (T : α → Multiset R) : Option α → Multiset R
  | none => 0
  | some a => T a

@[simp] theorem gained_none (T : α → Multiset R) : gained T none = 0 := rfl

@[simp] theorem gained_some (T : α → Multiset R) (a : α) : gained T (some a) = T a := rfl

/-- What comes with each of the list. -/
def total (T : α → Multiset R) (xs : List α) : Multiset R := (xs.map T).sum

@[simp] theorem total_nil (T : α → Multiset R) : total T [] = 0 := rfl

@[simp] theorem total_cons (T : α → Multiset R) (x : α) (xs : List α) :
    total T (x :: xs) = T x + total T xs := List.sum_cons

/-- Started with `P`, the program ends with `Q` and gives nothing back that is not held. -/
def Takes (P : Multiset R) (c : Prog A R α) (Q : α → Multiset R) : Prop :=
  ∀ (w : World A R) (F : Multiset R), w.held = P + F →
    (c w).2.held = Q (c w).1 + F ∧ (c w).2.wrong = w.wrong

section Rules

variable {P P' F : Multiset R} {c : Prog A R α} {Q : α → Multiset R} {f : α → Prog A R β}
  {T : β → Multiset R}

/-- A value holds what it is said to. -/
theorem Takes.pure (a : α) (h : P = Q a) : Takes P (pure a : Prog A R α) Q := by
  intro w F hw
  rw [h] at hw
  exact ⟨hw, rfl⟩

/-- What a program does not touch stays with it. -/
theorem Takes.frame (h : Takes P c Q) (F : Multiset R) : Takes (P + F) c fun a => Q a + F := by
  intro w F' hw
  rw [add_assoc] at hw
  rw [add_assoc]
  exact h w (F + F') hw

theorem Takes.of_eq (h : Takes P c Q) (heq : P' = P) : Takes P' c Q := heq ▸ h

/-- A sequence. -/
theorem Takes.bind (hc : Takes P c Q) (hf : ∀ a, Takes (Q a) (f a) T) : Takes P (c >>= f) T := by
  intro w F hw
  obtain ⟨hheld, hwrong⟩ := hc w F hw
  obtain ⟨hheld', hwrong'⟩ := hf (c w).1 (c w).2 F hheld
  exact ⟨hheld', hwrong'.trans hwrong⟩

/-- A sequence whose first half does not need `F`. -/
theorem Takes.bind_frame (hc : Takes P c Q) (heq : P' = P + F)
    (hf : ∀ a, Takes (Q a + F) (f a) T) : Takes P' (c >>= f) T :=
  ((hc.frame F).of_eq heq).bind hf

/-- A call that acquires nothing, -/
theorem takes_ask : Takes 0 (ask : Prog A R (Option A)) fun _ => 0 :=
  fun _ _ hw => ⟨hw, rfl⟩

/-- one that acquires something if it succeeds, -/
theorem takes_acquire (taken : A → Multiset R) : Takes 0 (acquire taken) (gained taken) := by
  intro w F hw
  rw [zero_add] at hw
  cases hanswer : w.answers w.asked with
  | none =>
    rw [acquire, hanswer]
    exact ⟨hw.trans (zero_add F).symm, rfl⟩
  | some a =>
    rw [acquire, hanswer]
    exact ⟨congrArg (taken a + ·) hw, rfl⟩

/-- one that cannot fail, -/
theorem takes_take (r : R) : Takes 0 (take r : Prog A R Unit) fun _ => {r} := by
  intro w F hw
  rw [zero_add] at hw
  refine ⟨?_, rfl⟩
  show r ::ₘ w.held = {r} + F
  rw [hw, Multiset.singleton_add]

/-- and one that gives back. -/
theorem takes_release [DecidableEq R] (r : R) :
    Takes {r} (release r : Prog A R Unit) fun _ => 0 := by
  intro w F hw
  have hmem : r ∈ w.held := by
    rw [hw]
    exact Multiset.mem_add.mpr (.inl (Multiset.mem_singleton_self r))
  rw [release, if_pos hmem]
  refine ⟨?_, rfl⟩
  show w.held.erase r = 0 + F
  rw [hw, Multiset.singleton_add, Multiset.erase_cons_head, zero_add]

/-- A whole run. -/
theorem Takes.run (h : Takes 0 c Q) (w : World A R) :
    (c w).2.held = Q (c w).1 + w.held ∧ (c w).2.wrong = w.wrong :=
  h w w.held (zero_add _).symm

end Rules

/-! ## Things that come and go -/

variable {γ : Type}

/-- `make` a thing, or end the one at the place. -/
inductive Op (K : Type)
  | make (k : K)
  | drop (i : Nat)
  deriving DecidableEq, Repr

/-- A run over the things there are. -/
def serve (make : β → Prog A R (Option γ)) (undo : γ → Prog A R Unit) :
    List (Op β) → List γ → Prog A R (List γ)
  | [], live => return live
  | .make k :: ops, live => do
    match ← make k with
    | none => serve make undo ops live
    | some y => serve make undo ops (y :: live)
  | .drop i :: ops, live => do
    match live[i]? with
    | none => serve make undo ops live
    | some y => do
      undo y
      serve make undo ops (live.eraseIdx i)

/-- One of the list goes with what came with it. -/
theorem total_eraseIdx (T : γ → Multiset R) {live : List γ} {i : Nat} {y : γ}
    (h : live[i]? = some y) : total T live = T y + total T (live.eraseIdx i) := by
  obtain ⟨hi, rfl⟩ := List.getElem?_eq_some_iff.mp h
  rw [← total_cons]
  exact ((List.getElem_cons_eraseIdx_perm hi).map T).symm.sum_eq

/-- In every order, what is held is what the things there are have taken. -/
theorem takes_serve {make : β → Prog A R (Option γ)} {undo : γ → Prog A R Unit}
    {T : γ → Multiset R} (hmake : ∀ x, Takes 0 (make x) (gained T))
    (hundo : ∀ y, Takes (T y) (undo y) fun _ => 0) (ops : List (Op β)) :
    ∀ live, Takes (total T live) (serve make undo ops live) (total T) := by
  induction ops with
  | nil => exact fun live => .pure _ rfl
  | cons op ops ih =>
    intro live
    cases op with
    | make k =>
      refine (hmake k).bind_frame (zero_add _).symm fun o => ?_
      cases o with
      | none => exact (ih live).of_eq (zero_add _)
      | some y => exact (ih (y :: live)).of_eq (total_cons T y live).symm
    | drop i =>
      simp only [serve]
      cases hi : live[i]? with
      | none => exact ih live
      | some y =>
        exact (hundo y).bind_frame (total_eraseIdx T hi) fun _ =>
          (ih (live.eraseIdx i)).of_eq (zero_add _)

end WorkflowKernel.Holding
