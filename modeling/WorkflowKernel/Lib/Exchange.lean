import Mathlib.Algebra.BigOperators.Group.List.Basic
import Mathlib.Algebra.Order.BigOperators.Group.List
import Mathlib.Algebra.Order.Ring.Nat

/-!
# Holdings and exchanges

What a component still has to deal with is a list of items whose order does not matter. A step takes
some of them and leaves others, and an invariant that counts items is about `total`, the sum of a
weight over the list: a step changes it by what it takes and leaves.

## What is proved

- `le_total`, `total_eq_zero`: the items that have a part in the total.
- `Exchanged.same`: one item for another of the same weight.
- `Exchanged.trans`: one exchange after another.
-/

namespace WorkflowKernel.Lib.Exchange

variable {A : Type*} {w : A → Nat} {a b : A} {xs ys zs old new : List A}

/-- The sum of a weight over the items. -/
def total (w : A → Nat) (xs : List A) : Nat := (xs.map w).sum

@[simp] theorem total_nil : total w [] = 0 := rfl

@[simp] theorem total_cons : total w (a :: xs) = w a + total w xs := List.sum_cons

@[simp] theorem total_append : total w (xs ++ ys) = total w xs + total w ys := by
  simp [total]

/-- An item has a part in the total. -/
theorem le_total (h : a ∈ xs) : w a ≤ total w xs :=
  List.single_le_sum (by simp) _ (List.mem_map_of_mem h)

/-- Items without a part in the total do not add up. -/
theorem total_eq_zero (h : ∀ a ∈ xs, w a = 0) : total w xs = 0 := by
  induction xs with
  | nil => rfl
  | cons a xs ih =>
    rw [total_cons, h a List.mem_cons_self, ih fun b hb => h b (List.mem_cons_of_mem _ hb)]

theorem total_congr {v : A → Nat} (h : ∀ a ∈ xs, w a = v a) : total w xs = total v xs :=
  congrArg List.sum (List.map_congr_left h)

theorem total_le_total {v : A → Nat} (h : ∀ a, w a ≤ v a) (xs : List A) :
    total w xs ≤ total v xs := by
  induction xs with
  | nil => simp
  | cons a xs ih =>
    have ha := h a
    simp only [total_cons]
    omega

/-! ## Exchanges -/

/-- The items `ys` are the items `xs` with `new` in the place of `old`. -/
def Exchanged (xs ys old new : List A) : Prop :=
  ∀ w : A → Nat, total w ys + total w old = total w xs + total w new

/-- One item for another of the same weight. -/
theorem Exchanged.same (h : Exchanged xs ys [a] [b]) (hw : w b = w a) :
    total w ys = total w xs := by
  have htotal := h w
  simp only [total_cons, total_nil] at htotal
  omega

/-- One exchange after another. -/
theorem Exchanged.trans {old' new' : List A} (h : Exchanged xs ys old new)
    (h' : Exchanged ys zs old' new') : Exchanged xs zs (old ++ old') (new ++ new') := by
  intro w
  have hw := h w
  have hw' := h' w
  simp only [total_append]
  omega

end WorkflowKernel.Lib.Exchange
