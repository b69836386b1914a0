import Mathlib.Data.List.Basic
import Mathlib.Logic.Function.Basic

/-!
# Singly linked chains in a memory of cells

A memory maps a cell to the element its pointer leads to, `none` being the null pointer, and
`link x` is the cell inside the element `x` that holds the pointer to the element after it.
`Chain link mem a xs` says that walking from the cell `a` visits exactly `xs` and ends at a null
pointer, and `endCell link a xs` is the cell that holds that null pointer.

The three edits of a queue are one lemma each: `Chain.push_back` stores in the end cell,
`Chain.push_front` stores in the first cell, and `Chain.pop` copies the first element's link into
the first cell. Everything else is `Chain.congr`: a chain reads only its own cells.
-/

namespace WorkflowKernel.Lib

variable {ι α : Type*}

section Chain

variable (link : α → ι)

/-- Walking from the cell `a` visits exactly the listed elements. -/
def Chain (mem : ι → Option α) : ι → List α → Prop
  | a, [] => mem a = none
  | a, x :: xs => mem a = some x ∧ Chain mem (link x) xs

/-- The cell that holds the null pointer of the chain `xs` from `a`. -/
def endCell : ι → List α → ι
  | a, [] => a
  | _, x :: xs => endCell (link x) xs

end Chain

variable {link : α → ι} {mem mem' : ι → Option α} {a : ι} {x : α} {xs ys : List α}

theorem Chain.head? : ∀ {a : ι} {xs : List α}, Chain link mem a xs → mem a = xs.head?
  | _, [], h => h
  | _, _ :: _, h => h.1

theorem Chain.eq_nil (h : Chain link mem a xs) (hnull : mem a = none) : xs = [] :=
  List.head?_eq_none_iff.mp (h.head?.symm.trans hnull)

theorem Chain.ne_nil (h : Chain link mem a xs) (hsome : mem a = some x) : xs ≠ [] := by
  rintro rfl
  exact absurd (h.head?.symm.trans hsome) (by simp)

/-- A memory holds one chain from a cell. -/
theorem Chain.unique : ∀ {a : ι} {xs ys : List α},
    Chain link mem a xs → Chain link mem a ys → xs = ys
  | _, [], _, hx, hy => (hy.eq_nil hx).symm
  | _, _ :: _, [], hx, hy => absurd (hx.1.symm.trans hy) (by simp)
  | _, x :: _, y :: _, hx, hy => by
    have hhead : x = y := Option.some.inj (hx.1.symm.trans hy.1)
    subst hhead
    rw [hx.2.unique hy.2]

/-- The end cell is the first cell or the link of a listed element. -/
theorem endCell_mem (link : α → ι) : ∀ (a : ι) (xs : List α), endCell link a xs = a ∨
    ∃ x ∈ xs, endCell link a xs = link x
  | _, [] => .inl rfl
  | _, x :: xs => by
    rcases endCell_mem link (link x) xs with h | ⟨y, hy, h⟩
    · exact .inr ⟨x, List.mem_cons_self, h⟩
    · exact .inr ⟨y, List.mem_cons_of_mem _ hy, h⟩

/-- The end cell after an append is the new element's link. -/
theorem endCell_append : ∀ (a : ι) (xs : List α), endCell link a (xs ++ [x]) = link x
  | _, [] => rfl
  | _, y :: ys => endCell_append (link y) ys

/-- A chain reads its first cell and the links of its elements. -/
theorem Chain.congr : ∀ {a : ι} {xs : List α}, Chain link mem a xs → mem' a = mem a →
    (∀ x ∈ xs, mem' (link x) = mem (link x)) → Chain link mem' a xs
  | _, [], h, ha, _ => ha.trans h
  | _, x :: _, h, ha, hx =>
    ⟨ha.trans h.1, h.2.congr (hx x List.mem_cons_self)
      fun y hy => hx y (List.mem_cons_of_mem _ hy)⟩

section Edits

variable [DecidableEq ι]

/-- Storing outside a chain's cells leaves it. -/
theorem Chain.frame {c : ι} {v : Option α} (h : Chain link mem a xs) (ha : a ≠ c)
    (hx : ∀ x ∈ xs, link x ≠ c) : Chain link (Function.update mem c v) a xs :=
  h.congr (Function.update_of_ne ha ..) fun x hmem => Function.update_of_ne (hx x hmem) ..

/-- Storing an element with a null link in the end cell appends it. -/
theorem Chain.push_back (inj : Function.Injective link) :
    ∀ {a : ι} {xs : List α}, Chain link mem a xs → mem (link x) = none → x ∉ xs → xs.Nodup →
      (∀ y, y ∈ x :: xs → a ≠ link y) →
      Chain link (Function.update mem (endCell link a xs) (some x)) a (xs ++ [x])
  | a, [], _, hnull, _, _, hne => by
    refine ⟨Function.update_self .., ?_⟩
    exact (Function.update_of_ne (hne x List.mem_cons_self).symm ..).trans hnull
  | a, y :: ys, h, hnull, hx, hnd, hne => by
    obtain ⟨hy, hys⟩ := List.nodup_cons.mp hnd
    have hxy : x ≠ y := fun e => hx (e ▸ List.mem_cons_self)
    have htail := h.2.push_back inj hnull (fun hm => hx (List.mem_cons_of_mem _ hm)) hys
      fun z hz he => by
        rcases List.mem_cons.mp hz with rfl | hz
        · exact hxy (inj he).symm
        · exact hy (inj he ▸ hz)
    refine ⟨?_, htail⟩
    -- the end cell lies behind the first one, so the first pointer is not the one stored to
    have hend : endCell link (link y) ys ≠ a := by
      rcases endCell_mem link (link y) ys with he | ⟨z, hz, he⟩
      · exact fun e => hne y (by simp) (e.symm.trans he)
      · exact fun e => hne z (by simp [hz]) (e.symm.trans he)
    exact (Function.update_of_ne hend.symm ..).trans h.1

/-- Storing an element in the first cell, its link holding what the cell held, prepends it. -/
theorem Chain.push_front (h : Chain link mem a xs) (hlink : mem (link x) = xs.head?)
    (hax : link x ≠ a) (hxs : ∀ y ∈ xs, link y ≠ a) :
    Chain link (Function.update mem a (some x)) a (x :: xs) := by
  refine ⟨Function.update_self .., ?_⟩
  cases xs with
  | nil => exact (Function.update_of_ne hax ..).trans hlink
  | cons y ys =>
    refine ⟨(Function.update_of_ne hax ..).trans hlink, h.2.frame (hxs y List.mem_cons_self) ?_⟩
    exact fun z hz => hxs z (List.mem_cons_of_mem _ hz)

/-- Copying the first element's link into the first cell takes that element off. -/
theorem Chain.pop (h : Chain link mem a (x :: xs)) (hxs : ∀ y ∈ xs, link y ≠ a) :
    Chain link (Function.update mem a xs.head?) a xs := by
  cases xs with
  | nil => exact Function.update_self ..
  | cons y ys =>
    refine ⟨Function.update_self .., h.2.2.frame (hxs y List.mem_cons_self) ?_⟩
    exact fun z hz => hxs z (List.mem_cons_of_mem _ hz)

end Edits

end WorkflowKernel.Lib
