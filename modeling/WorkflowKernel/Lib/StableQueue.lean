import Mathlib.Data.List.Nodup
import Mathlib.Data.List.Perm.Basic
import Mathlib.Data.List.Pairwise
import Mathlib.Logic.Function.Basic
import Mathlib.Order.Lattice.Nat

/-!
# Priority queues that keep equal keys in order

What such a queue is for: elements come with a key, any of them may be taken out, and the first one
is the oldest of those with the least key. `Ordered` is the sequence that an implementation keeps.

## What is proved

- `Ordered.insert`, `Ordered.erase`: what an implementation does to its sequence.
- `Ordered.first`: the head of the sequence is the first one.
-/

namespace WorkflowKernel.Lib

/-- The elements, the oldest first, and their keys. -/
structure Queue (α κ : Type) where
  live : List α
  key : α → κ

namespace Queue

variable {α κ : Type} [DecidableEq α]

def insert (q : Queue α κ) (a : α) (k : κ) : Queue α κ :=
  { live := q.live ++ [a], key := Function.update q.key a k }

def erase (q : Queue α κ) (a : α) : Queue α κ := { q with live := q.live.erase a }

variable [LinearOrder κ]

/-- The oldest of those with the least key. -/
def first (q : Queue α κ) : Option α := q.live.find? fun a => q.live.all fun b => q.key a ≤ q.key b

/-- Without the first one. -/
def pop (q : Queue α κ) : Queue α κ :=
  match q.first with
  | some a => q.erase a
  | none => q

/-- By the keys, and by age where these are equal. -/
def Precedes (q : Queue α κ) (a b : α) : Prop :=
  q.key a < q.key b ∨ q.key a = q.key b ∧ [a, b].Sublist q.live

/-- The sequence of the queue. -/
structure Ordered (q : Queue α κ) (xs : List α) : Prop where
  perm : xs.Perm q.live
  sorted : xs.Pairwise q.Precedes

variable {q : Queue α κ} {xs ys : List α} {a b : α} {k : κ}

omit [DecidableEq α] in
theorem Precedes.le (h : q.Precedes a b) : q.key a ≤ q.key b := by
  rcases h with hlt | ⟨heq, -⟩
  · exact le_of_lt hlt
  · exact le_of_eq heq

/-- A new element stands behind those whose key is not greater. -/
theorem Ordered.insert (h : q.Ordered (xs ++ ys)) (ha : a ∉ q.live)
    (hxs : ∀ b ∈ xs, q.key b ≤ k) (hys : ∀ b ∈ ys, k < q.key b) :
    (q.insert a k).Ordered (xs ++ a :: ys) := by
  have hold : ∀ b ∈ xs ++ ys, (q.insert a k).key b = q.key b := by
    intro b hb
    refine Function.update_of_ne ?_ ..
    rintro rfl
    exact ha (h.perm.mem_iff.mp hb)
  have hnew : (q.insert a k).key a = k := Function.update_self ..
  have hpairs : (xs ++ ys).Pairwise (q.insert a k).Precedes := by
    refine List.Pairwise.imp_of_mem ?_ h.sorted
    intro b c hb hc hbc
    rw [Precedes, hold b hb, hold c hc]
    exact hbc.imp_right fun hage => ⟨hage.1, hage.2.trans (List.sublist_append_left _ _)⟩
  obtain ⟨hpx, hpy, hcross⟩ := List.pairwise_append.mp hpairs
  constructor
  · exact List.perm_middle.trans ((h.perm.cons a).trans (List.perm_append_singleton a _).symm)
  · refine List.pairwise_append.mpr ⟨hpx, List.pairwise_cons.mpr ⟨fun b hb => ?_, hpy⟩, ?_⟩
    · rw [Precedes, hnew, hold b (List.mem_append_right _ hb)]
      exact .inl (hys b hb)
    · intro b hb c hc
      rcases List.mem_cons.mp hc with rfl | hc
      · rw [Precedes, hnew, hold b (List.mem_append_left _ hb)]
        rcases lt_or_eq_of_le (hxs b hb) with hlt | heq
        · exact .inl hlt
        · have hlive : b ∈ q.live := h.perm.mem_iff.mp (List.mem_append_left _ hb)
          exact .inr ⟨heq, (List.singleton_sublist.mpr hlive).append (List.Sublist.refl [c])⟩
      · exact hcross b hb c hc

theorem Ordered.erase (h : q.Ordered (xs ++ a :: ys)) (hnodup : (xs ++ a :: ys).Nodup) :
    (q.erase a).Ordered (xs ++ ys) := by
  have hnodup' := List.perm_middle.nodup_iff.mp hnodup
  have hne : ∀ b ∈ xs ++ ys, b ≠ a := fun b hb heq => (List.nodup_cons.mp hnodup').1 (heq ▸ hb)
  constructor
  · have hperm := (List.perm_middle.symm.trans h.perm).erase a
    rw [List.erase_cons_head] at hperm
    exact hperm
  · have hsub : (xs ++ ys).Sublist (xs ++ a :: ys) :=
      (List.Sublist.refl xs).append (List.sublist_cons_self a ys)
    refine List.Pairwise.imp_of_mem ?_ (h.sorted.sublist hsub)
    intro b c hb hc hbc
    refine hbc.imp_right fun hage => ⟨hage.1, ?_⟩
    have herase := hage.2.erase a
    rw [List.erase_of_not_mem] at herase
    · exact herase
    · simp [(hne b hb).symm, (hne c hc).symm]

omit [DecidableEq α] in
/-- Of two elements with one key the older one stands further in front. -/
theorem not_sublist {front back : List α} (hnodup : (front ++ a :: back).Nodup) (hb : b ∈ front) :
    ¬[a, b].Sublist (front ++ a :: back) := by
  intro hsub
  obtain ⟨-, hback, hdisj⟩ := List.nodup_append.mp hnodup
  obtain ⟨l₁, l₂, hl, hfront, hrest⟩ := List.sublist_append_iff.mp hsub
  cases l₁ with
  | nil =>
    rw [List.nil_append] at hl
    rw [← hl] at hrest
    have hmem : b ∈ back := List.singleton_sublist.mp (List.cons_sublist_cons.mp hrest)
    exact hdisj b hb b (List.mem_cons_of_mem a hmem) rfl
  | cons c l₁ =>
    obtain ⟨rfl, -⟩ := List.cons.inj hl
    exact hdisj a (hfront.subset List.mem_cons_self) a List.mem_cons_self rfl

/-- The sequence starts with the first one. -/
theorem Ordered.first (h : q.Ordered xs) (hnodup : q.live.Nodup) : q.first = xs.head? := by
  cases xs with
  | nil =>
    have hnil : q.live = [] := h.perm.symm.eq_nil
    rw [Queue.first, hnil]
    rfl
  | cons a xs =>
    obtain ⟨hhead, -⟩ := List.pairwise_cons.mp h.sorted
    have hlive : a ∈ q.live := h.perm.mem_iff.mp List.mem_cons_self
    have hleast : ∀ b ∈ q.live, b ≠ a → q.Precedes a b := by
      intro b hb hne
      rcases List.mem_cons.mp (h.perm.mem_iff.mpr hb) with heq | hb
      · exact absurd heq hne
      · exact hhead b hb
    obtain ⟨front, back, hsplit⟩ := List.append_of_mem hlive
    refine List.find?_eq_some_iff_append.mpr ⟨?_, front, back, hsplit, fun b hb => ?_⟩
    · rw [List.all_eq_true]
      intro b hb
      by_cases heq : b = a
      · rw [heq]
        exact decide_eq_true (le_refl _)
      · exact decide_eq_true (hleast b hb heq).le
    · rw [Bool.not_eq_true']
      by_contra hall
      rw [Bool.not_eq_false, List.all_eq_true] at hall
      have hle : q.key b ≤ q.key a := of_decide_eq_true (hall a hlive)
      rw [hsplit] at hnodup
      have hne : b ≠ a := fun heq =>
        (List.nodup_append.mp hnodup).2.2 b hb a List.mem_cons_self heq
      have hblive : b ∈ q.live := by
        rw [hsplit]
        exact List.mem_append_left _ hb
      rcases hleast b hblive hne with hlt | ⟨-, hage⟩
      · exact absurd hle (not_le_of_gt hlt)
      · rw [hsplit] at hage
        exact not_sublist hnodup hb hage

end Queue

end WorkflowKernel.Lib
