import Mathlib.Logic.Function.Basic

/-!
# list.h

A `struct list` is a cell of an arbitrary type `ι`, and `Links` is what the cells' two pointers
hold. The functions write the pointers in the order of the source, so that a cell used twice, or an
entry that is already linked, has the effect it has there.

`list_add_tail` on a list that is not empty is not the usual one: it takes `head->prev->next` for the
entry's `prev` and leaves `head->prev`. What is proved here is about the lists it never spoils:
`Holds` says that a list holds one given entry or nothing, and each primitive has its lemma.
-/

namespace WorkflowKernel.ListHead

/-- The `next` and `prev` of every cell. -/
structure Links (ι : Type*) where
  next : ι → ι
  prev : ι → ι

variable {ι : Type*} [DecidableEq ι]

def listInit (l : Links ι) (head : ι) : Links ι :=
  { next := Function.update l.next head head, prev := Function.update l.prev head head }

def listEmpty (l : Links ι) (head : ι) : Bool := l.next head = head

def listAddTail (l : Links ι) (head entry : ι) : Links ι :=
  if listEmpty l head then
    { next := Function.update (Function.update l.next head entry) entry head
      prev := Function.update (Function.update l.prev head entry) entry head }
  else
    -- `entry->prev = head->prev->next`, `entry->next = head`, `head->prev->next = entry`
    let prev := Function.update l.prev entry (l.next (l.prev head))
    let next := Function.update l.next entry head
    { next := Function.update next (prev head) entry, prev := prev }

def listAddList (l : Links ι) (head entry : ι) : Links ι :=
  let tmp := l.prev head
  { next := Function.update (Function.update l.next tmp entry) entry head
    prev := Function.update l.prev entry tmp }

def listAddFront (l : Links ι) (head entry : ι) : Links ι :=
  if listEmpty l head then
    { next := Function.update (Function.update l.next head entry) entry head
      prev := Function.update (Function.update l.prev head entry) entry head }
  else
    -- `entry->prev = head`, `entry->next = head->next`, `head->next = entry`
    { next := Function.update (Function.update l.next entry (l.next head)) head entry
      prev := Function.update l.prev entry head }

def listDelete (l : Links ι) (entry : ι) : Links ι :=
  let next := Function.update l.next (l.prev entry) (l.next entry)
  { next := next, prev := Function.update l.prev (next entry) (l.prev entry) }

/-! ## Whole lists -/

/-- Following `f` from `a` visits the listed cells and comes to `b`. -/
def Path (f : ι → ι) : ι → List ι → ι → Prop
  | a, [], b => f a = b
  | a, x :: xs, b => f a = x ∧ Path f x xs b

/-- The list from `head` holds exactly these entries, in both directions. -/
def Ring (l : Links ι) (head : ι) (xs : List ι) : Prop :=
  Path l.next head xs head ∧ Path l.prev head xs.reverse head

omit [DecidableEq ι] in
theorem Path.congr {f g : ι → ι} : ∀ {a b : ι} {xs : List ι}, Path f a xs b → g a = f a →
    (∀ x ∈ xs, g x = f x) → Path g a xs b
  | _, _, [], h, ha, _ => ha.trans h
  | _, _, x :: _, h, ha, hxs =>
    ⟨ha.trans h.1, h.2.congr (hxs x List.mem_cons_self) fun y hy =>
      hxs y (List.mem_cons_of_mem _ hy)⟩

omit [DecidableEq ι] in
/-- A list lies in its own cells. -/
theorem Ring.congr {l m : Links ι} {head : ι} {xs : List ι} (h : Ring l head xs)
    (hhead : m.next head = l.next head ∧ m.prev head = l.prev head)
    (hxs : ∀ x ∈ xs, m.next x = l.next x ∧ m.prev x = l.prev x) : Ring m head xs :=
  ⟨h.1.congr hhead.1 fun x hx => (hxs x hx).1,
    h.2.congr hhead.2 fun x hx => (hxs x (List.mem_reverse.mp hx)).2⟩

/-! ## Lists of at most one entry -/

/-- The list from `head` holds the entry `x`, or nothing. -/
def Holds (l : Links ι) (head : ι) : Option ι → Prop
  | none => l.next head = head ∧ l.prev head = head
  | some x => l.next head = x ∧ l.prev head = x ∧ l.next x = head ∧ l.prev x = head ∧ x ≠ head

variable {l : Links ι} {head x : ι} {o : Option ι}

theorem listInit_holds (l : Links ι) (head : ι) : Holds (listInit l head) head none :=
  ⟨Function.update_self .., Function.update_self ..⟩

theorem listInit_other (hne : x ≠ head) : (listInit l head).next x = l.next x ∧
    (listInit l head).prev x = l.prev x :=
  ⟨Function.update_of_ne hne .., Function.update_of_ne hne ..⟩

/-- `list_empty` answers right. -/
theorem Holds.empty_iff (h : Holds l head o) : listEmpty l head = true ↔ o = none := by
  cases o with
  | none => simpa [listEmpty] using h.1
  | some x =>
    obtain ⟨hnext, -, -, -, hne⟩ := h
    simp [listEmpty, hnext, hne]

/-- An entry added to an empty list is the only one. -/
theorem Holds.addTail (h : Holds l head none) (hne : x ≠ head) :
    Holds (listAddTail l head x) head (some x) := by
  have hempty : listEmpty l head = true := h.empty_iff.mpr rfl
  unfold listAddTail
  rw [if_pos hempty]
  simp only [Holds, Function.update_self, Function.update_of_ne hne.symm, true_and]
  exact hne

/-- Taking out the only entry leaves the list empty. -/
theorem Holds.delete (h : Holds l head (some x)) : Holds (listDelete l x) head none := by
  obtain ⟨-, -, hnext, hprev, hne⟩ := h
  have hx : Function.update l.next head head x = head := by
    rw [Function.update_of_ne hne, hnext]
  unfold listDelete
  simp only [Holds, hnext, hprev, hx, Function.update_self, and_self]

end WorkflowKernel.ListHead
