import Mathlib.Data.List.Nodup
import WorkflowKernel.ListHead

/-!
# The sequence that a list holds

A list should hold the sequence that its calls make: added at the tail or at the front, and deleted.
`list_delete` keeps that of any list. Neither of the two that add does when the list holds an entry:
`list_add_tail` leaves `head->prev`, and `list_add_front` leaves the `prev` of the old first entry.

## What is proved

- `Ring.delete`: `list_delete` takes an entry out of any list.
- `Represents.addTail_iff`, `Represents.addFront_iff`: an entry is added right to an empty list only.
- `represents_iff`: a list holds its sequence all along exactly if each entry is added to it while it
  is empty.
- `tail_lost`: of three entries added at the tail the second is lost.
-/

namespace WorkflowKernel.ListHead

variable {ι : Type*} {f g : ι → ι} {l m : Links ι} {head e a b y : ι} {xs ys : List ι}

/-! ## Paths -/

theorem Path.append : ∀ {a : ι} {xs : List ι}, Path f a (xs ++ y :: ys) b ↔
    Path f a xs y ∧ Path f y ys b
  | _, [] => Iff.rfl
  | _, x :: xs => by
    simp only [List.cons_append, Path, Path.append (a := x), and_assoc]

/-- The entry in front of the end. -/
theorem Path.last (h : Path f a (xs ++ [y]) b) : f y = b := (Path.append.mp h).2

theorem Path.first (h : Path f a xs b) : f a = xs.head?.getD b := by
  cases xs with
  | nil => exact h
  | cons x xs => exact h.1

theorem getLast?_getD_mem (a : ι) (xs : List ι) : xs.getLast?.getD a ∈ a :: xs := by
  cases hlast : xs.getLast? with
  | none => exact List.mem_cons_self
  | some x => exact List.mem_cons_of_mem _ (List.mem_of_getLast? hlast)

/-- From the first entry back is where it came from. -/
theorem Path.back (h : Path f a xs b) (h' : Path g b xs.reverse a) : g (f a) = a := by
  cases xs with
  | nil =>
    rw [h]
    exact h'
  | cons x xs =>
    rw [h.1]
    rw [List.reverse_cons] at h'
    exact h'.last

theorem Path.back_of_mem (h : Path f a xs b) (h' : Path g b xs.reverse a) (he : e ∈ a :: xs) :
    g (f e) = e := by
  rcases List.mem_cons.mp he with rfl | he
  · exact h.back h'
  · obtain ⟨as, bs, rfl⟩ := List.append_of_mem he
    rw [List.reverse_append, List.reverse_cons, List.append_assoc] at h'
    exact (Path.append.mp h).2.back (Path.append.mp h').1

section Skip

variable [DecidableEq ι]

/-- A path takes a shortcut around `e`. -/
theorem Path.skip : ∀ {a : ι} {xs : List ι}, Path f a (xs ++ e :: ys) b →
    (a :: (xs ++ e :: ys)).Nodup →
    Path (Function.update f (xs.getLast?.getD a) (f e)) a (xs ++ ys) b
  | a, [], ⟨_, h⟩, hnodup => by
    have hnot : ∀ x ∈ ys, x ≠ a := by
      rintro x hx rfl
      exact (List.nodup_cons.mp hnodup).1 (List.mem_cons_of_mem _ hx)
    rw [List.getLast?_nil, Option.getD_none, List.nil_append]
    cases ys with
    | nil =>
      rw [Path, Function.update_self]
      exact h
    | cons y ys =>
      refine ⟨(Function.update_self ..).trans h.1, h.2.congr ?_ fun x hx => ?_⟩
      · exact Function.update_of_ne (hnot y List.mem_cons_self) ..
      · exact Function.update_of_ne (hnot x (List.mem_cons_of_mem _ hx)) ..
  | a, x :: xs, ⟨hx, h⟩, hnodup => by
    obtain ⟨hnot, hnodup⟩ := List.nodup_cons.mp hnodup
    have hlast : a ≠ xs.getLast?.getD x := by
      intro heq
      have hmem : xs.getLast?.getD x ∈ x :: xs ++ e :: ys :=
        List.mem_append_left _ (getLast?_getD_mem x xs)
      rw [← heq] at hmem
      exact hnot hmem
    rw [List.getLast?_cons, Option.getD_some]
    exact ⟨(Function.update_of_ne hlast ..).trans hx, Path.skip h hnodup⟩

end Skip

/-! ## Rings -/

theorem Ring.split (h : Ring l head (xs ++ e :: ys)) :
    l.next e = ys.head?.getD head ∧ l.prev e = xs.getLast?.getD head := by
  obtain ⟨hnext, hprev⟩ := h
  rw [List.reverse_append, List.reverse_cons, List.append_assoc, List.singleton_append] at hprev
  have hfirst := (Path.append.mp hprev).2.first
  rw [List.head?_reverse] at hfirst
  exact ⟨(Path.append.mp hnext).2.first, hfirst⟩

/-- What is one way round a ring is behind the other way. -/
theorem Ring.neighbours (h : Ring l head xs) (he : e ∈ head :: xs) :
    l.prev (l.next e) = e ∧ l.next (l.prev e) = e := by
  have he' : e ∈ head :: xs.reverse := by
    rw [List.mem_cons, List.mem_reverse]
    exact List.mem_cons.mp he
  refine ⟨h.1.back_of_mem h.2 he, h.2.back_of_mem ?_ he'⟩
  rw [List.reverse_reverse]
  exact h.1

variable [DecidableEq ι]

/-- `list_delete` takes an entry out of any list. -/
theorem Ring.delete (h : Ring l head xs) (hnodup : (head :: xs).Nodup) (he : e ∈ xs) :
    Ring (listDelete l e) head (xs.erase e) := by
  obtain ⟨as, bs, -, rfl, herase⟩ := List.exists_erase_eq he
  rw [herase]
  obtain ⟨hnext, hprev⟩ := h.split
  have hne : e ≠ l.prev e := by
    rw [hprev]
    intro heq
    have hmem := getLast?_getD_mem head as
    rw [← heq] at hmem
    have hmiddle : (e :: (head :: as ++ bs)).Nodup := List.nodup_middle.mp hnodup
    exact (List.nodup_cons.mp hmiddle).1 (List.mem_append_left _ hmem)
  have hkept : Function.update l.next (l.prev e) (l.next e) e = l.next e :=
    Function.update_of_ne hne ..
  obtain ⟨hforth, hback⟩ := h
  constructor
  · have hskip := hforth.skip hnodup
    rw [← hprev] at hskip
    exact hskip
  · rw [List.reverse_append, List.reverse_cons, List.append_assoc, List.singleton_append] at hback
    have hnodup' : (head :: (bs.reverse ++ e :: as.reverse)).Nodup := by
      have hperm : (bs.reverse ++ e :: as.reverse).Perm (as ++ e :: bs) := by
        have hrev := List.reverse_perm (as ++ e :: bs)
        rwa [List.reverse_append, List.reverse_cons, List.append_assoc,
          List.singleton_append] at hrev
      exact (hperm.cons head).nodup_iff.mpr hnodup
    have hskip := hback.skip hnodup'
    rw [List.getLast?_reverse, ← hnext] at hskip
    rw [listDelete, List.reverse_append]
    simp only [hkept]
    exact hskip

/-! ## Sequences -/

/-- A list holds this sequence: its `next` visits it, its `prev` visits it backwards, and the
pointers of neighbours agree. -/
structure Represents (l : Links ι) (head : ι) (xs : List ι) : Prop where
  next : Path l.next head xs head
  prev : Path l.prev head xs.reverse head
  back : ∀ c ∈ head :: xs, l.prev (l.next c) = c
  forth : ∀ c ∈ head :: xs, l.next (l.prev c) = c

omit [DecidableEq ι] in
theorem represents_iff_ring : Represents l head xs ↔ Ring l head xs :=
  ⟨fun h => ⟨h.next, h.prev⟩, fun h => ⟨h.1, h.2, fun _ hc => (h.neighbours hc).1,
    fun _ hc => (h.neighbours hc).2⟩⟩

theorem listInit_represents (l : Links ι) (head : ι) : Represents (listInit l head) head [] :=
  represents_iff_ring.mpr ⟨Function.update_self .., Function.update_self ..⟩

omit [DecidableEq ι] in
theorem represents_singleton (h : Holds l head (some e)) : Represents l head [e] := by
  obtain ⟨hnext, hprev, hnexte, hpreve, -⟩ := h
  exact represents_iff_ring.mpr ⟨⟨hnext, hnexte⟩, ⟨hprev, hpreve⟩⟩

section Adding

variable (h : Represents l head xs) (hnot : head ∉ xs) (he : e ≠ head) (hmem : e ∉ xs)
include h hnot he hmem

omit he hmem in
theorem Represents.empty_iff : listEmpty l head = true ↔ xs = [] := by
  rw [listEmpty, decide_eq_true_iff]
  cases xs with
  | nil => exact ⟨fun _ => rfl, fun _ => h.next⟩
  | cons x xs =>
    rw [h.next.1]
    exact ⟨fun heq => absurd (heq ▸ List.mem_cons_self) hnot,
      fun hnil => absurd hnil (List.cons_ne_nil x xs)⟩

/-- `list_add_tail` leaves `head->prev` at the last entry of a list. -/
theorem Represents.addTail_iff : Represents (listAddTail l head e) head (xs ++ [e]) ↔ xs = [] := by
  constructor
  · intro hadd
    by_contra hne
    have hprev := hadd.prev
    rw [List.reverse_append, List.reverse_singleton, List.singleton_append] at hprev
    have hlast : (listAddTail l head e).prev head = l.prev head := by
      rw [listAddTail, if_neg ((h.empty_iff hnot).not.mpr hne)]
      exact Function.update_of_ne he.symm ..
    have hold := h.prev.first
    rw [← hlast, hprev.1, List.head?_reverse] at hold
    have hin := getLast?_getD_mem head xs
    rw [← hold] at hin
    exact (List.mem_cons.mp hin).elim he hmem
  · rintro rfl
    have hempty : Holds l head none := ⟨h.next, h.prev⟩
    exact represents_singleton (hempty.addTail he)

/-- `list_add_front` leaves the `prev` of the first entry of a list at `head`. -/
theorem Represents.addFront_iff : Represents (listAddFront l head e) head (e :: xs) ↔ xs = [] := by
  constructor
  · intro hadd
    by_contra hne
    obtain ⟨x, xs, rfl⟩ := List.exists_cons_of_ne_nil hne
    have hfirst : l.prev x = head := by
      have hprev := h.prev
      rw [List.reverse_cons] at hprev
      exact hprev.last
    have hnew : (listAddFront l head e).prev x = e := by
      have hprev := hadd.prev
      rw [List.reverse_cons, List.reverse_cons, List.append_assoc] at hprev
      exact (Path.append.mp hprev).2.1
    have hx : x ≠ e := fun heq => hmem (heq ▸ List.mem_cons_self)
    rw [listAddFront, if_neg ((h.empty_iff hnot).not.mpr hne)] at hnew
    simp only [Function.update_of_ne hx] at hnew
    exact he (hnew.symm.trans hfirst)
  · rintro rfl
    have hempty : listEmpty l head = true := (h.empty_iff hnot).mpr rfl
    have hfront : listAddFront l head e = listAddTail l head e := by
      rw [listAddFront, listAddTail, if_pos hempty, if_pos hempty]
    rw [hfront]
    have hholds : Holds l head none := ⟨h.next, h.prev⟩
    exact represents_singleton (hholds.addTail he)

end Adding

/-! ## Calls -/

/-- A call on one list. -/
inductive Call (ι : Type*)
  | addTail (entry : ι)
  | addFront (entry : ι)
  | delete (entry : ι)

/-- What the call writes. -/
def Call.links (head : ι) (l : Links ι) : Call ι → Links ι
  | .addTail e => listAddTail l head e
  | .addFront e => listAddFront l head e
  | .delete e => listDelete l e

/-- What the sequence is behind the call. -/
def Call.sequence (xs : List ι) : Call ι → List ι
  | .addTail e => xs ++ [e]
  | .addFront e => e :: xs
  | .delete e => xs.erase e

/-- An entry that is added is not linked, one that is deleted is. -/
def Call.allowed (head : ι) (xs : List ι) : Call ι → Bool
  | .addTail e => e ≠ head ∧ e ∉ xs
  | .addFront e => e ≠ head ∧ e ∉ xs
  | .delete e => e ∈ xs

/-- A call that adds finds the list empty. -/
def Call.fits (xs : List ι) : Call ι → Bool
  | .addTail _ => xs.isEmpty
  | .addFront _ => xs.isEmpty
  | .delete _ => true

/-- The links behind some calls. -/
def linksAfter (head : ι) (calls : List (Call ι)) (l : Links ι) : Links ι :=
  calls.foldl (fun l call => call.links head l) l

/-- The sequence behind some calls. -/
def sequenceAfter (calls : List (Call ι)) (xs : List ι) : List ι :=
  calls.foldl (fun xs call => call.sequence xs) xs

/-- Each call passes the check, at the sequence behind the calls before it. -/
def Passes (check : List ι → Call ι → Bool) : List ι → List (Call ι) → Bool
  | _, [] => true
  | xs, call :: calls => check xs call && Passes check (call.sequence xs) calls

section Calls

variable {call : Call ι} {calls : List (Call ι)}

theorem Call.allowed_nodup (hnodup : (head :: xs).Nodup) (hcall : call.allowed head xs = true) :
    (head :: call.sequence xs).Nodup := by
  rw [List.nodup_cons] at hnodup ⊢
  obtain ⟨hnot, hnodup⟩ := hnodup
  cases call with
  | addTail e =>
    obtain ⟨he, hmem⟩ := of_decide_eq_true hcall
    refine ⟨?_, List.nodup_append.mpr ⟨hnodup, List.nodup_singleton e, ?_⟩⟩
    · rw [Call.sequence, List.mem_append, List.mem_singleton]
      exact not_or.mpr ⟨hnot, he.symm⟩
    · intro x hx y hy heq
      rw [List.mem_singleton] at hy
      exact hmem (hy ▸ heq ▸ hx)
  | addFront e =>
    obtain ⟨he, hmem⟩ := of_decide_eq_true hcall
    rw [Call.sequence, List.mem_cons, List.nodup_cons]
    exact ⟨not_or.mpr ⟨he.symm, hnot⟩, hmem, hnodup⟩
  | delete e => exact ⟨fun hin => hnot (List.mem_of_mem_erase hin), hnodup.erase e⟩

/-- What a call does to a list that holds its sequence. -/
theorem Call.step_represents (h : Represents l head xs) (hnodup : (head :: xs).Nodup)
    (hcall : call.allowed head xs = true) :
    Represents (call.links head l) head (call.sequence xs) ↔ call.fits xs = true := by
  have hnot := (List.nodup_cons.mp hnodup).1
  cases call with
  | addTail e =>
    obtain ⟨he, hmem⟩ := of_decide_eq_true hcall
    rw [Call.fits, List.isEmpty_iff]
    exact h.addTail_iff hnot he hmem
  | addFront e =>
    obtain ⟨he, hmem⟩ := of_decide_eq_true hcall
    rw [Call.fits, List.isEmpty_iff]
    exact h.addFront_iff hnot he hmem
  | delete e =>
    have hring := (represents_iff_ring.mp h).delete hnodup (of_decide_eq_true hcall)
    exact ⟨fun _ => rfl, fun _ => represents_iff_ring.mpr hring⟩

theorem represents_after_iff (h : Represents l head xs) (hnodup : (head :: xs).Nodup)
    (hcalls : Passes (Call.allowed head) xs calls = true) :
    (∀ n, Represents (linksAfter head (calls.take n) l) head (sequenceAfter (calls.take n) xs)) ↔
      Passes Call.fits xs calls = true := by
  induction calls generalizing l xs with
  | nil => exact ⟨fun _ => rfl, fun _ n => by simpa [linksAfter, sequenceAfter] using h⟩
  | cons call calls ih =>
    rw [Passes, Bool.and_eq_true] at hcalls
    rw [Passes, Bool.and_eq_true]
    have hnodup' := Call.allowed_nodup hnodup hcalls.1
    have hiff := Call.step_represents h hnodup hcalls.1
    constructor
    · intro hall
      have hnext : Represents (call.links head l) head (call.sequence xs) := hall 1
      exact ⟨hiff.mp hnext, (ih hnext hnodup' hcalls.2).mp fun n => hall (n + 1)⟩
    · rintro ⟨hfits, hrest⟩ n
      cases n with
      | zero => exact h
      | succ n => exact (ih (hiff.mpr hfits) hnodup' hcalls.2).mpr hrest n

end Calls

/-- A list holds its sequence behind every call exactly if each entry was added while the list was
empty. -/
theorem represents_iff (l : Links ι) (head : ι) (calls : List (Call ι))
    (hcalls : Passes (Call.allowed head) [] calls = true) :
    (∀ n, Represents (linksAfter head (calls.take n) (listInit l head)) head
      (sequenceAfter (calls.take n) [])) ↔ Passes Call.fits [] calls = true :=
  represents_after_iff (listInit_represents l head) (List.nodup_singleton head) hcalls

/-- An entry goes in and out, and then another. -/
def inTurn : List (Call Nat) := [.addTail 1, .delete 1, .addFront 2, .delete 2]

theorem represents_in_turn : Passes Call.fits [] inTurn = true ∧
    ∀ n, Represents (linksAfter 0 (inTurn.take n) (listInit (⟨id, id⟩ : Links Nat) 0)) 0
      (sequenceAfter (inTurn.take n) []) :=
  ⟨by decide, (represents_iff ⟨id, id⟩ 0 inTurn (by decide)).mpr (by decide)⟩

/-- Of three entries added at the tail the second is lost: the first one's `next` is the third. -/
theorem tail_lost : ¬ ∀ (l : Links Nat) (calls : List (Call Nat)),
    Passes (Call.allowed 0) [] calls = true → ∀ n,
      Represents (linksAfter 0 (calls.take n) (listInit l 0)) 0
        (sequenceAfter (calls.take n) []) := by
  intro hall
  have h := hall ⟨id, id⟩ [.addTail 1, .addTail 2, .addTail 3] (by decide) 3
  have hfirst : (linksAfter 0 [.addTail 1, .addTail 2, .addTail 3]
      (listInit (⟨id, id⟩ : Links Nat) 0)).next 1 = 3 := by decide
  have hnext : (linksAfter 0 [.addTail 1, .addTail 2, .addTail 3]
      (listInit (⟨id, id⟩ : Links Nat) 0)).next 1 = 2 := h.next.2.1
  rw [hfirst] at hnext
  cases hnext

end WorkflowKernel.ListHead
