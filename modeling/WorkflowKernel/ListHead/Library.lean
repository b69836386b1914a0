import WorkflowKernel.ListHead.Sequence

/-!
# list_add and list_del

`communicator.cc` calls `list_add` and `list_del` of the usual linked list, which `list.h` does not
have. `ListLib` is the two functions with what their callers rely on: on a list that is well linked
they put an entry in front and take one out, and write into no cell that is not of that list. What
`list_del` does with an entry that is on no list, it does not say.

`ListLib.usual` is one with the usual pointer writes.

## What is proved

- `usualAdd_ring`, `usualAdd_other`, `listDelete_other`: the usual writes keep the laws.
- `holds_listAdd` to `holds_listAddTail_swapped`: each primitive on a list of at most one entry, and
  that it writes no more.
-/

namespace WorkflowKernel.ListHead

variable {ι : Type*} [DecidableEq ι]

/-- The two links of a cell are as they were. -/
def SameAt (l m : Links ι) (c : ι) : Prop := m.next c = l.next c ∧ m.prev c = l.prev c

/-- `list_add(entry, head)` and `list_del(entry)`. -/
structure ListLib (ι : Type*) [DecidableEq ι] where
  listAdd : Links ι → ι → ι → Links ι
  listDel : Links ι → ι → Links ι
  ring_listAdd : ∀ {l : Links ι} {entry head : ι} {xs : List ι}, Ring l head xs →
    (entry :: head :: xs).Nodup → Ring (listAdd l entry head) head (entry :: xs)
  listAdd_other : ∀ {l : Links ι} {entry head : ι} {xs : List ι}, Ring l head xs →
    (entry :: head :: xs).Nodup → ∀ c, c ∉ entry :: head :: xs → SameAt l (listAdd l entry head) c
  ring_listDel : ∀ {l : Links ι} {entry head : ι} {xs : List ι}, Ring l head xs →
    (head :: xs).Nodup → entry ∈ xs → Ring (listDel l entry) head (xs.erase entry)
  listDel_other : ∀ {l : Links ι} {entry head : ι} {xs : List ι}, Ring l head xs →
    (head :: xs).Nodup → entry ∈ xs → ∀ c, c ∉ head :: xs → SameAt l (listDel l entry) c

/-! ## The usual writes -/

section Usual

variable {l : Links ι} {entry head : ι} {xs : List ι}

omit [DecidableEq ι] in
/-- A path may start at another cell that goes on as the first one did. -/
theorem Path.from {f g : ι → ι} {a a' b : ι} (h : Path f a xs b) (ha : g a' = f a)
    (hxs : ∀ x ∈ xs, g x = f x) : Path g a' xs b := by
  cases xs with
  | nil => exact ha.trans h
  | cons x xs =>
    refine ⟨ha.trans h.1, h.2.congr (hxs x List.mem_cons_self) fun y hy => ?_⟩
    exact hxs y (List.mem_cons_of_mem _ hy)

/-- `list_add`. -/
def usualAdd (l : Links ι) (entry head : ι) : Links ι :=
  let next := l.next head
  { next := Function.update (Function.update l.next entry next) head entry
    prev := Function.update (Function.update l.prev next entry) entry head }

theorem usualAdd_ring (h : Ring l head xs) (hnodup : (entry :: head :: xs).Nodup) :
    Ring (usualAdd l entry head) head (entry :: xs) := by
  obtain ⟨hout, hnodup'⟩ := List.nodup_cons.mp hnodup
  obtain ⟨hhead, hxs⟩ := List.nodup_cons.mp hnodup'
  have hne : entry ≠ head := fun heq => hout (heq ▸ List.mem_cons_self)
  have hnot : ∀ x ∈ xs, x ≠ entry := fun x hx heq => hout (heq ▸ List.mem_cons_of_mem _ hx)
  have hnothead : ∀ x ∈ xs, x ≠ head := fun x hx heq => hhead (heq ▸ hx)
  have hfirst : l.next head = xs.head?.getD head := h.1.first
  constructor
  · refine ⟨Function.update_self .., h.1.from ?_ fun x hx => ?_⟩
    · show Function.update (Function.update l.next entry (l.next head)) head entry entry = _
      rw [Function.update_of_ne hne, Function.update_self]
    · show Function.update (Function.update l.next entry (l.next head)) head entry x = _
      rw [Function.update_of_ne (hnothead x hx), Function.update_of_ne (hnot x hx)]
  · -- the old first entry, or the head, is in front of the new one on the way back
    rw [List.reverse_cons]
    refine Path.append.mpr ⟨?_, Function.update_self ..⟩
    cases xs with
    | nil =>
      show Function.update (Function.update l.prev (l.next head) entry) entry head head = entry
      rw [Function.update_of_ne hne.symm, hfirst]
      exact Function.update_self ..
    | cons x xs =>
      rw [List.head?_cons, Option.getD_some] at hfirst
      have hback := h.2
      rw [List.reverse_cons] at hback ⊢
      obtain ⟨hpath, -⟩ := Path.append.mp hback
      refine Path.append.mpr ⟨hpath.congr ?_ fun y hy => ?_, ?_⟩
      · show Function.update (Function.update l.prev (l.next head) entry) entry head head = _
        rw [Function.update_of_ne hne.symm, hfirst,
          Function.update_of_ne (hnothead x List.mem_cons_self).symm]
      · have hy' : y ∈ xs := List.mem_reverse.mp hy
        have hyx : y ≠ x := fun heq => (List.nodup_cons.mp hxs).1 (heq ▸ hy')
        show Function.update (Function.update l.prev (l.next head) entry) entry head y = _
        rw [Function.update_of_ne (hnot y (List.mem_cons_of_mem _ hy')), hfirst,
          Function.update_of_ne hyx]
      · show Function.update (Function.update l.prev (l.next head) entry) entry head x = entry
        rw [Function.update_of_ne (hnot x List.mem_cons_self), hfirst]
        exact Function.update_self ..

theorem usualAdd_other (h : Ring l head xs) (c : ι) (hc : c ∉ entry :: head :: xs) :
    SameAt l (usualAdd l entry head) c := by
  simp only [List.mem_cons, not_or] at hc
  obtain ⟨hentry, hhead, hxs⟩ := hc
  have hfirst : c ≠ l.next head := by
    rw [h.1.first]
    cases xs with
    | nil => exact hhead
    | cons x xs => exact fun heq => hxs (heq ▸ List.mem_cons_self)
  constructor
  · show Function.update (Function.update l.next entry (l.next head)) head entry c = _
    rw [Function.update_of_ne hhead, Function.update_of_ne hentry]
  · show Function.update (Function.update l.prev (l.next head) entry) entry head c = _
    rw [Function.update_of_ne hentry, Function.update_of_ne hfirst]

/-- `list_delete` writes into the neighbours of the entry. -/
theorem listDelete_other (h : Ring l head xs) (hnodup : (head :: xs).Nodup) (he : entry ∈ xs)
    (c : ι) (hc : c ∉ head :: xs) : SameAt l (listDelete l entry) c := by
  obtain ⟨as, bs, rfl⟩ := List.append_of_mem he
  obtain ⟨hnext, hprev⟩ := h.split
  have hbefore : l.prev entry ∈ head :: (as ++ entry :: bs) := by
    rw [hprev]
    have hlast : as.getLast?.getD head ∈ head :: as := getLast?_getD_mem head as
    exact List.mem_append_left _ hlast
  have hbehind : l.next entry ∈ head :: (as ++ entry :: bs) := by
    rw [hnext]
    cases bs with
    | nil => exact List.mem_cons_self
    | cons b bs => simp
  have hne : entry ≠ l.prev entry := by
    rw [hprev]
    intro heq
    have hmem := getLast?_getD_mem head as
    rw [← heq] at hmem
    have hmiddle : (entry :: (head :: as ++ bs)).Nodup := List.nodup_middle.mp hnodup
    exact (List.nodup_cons.mp hmiddle).1 (List.mem_append_left _ hmem)
  constructor
  · exact Function.update_of_ne (ne_of_mem_of_not_mem hbefore hc).symm ..
  · show Function.update l.prev (Function.update l.next (l.prev entry) (l.next entry) entry)
      (l.prev entry) c = l.prev c
    rw [Function.update_of_ne hne]
    exact Function.update_of_ne (ne_of_mem_of_not_mem hbehind hc).symm ..

end Usual

/-- The usual list; its `list_del` writes as `list_delete` does. -/
def ListLib.usual : ListLib ι where
  listAdd := usualAdd
  listDel := listDelete
  ring_listAdd := usualAdd_ring
  listAdd_other h _ := usualAdd_other h
  ring_listDel := Ring.delete
  listDel_other := listDelete_other

/-! ## Lists of at most one entry -/

section Short

/-- A cell list of one head and one entry was written, and nothing else. -/
def Within (l l' : Links ι) (head entry : ι) : Prop :=
  ∀ c, c ≠ head → c ≠ entry → SameAt l l' c

variable {L : ListLib ι} {l l' : Links ι} {head x : ι} {o : Option ι} {xs : List ι}

omit [DecidableEq ι] in
theorem Holds.congr (h : Holds l head o) (hhead : SameAt l l' head)
    (hx : ∀ x, o = some x → SameAt l l' x) : Holds l' head o := by
  cases o with
  | none => exact ⟨hhead.1.trans h.1, hhead.2.trans h.2⟩
  | some x =>
    obtain ⟨hnext, hprev, hnextx, hprevx, hne⟩ := h
    have hx := hx x rfl
    exact ⟨hhead.1.trans hnext, hhead.2.trans hprev, hx.1.trans hnextx, hx.2.trans hprevx, hne⟩

omit [DecidableEq ι] in
theorem holds_some : Holds l head (some x) ↔ Ring l head [x] ∧ x ≠ head := by
  constructor
  · rintro ⟨hnext, hprev, hnextx, hprevx, hne⟩
    exact ⟨⟨⟨hnext, hnextx⟩, hprev, hprevx⟩, hne⟩
  · rintro ⟨⟨⟨hnext, hnextx⟩, hprev, hprevx⟩, hne⟩
    exact ⟨hnext, hprev, hnextx, hprevx, hne⟩

omit [DecidableEq ι] in
/-- Following the links from a cell of a set that they do not leave comes to cells of that set. -/
theorem Path.mem_of_closed {f : ι → ι} {p : ι → Prop} (hp : ∀ x, p x → p (f x)) :
    ∀ {a b : ι} {xs : List ι}, Path f a xs b → p a → ∀ x ∈ xs, p x
  | _, _, [], _, _, _, hx => nomatch hx
  | a, _, y :: xs, hpath, ha, x, hx => by
    have hy : p y := hpath.1 ▸ hp a ha
    rcases List.mem_cons.mp hx with rfl | hx
    · exact hy
    · exact Path.mem_of_closed hp hpath.2 hy x hx

omit [DecidableEq ι] in
/-- The entries behind each other in a list are those that it holds. -/
theorem Ring.next_mem (h : Ring l head xs) (hx : x ∈ head :: xs) : l.next x ∈ head :: xs := by
  rcases List.mem_cons.mp hx with rfl | hx
  · rw [h.1.first]
    cases xs with
    | nil => exact List.mem_cons_self
    | cons y ys => exact List.mem_cons_of_mem _ List.mem_cons_self
  · obtain ⟨as, bs, rfl⟩ := List.append_of_mem hx
    rw [h.split.1]
    cases bs with
    | nil => exact List.mem_cons_self
    | cons b bs => simp

omit [DecidableEq ι] in
/-- A list holds no other entries, however often one goes round. -/
theorem Ring.mem (h : Ring l head xs) {ys : List ι} (hring : Ring l head ys) (hx : x ∈ ys) :
    x ∈ head :: xs :=
  Path.mem_of_closed (p := (· ∈ head :: xs)) (fun _ => h.next_mem) hring.1 List.mem_cons_self x hx

omit [DecidableEq ι] in
/-- A list that holds one entry or none holds no other. -/
theorem Holds.mem (h : Holds l head o) {xs : List ι} (hring : Ring l head xs) (hx : x ∈ xs) :
    x = head ∨ o = some x := by
  cases o with
  | none =>
    have hempty : Ring l head [] := h
    exact .inl (List.mem_singleton.mp (hempty.mem hring hx))
  | some y =>
    rcases List.mem_cons.mp ((holds_some.mp h).1.mem hring hx) with hhead | hy
    · exact .inl hhead
    · exact .inr (by rw [List.mem_singleton.mp hy])

theorem holds_listAdd (h : Holds l head none) (hne : x ≠ head) :
    Holds (L.listAdd l x head) head (some x) ∧ Within l (L.listAdd l x head) head x := by
  have hring : Ring l head [] := h
  have hnodup : (x :: head :: []).Nodup := by simp [hne]
  refine ⟨holds_some.mpr ⟨L.ring_listAdd hring hnodup, hne⟩, fun c hc hcx => ?_⟩
  exact L.listAdd_other hring hnodup c (by simp [hc, hcx])

theorem holds_listDel (h : Holds l head (some x)) :
    Holds (L.listDel l x) head none ∧ Within l (L.listDel l x) head x := by
  obtain ⟨hring, hne⟩ := holds_some.mp h
  have hnodup : (head :: [x]).Nodup := by simp [hne.symm]
  have hmem : x ∈ [x] := List.mem_singleton_self x
  have hdel := L.ring_listDel hring hnodup hmem
  rw [List.erase_cons_head] at hdel
  exact ⟨hdel, fun c hc hcx => L.listDel_other hring hnodup hmem c (by simp [hc, hcx])⟩

theorem holds_listDelete (h : Holds l head (some x)) :
    Holds (listDelete l x) head none ∧ Within l (listDelete l x) head x := by
  obtain ⟨hring, hne⟩ := holds_some.mp h
  have hnodup : (head :: [x]).Nodup := by simp [hne.symm]
  refine ⟨h.delete, fun c hc hcx => ?_⟩
  exact listDelete_other hring hnodup (List.mem_singleton_self x) c (by simp [hc, hcx])

theorem holds_listAddTail (h : Holds l head none) (hne : x ≠ head) :
    Holds (listAddTail l head x) head (some x) ∧ Within l (listAddTail l head x) head x := by
  refine ⟨h.addTail hne, fun c hc hcx => ?_⟩
  have hempty : listEmpty l head = true := h.empty_iff.mpr rfl
  rw [listAddTail, if_pos hempty]
  constructor
  · show Function.update (Function.update l.next head x) x head c = l.next c
    rw [Function.update_of_ne hcx, Function.update_of_ne hc]
  · show Function.update (Function.update l.prev head x) x head c = l.prev c
    rw [Function.update_of_ne hcx, Function.update_of_ne hc]

/-- With the arguments swapped, `list_add_tail` links an entry whose own link is that of an empty
list. -/
theorem holds_listAddTail_swapped (hself : listEmpty l x = true) (hne : x ≠ head) :
    Holds (listAddTail l x head) head (some x) ∧ Within l (listAddTail l x head) head x := by
  unfold listAddTail
  rw [if_pos hself]
  refine ⟨⟨?_, ?_, ?_, ?_, hne⟩, fun c hc hcx => ⟨?_, ?_⟩⟩
  · exact Function.update_self ..
  · exact Function.update_self ..
  · show Function.update (Function.update l.next x head) head x x = head
    rw [Function.update_of_ne hne, Function.update_self]
  · show Function.update (Function.update l.prev x head) head x x = head
    rw [Function.update_of_ne hne, Function.update_self]
  · show Function.update (Function.update l.next x head) head x c = l.next c
    rw [Function.update_of_ne hc, Function.update_of_ne hcx]
  · show Function.update (Function.update l.prev x head) head x c = l.prev c
    rw [Function.update_of_ne hc, Function.update_of_ne hcx]

end Short

end WorkflowKernel.ListHead
