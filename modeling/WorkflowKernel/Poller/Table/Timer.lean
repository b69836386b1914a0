import WorkflowKernel.Poller.Table.Invariant

/-!
# The timer is armed for the earliest timeout

`__poller_insert_node` arms the timer when the new node is the earliest, comparing it with the first
node of the other container, and `__poller_set_timer` arms it for the earlier of the two first
nodes. Both take the first node of `timeo_list` to be its earliest, which an append to a list that
is not empty breaks.

## What is proved

- `armed_of_appendsToEmpty`: in every run in which nodes are only appended to empty lists, the
  timer never stands later than the earliest timeout, and stands exactly there after
  `__poller_set_timer`.
- `second_append_arms_late`: two timers, the second for later, and the timer is armed for the second.
-/

namespace WorkflowKernel.Poller.Table

open WorkflowKernel.Transition
open WorkflowKernel.Communicator
open WorkflowKernel.Lib

/-! ## What the law is about -/

/-- The last programmed time is not later than any timeout that a node is registered with. -/
def ArmedInTime (s : State) : Prop :=
  ∀ n t, s.deadline n = some t → ∃ a, s.timerfd = some a ∧ a.ns ≤ t.ns

/-- The timer is armed for the earliest timeout, and disarmed when there is none. -/
def ArmedExactly (s : State) : Prop :=
  (s.timerfd = none ↔ ∀ n, s.deadline n = none) ∧
    ∀ a, s.timerfd = some a →
      (∃ n, s.deadline n = some a) ∧ ∀ n t, s.deadline n = some t → a.ns ≤ t.ns

/-- Without `out`, which the step unlinks first, the list is empty. -/
def emptyBut (s : State) (head : Cell) (out : Option NodeId) : Bool :=
  listEmpty s.links head || s.links.next head = ((out.map Cell.node).getD head)

/-- A node placed with this timeout is appended to an empty list, or goes to the tree. -/
def placesWell (s : State) (out : Option NodeId) : Option Timespec → Bool
  | none => emptyBut s .noTimeoList out
  | some t =>
    emptyBut s .timeoList out ||
      timeoutCmp t (s.node (listEntry (s.links.prev .timeoList))).timeout < 0

/-- The node that a call unlinks before it places one, and the timeout that it places it with. -/
def placed (s : State) : Label → Option (Option NodeId × Option Timespec)
  | .add data timeout now none =>
    if (newNode s data).isOk && (s.nodes data.fd).isNone then some (none, absTimeout timeout now)
    else none
  | .mod data timeout now none =>
    if (newNode s data).isOk then
      (s.nodes data.fd).map fun orig => (some orig, absTimeout timeout now)
    else none
  | .setTimeout fd timeout now =>
    if (fdError s fd).isNone then
      (s.nodes fd).map fun n => (some n, absTimeout timeout now)
    else none
  | .addTimer value now => some (none, some (now.plus value.sec value.nsec value.nsec_lt))
  | _ => none

/-- The step appends to empty lists only. -/
def appendsToEmpty (s : State) (l : Label) : Bool :=
  match placed s l with
  | some (out, t) => placesWell s out t
  | none => true

/-! ## What a call places fits -/

section Fit

variable {s : State} {x y x' y' : Option NodeId} {out : Option NodeId} {t : Option Timespec}

/-- A list that is empty but for `out` does not hold another node. -/
theorem emptyBut_iff {head : Cell} {e : NodeId} (hlist : ListIs s.links head (some e))
    (hhead : ∀ n, head ≠ .node n) : emptyBut s head out = true ↔ out = some e := by
  have hempty : listEmpty s.links head = false := by
    rw [Bool.eq_false_iff]
    intro h
    cases (hlist.empty_iff hhead).mp h
  simp only [emptyBut, hempty, hlist.1, Bool.false_or, decide_eq_true_eq]
  cases out with
  | none => simpa using (hhead e).symm
  | some n => simp [eq_comm]

/-- What the condition on the step says of the containers once `out` was unlinked. -/
theorem fits_of_placesWell (s' : State) (hb : Boxes s x y)
    (hx : ∀ m, x' = some m → x = some m ∧ out ≠ some m)
    (hy : ∀ m, y' = some m → y = some m ∧ out ≠ some m)
    (htimeout : ∀ m, x = some m → (s'.node m).timeout = (s.node m).timeout)
    (hwell : placesWell s out t = true) : Fits s' x' y' t := by
  cases t with
  | none =>
    cases hy' : y' with
    | none => rfl
    | some e =>
      obtain ⟨hye, hout⟩ := hy e hy'
      have hlist := hb.noTimeo
      rw [hye] at hlist
      exact absurd ((emptyBut_iff hlist noTimeoList_ne).mp hwell) hout
  | some t =>
    intro e he
    obtain ⟨hxe, hout⟩ := hx e he
    have hlist := hb.timeo
    rw [hxe] at hlist
    rw [htimeout e hxe]
    simp only [placesWell, Bool.or_eq_true, decide_eq_true_eq, hlist.2.1, listEntry,
      timeoutCmp_neg] at hwell
    obtain hempty | hlt := hwell
    · exact absurd ((emptyBut_iff hlist timeoList_ne).mp hempty) hout
    · exact hlt

end Fit

/-! ## The calls -/

/-- Between two calls no node is on the way. -/
def Rest (s : State) : Prop := ∃ x y, Inv s x y fun _ => False

section Calls

variable {R : Rebalance} {s : State}

theorem absTimeout_pos {timeout : Int} {now u : Timespec} (hnow : 0 < now.ns)
    (h : absTimeout timeout now = some u) : 0 < u.ns := by
  unfold absTimeout at h
  split at h
  · obtain rfl := Option.some.inj h
    exact Nat.lt_of_lt_of_le hnow (now.le_plus _ _ _)
  · cases h

theorem fdError_none {fd : Fd} (h : fdError s fd = none) : 0 ≤ fd := by
  unfold fdError at h
  split at h
  · cases h
  · next hneg => exact Int.not_lt.mp hneg

/-- `__poller_new_node` allocates a node for the fd. -/
theorem newNode_ok {data : Data} {s' : State} (h : newNode s data = .ok s') :
    0 ≤ data.fd ∧ ∃ k : Node, k.inRbtree = false ∧ k.data = data ∧ s' = s.alloc k := by
  unfold newNode at h
  split at h
  · cases h
  · next hfd =>
    split at h
    · cases h
    · obtain rfl := Except.ok.inj h
      exact ⟨fdError_none hfd, _, rfl, rfl, rfl⟩

/-- A node that lost its entry and its place is gone. -/
theorem Inv.gone {x y : Option NodeId} {out : NodeId → Prop} {n : NodeId} (h : Inv s x y out)
    (hn : out n) (htable : ∀ fd, s.nodes fd ≠ some n)
    (htimer : 0 ≤ (s.node n).data.fd ∨ (s.node n).removed = true) :
    Inv (s.setDeadline n none) x y fun m => out m ∧ m ≠ n :=
  (h.setDeadline hn none).drop (h.free n hn) htable htimer (Function.update_self ..)

/-- The new node of a call that fails is nobody's. -/
theorem Rest.freed {k : Node} (h : Rest s) (hflag : k.inRbtree = false) (hfd : 0 ≤ k.data.fd) :
    Rest (s.alloc k) := by
  obtain ⟨x, y, h⟩ := h
  have hnot := h.unborn s.allocated (Nat.le_refl _)
  refine ⟨x, y, (Inv.drop (n := s.allocated) (h.alloc k hflag) hnot ?_ ?_ ?_).congr ?_⟩
  · intro fd hn
    exact Nat.lt_irrefl _ (h.table fd _ hn).1
  · left
    rw [alloc_self]
    exact hfd
  · show s.deadline s.allocated = none
    cases hd : s.deadline s.allocated with
    | none => rfl
    | some t => exact absurd (.inl ((h.deadline _ t id).mp hd).1) hnot
  · intro m
    simp only [false_or, and_not_self_iff, ne_eq]

/-- Placing a new node and entering it into the table, as `poller_add` and `poller_mod` end. -/
theorem Inv.placeNew {x y : Option NodeId} {out : NodeId → Prop} {n : NodeId} {fd : Fd}
    {t : Option Timespec} (h : Inv s x y out) (hn : out n) (hborn : n < s.allocated)
    (hfd : 0 ≤ fd) (hdata : (s.node n).data.fd = fd) (hfits : Fits s x y t)
    (hpos : ∀ u, t = some u → 0 < u.ns) :
    ∃ x' y', Inv ((Table.place R s n t).setEntry fd (some n)) x' y' fun m => out m ∧ m ≠ n := by
  obtain ⟨x', y', hplaced, hin⟩ := h.place (R := R) hn hborn hfits hpos
  obtain ⟨hkeep, -, -⟩ := place_keeps (R := R) (s := s) (n := n) t
  refine ⟨x', y', hplaced.install ?_ hfd ?_ hin⟩
  · exact Nat.lt_of_not_le fun hle => hplaced.unborn n hle hin
  · rw [hkeep, hdata]

theorem Rest.add {data : Data} {timeout : Int} {now : Timespec} {ctl : Option Errno}
    (h : Rest s) (hnow : 0 < now.ns)
    (hok : appendsToEmpty s (.add data timeout now ctl) = true) :
    Rest (pollerAdd R s data timeout now ctl).2 := by
  unfold pollerAdd
  cases hnew : newNode s data with
  | error errno => exact h
  | ok s' =>
    obtain ⟨hfd, k, hflag, hdata, rfl⟩ := newNode_ok hnew
    have hfreed := h.freed hflag (by rw [hdata]; exact hfd)
    simp only
    split
    · exact hfreed
    · exact hfreed
    · next hnone =>
      change s.nodes data.fd = none at hnone
      simp only [appendsToEmpty, placed, hnew, hnone, Except.isOk, Except.toBool,
        Option.isNone_none, Bool.and_true, if_true] at hok
      obtain ⟨x, y, h⟩ := h
      have hself := alloc_self s k
      have hnot := h.unborn s.allocated (Nat.le_refl _)
      have hfits := fits_of_placesWell (s.alloc k) h.boxes
        (fun m hm => ⟨hm, by simp⟩) (fun m hm => ⟨hm, by simp⟩) (timeout_alloc hnot k) hok
      have halloc := (h.alloc k hflag).setEpoll data.fd
        (some (s.allocated, ((s.alloc k).node s.allocated).event))
      obtain ⟨x', y', hinv⟩ := halloc.placeNew (R := R) (.inr rfl) (Nat.lt_succ_self _) hfd
        ((congrArg (fun k => k.data.fd) hself).trans (congrArg Data.fd hdata)) hfits
        (fun u hu => absTimeout_pos hnow hu)
      refine ⟨x', y', hinv.congr ?_⟩
      intro m
      simp only [false_or, and_not_self_iff, ne_eq]

theorem Rest.setTimeout {fd : Fd} {timeout : Int} {now : Timespec} (h : Rest s)
    (hnow : 0 < now.ns) (hok : appendsToEmpty s (.setTimeout fd timeout now) = true) :
    Rest (pollerSetTimeout R s fd timeout now).2 := by
  unfold pollerSetTimeout
  split
  · exact h
  · next hfd =>
    split
    · exact h
    · next n hn =>
      simp only [appendsToEmpty, placed, hfd, hn, Option.isNone_none, if_true,
        Option.map_some] at hok
      obtain ⟨x, y, h⟩ := h
      obtain ⟨hborn, -, -, hin⟩ := h.table fd n hn
      obtain ⟨x', y', hout, hx, hy⟩ := h.unlink (R := R) (hin id)
      have hfits := fits_of_placesWell (unlink R s n) h.boxes
        (fun m hm => ⟨(hx m hm).1, by simpa using (hx m hm).2.symm⟩)
        (fun m hm => ⟨(hy m hm).1, by simpa using (hy m hm).2.symm⟩)
        (fun m _ => unlink_timeout m) hok
      have hframe : Frame s (unlink R s n) := Frame.unlink n
      obtain ⟨x₂, y₂, hinv, -⟩ := hout.place (R := R) (.inr rfl)
        (by rw [hframe.allocated]; exact hborn) hfits (fun u hu => absTimeout_pos hnow hu)
      refine ⟨x₂, y₂, hinv.congr ?_⟩
      intro m
      simp only [false_or, and_not_self_iff, ne_eq]

theorem Rest.del {fd : Fd} (h : Rest s) : Rest (pollerDel R s fd).2 := by
  unfold pollerDel
  split
  · exact h
  · split
    · exact h
    · next n hn =>
      obtain ⟨x, y, h⟩ := h
      obtain ⟨-, hge, hdata, hin⟩ := h.table fd n hn
      obtain ⟨x', y', hout, -, -⟩ := (h.clear fd).unlink (R := R) (n := n) (hin id)
      have hframe : Frame (s.setEntry fd none) (unlink R (s.setEntry fd none) n) := Frame.unlink n
      have htaken := (hout.setEpoll fd none).takeOut n .deleted
      obtain ⟨hkeep, hnodes, -, -⟩ :=
        takeOut_keeps ((unlink R (s.setEntry fd none) n).setEpoll fd none) n .deleted
      refine ⟨x', y', (htaken.gone (.inr rfl) ?_ (.inl ?_)).congr ?_⟩
      · intro fd' hfd'
        rw [hnodes] at hfd'
        change (unlink R (s.setEntry fd none) n).nodes fd' = some n at hfd'
        rw [hframe.nodes] at hfd'
        change Function.update s.nodes fd none fd' = some n at hfd'
        by_cases heq : fd' = fd
        · rw [heq, Function.update_self] at hfd'
          cases hfd'
        · rw [Function.update_of_ne heq] at hfd'
          exact heq (h.entry_unique hfd' hn)
      · rw [hkeep]
        show 0 ≤ ((unlink R (s.setEntry fd none) n).node n).data.fd
        rw [hframe.data]
        show 0 ≤ (s.node n).data.fd
        rw [hdata]
        exact hge
      · intro m
        simp only [false_or, and_not_self_iff, ne_eq]

/-- `poller_mod` takes the old node out, puts the new one in its entry, and the old one is gone. -/
theorem Rest.mod {data : Data} {timeout : Int} {now : Timespec} {ctl : Option Errno}
    (h : Rest s) (hnow : 0 < now.ns)
    (hok : appendsToEmpty s (.mod data timeout now ctl) = true) :
    Rest (pollerMod R s data timeout now ctl).2 := by
  unfold pollerMod
  cases hnew : newNode s data with
  | error errno => exact h
  | ok s' =>
    obtain ⟨hfd, k, hflag, hdata, rfl⟩ := newNode_ok hnew
    have hfreed := h.freed hflag (by rw [hdata]; exact hfd)
    simp only
    split
    · exact hfreed
    · exact hfreed
    · next orig horig =>
      change s.nodes data.fd = some orig at horig
      simp only [appendsToEmpty, placed, hnew, horig, Except.isOk, Except.toBool,
        Option.map_some, if_true] at hok
      obtain ⟨x, y, h⟩ := h
      obtain ⟨hborn, -, -, hin⟩ := h.table data.fd orig horig
      have hne : s.allocated ≠ orig := Nat.ne_of_gt hborn
      have halloc := (h.alloc k hflag).setEpoll data.fd
        (some (s.allocated, ((s.alloc k).node s.allocated).event))
      let s₁ := (s.alloc k).setEpoll data.fd
        (some (s.allocated, ((s.alloc k).node s.allocated).event))
      obtain ⟨x', y', hout, hx, hy⟩ := halloc.unlink (R := R) (n := orig) (hin id)
      have hframe : Frame s₁ (unlink R s₁ orig) := Frame.unlink orig
      have htaken := (hout.takeOut orig .modified).setDeadline (.inr rfl) none
      obtain ⟨hkeep, hnodes, hallocated, htimeout⟩ :=
        takeOut_keeps (unlink R s₁ orig) orig .modified
      have hfits := fits_of_placesWell
        ((takeOut (unlink R s₁ orig) orig .modified).setDeadline orig none) h.boxes
        (fun m hm => ⟨(hx m hm).1, by simpa using (hx m hm).2.symm⟩)
        (fun m hm => ⟨(hy m hm).1, by simpa using (hy m hm).2.symm⟩)
        (by
          intro m hm
          show ((takeOut (unlink R s₁ orig) orig .modified).node m).timeout = _
          rw [htimeout, hframe.timeout]
          exact timeout_alloc (h.unborn _ (Nat.le_refl _)) k m hm) hok
      obtain ⟨x₂, y₂, hinv⟩ := htaken.placeNew (R := R) (n := s.allocated) (.inl (.inr rfl))
        (by
          show s.allocated < (takeOut (unlink R s₁ orig) orig .modified).allocated
          rw [hallocated, hframe.allocated]
          exact Nat.lt_succ_self _) hfd
        (by
          show ((takeOut (unlink R s₁ orig) orig .modified).node s.allocated).data.fd = _
          rw [hkeep, hframe.data]
          show ((s.alloc k).node s.allocated).data.fd = _
          rw [alloc_self, hdata]) hfits (fun u hu => absTimeout_pos hnow hu)
      obtain ⟨hpkeep, hpnodes, hpdeadline⟩ := place_keeps (R := R)
        (s := (takeOut (unlink R s₁ orig) orig .modified).setDeadline orig none)
        (n := s.allocated) (absTimeout timeout now)
      refine ⟨x₂, y₂, (hinv.drop (n := orig) (hinv.free orig ⟨.inr rfl, hne.symm⟩) ?_ (.inl ?_)
        ?_).congr ?_⟩
      · intro fd' hfd'
        change Function.update (place R _ s.allocated (absTimeout timeout now)).nodes data.fd
          (some s.allocated) fd' = some orig at hfd'
        by_cases heq : fd' = data.fd
        · rw [heq, Function.update_self] at hfd'
          exact hne (Option.some.inj hfd')
        · rw [Function.update_of_ne heq, hpnodes] at hfd'
          change (takeOut (unlink R s₁ orig) orig .modified).nodes fd' = some orig at hfd'
          rw [hnodes, hframe.nodes] at hfd'
          exact heq (h.entry_unique hfd' horig)
      · show 0 ≤ ((place R _ s.allocated (absTimeout timeout now)).node orig).data.fd
        rw [hpkeep]
        show 0 ≤ ((takeOut (unlink R s₁ orig) orig .modified).node orig).data.fd
        rw [hkeep, hframe.data]
        show 0 ≤ ((s.alloc k).node orig).data.fd
        rw [alloc_of_ne k hne.symm]
        exact (h.table data.fd orig horig).2.2.1 ▸ (h.table data.fd orig horig).2.1
      · show (place R _ s.allocated (absTimeout timeout now)).deadline orig = none
        rw [hpdeadline, Function.update_of_ne hne.symm]
        exact Function.update_self ..
      · intro m
        simp only [false_or, ne_eq]
        constructor
        · exact False.elim
        · rintro ⟨⟨rfl | rfl, hm⟩, hm'⟩
          · exact hm rfl
          · exact hm' rfl

theorem Rest.addTimer {value now : Timespec} (h : Rest s) (hnow : 0 < now.ns)
    (hok : appendsToEmpty s (.addTimer value now) = true) :
    Rest (pollerAddTimer R s value now) := by
  obtain ⟨x, y, h⟩ := h
  simp only [appendsToEmpty, placed] at hok
  let k : Node := { Node.blank with data := { operation := .timer, fd := -1 } }
  have hnot := h.unborn s.allocated (Nat.le_refl _)
  have hfits := fits_of_placesWell (s.alloc k) h.boxes
    (fun m hm => ⟨hm, by simp⟩) (fun m hm => ⟨hm, by simp⟩) (timeout_alloc hnot k) hok
  obtain ⟨x', y', hinv, -⟩ := (h.alloc k rfl).place (R := R) (.inr rfl) (Nat.lt_succ_self _) hfits
    (by
      intro u hu
      obtain rfl := Option.some.inj hu
      exact Nat.lt_of_lt_of_le hnow (now.le_plus _ _ _))
  refine ⟨x', y', hinv.congr ?_⟩
  intro m
  simp only [false_or, and_not_self_iff, ne_eq]

theorem Rest.delTimer {n : NodeId} (h : Rest s) (hborn : n < s.allocated)
    (hfd : (s.node n).data.fd < 0) : Rest (pollerDelTimer R s n).2 := by
  unfold pollerDelTimer
  split
  · exact h
  · next hremoved =>
    obtain ⟨x, y, h⟩ := h
    have hin := h.timers n hborn hfd (by simpa using hremoved) id
    have hmarked := h.setNode (n := n) (f := fun k => { k with removed := true })
      fun k => ⟨rfl, rfl, rfl, fun _ => rfl⟩
    let s₁ := s.setNode n fun k => { k with removed := true }
    obtain ⟨x', y', hout, -, -⟩ := hmarked.unlink (R := R) (n := n) hin
    have hframe : Frame s₁ (unlink R s₁ n) := Frame.unlink n
    have hstate := (hout.setNode (n := n) (f := fun k => { k with state := .deleted })
      fun k => ⟨rfl, rfl, rfl, id⟩).queues (unlink R s₁ n).pipe
        ((unlink R s₁ n).called ++ [n])
    refine ⟨x', y', (hstate.gone (.inr rfl) ?_ (.inr ?_)).congr ?_⟩
    · intro fd hn
      change (unlink R s₁ n).nodes fd = some n at hn
      rw [hframe.nodes] at hn
      obtain ⟨-, hge, hdata, -⟩ := h.table fd n hn
      rw [hdata] at hfd
      exact absurd hge (Int.not_le.mpr hfd)
    · show (((unlink R s₁ n).setNode n fun k => { k with state := .deleted }).node n).removed = true
      rw [State.setNode_self]
      show ((unlink R s₁ n).node n).removed = true
      rw [hframe.removed, State.setNode_self]
    · intro m
      simp only [false_or, and_not_self_iff, ne_eq]

/-- Between two calls, the nodes with a deadline are the ones that the timer is for. -/
theorem Inv.timed_iff {x y : Option NodeId} (h : Inv s x y fun _ => False) (n : NodeId)
    (t : Timespec) : s.deadline n = some t ↔ Timed s x n ∧ (s.node n).timeout = t :=
  h.deadline n t id

/-- The node that `__poller_set_timer` arms for. -/
def earliest (s : State) : Option NodeId → Option NodeId
  | none => s.treeFirst
  | some n =>
    match s.treeFirst with
    | none => some n
    | some first =>
      if timeoutCmp (s.node first).timeout (s.node n).timeout < 0 then some first else some n

/-- `__poller_set_timer` takes `x` for the first of `timeo_list`. -/
theorem pollerSetTimer_eq {x y : Option NodeId} (hb : Boxes s x y) : pollerSetTimer s =
    setTimerfd s (((earliest s x).map fun n => (s.node n).timeout).getD .zero) := by
  cases x with
  | none =>
    have hempty := (hb.timeo.empty_iff timeoList_ne).mpr rfl
    simp only [pollerSetTimer, hempty, if_true, earliest]
    cases s.treeFirst with
    | none => rfl
    | some first => rfl
  | some n =>
    have hempty : listEmpty s.links .timeoList = false := by
      rw [Bool.eq_false_iff]
      intro h
      cases (hb.timeo.empty_iff timeoList_ne).mp h
    simp only [pollerSetTimer, hempty, Bool.false_eq_true, if_false, hb.timeo.1, listEntry,
      earliest]
    cases s.treeFirst with
    | none => rfl
    | some first => rfl

/-- No node is earlier than the one that is picked. -/
theorem earliest_le {x y : Option NodeId} (hb : Boxes s x y) {e : NodeId}
    (he : earliest s x = some e) : Timed s x e ∧
      ∀ m, Timed s x m → (s.node e).timeout.ns ≤ (s.node m).timeout.ns := by
  unfold earliest at he
  cases x with
  | none =>
    refine ⟨.inr (hb.first_mem he), ?_⟩
    rintro m (hm | hm)
    · cases hm
    · exact hb.first_le he hm
  | some n =>
    cases hfirst : s.treeFirst with
    | none =>
      simp only [hfirst, Option.some.injEq] at he
      subst he
      refine ⟨.inl rfl, ?_⟩
      rintro m (hm | hm)
      · obtain rfl := Option.some.inj hm
        exact Nat.le_refl _
      · rw [hb.first_none hfirst] at hm
        cases hm
    | some first =>
      simp only [hfirst] at he
      split at he
      · next hlt =>
        rw [timeoutCmp_neg] at hlt
        obtain rfl := Option.some.inj he
        refine ⟨.inr (hb.first_mem hfirst), ?_⟩
        rintro m (hm | hm)
        · rw [← Option.some.inj hm]
          exact Nat.le_of_lt hlt
        · exact hb.first_le hfirst hm
      · next hge =>
        rw [timeoutCmp_neg, Nat.not_lt] at hge
        obtain rfl := Option.some.inj he
        refine ⟨.inl rfl, ?_⟩
        rintro m (hm | hm)
        · obtain rfl := Option.some.inj hm
          exact Nat.le_refl _
        · exact Nat.le_trans hge (hb.first_le hfirst hm)

/-- None is picked when there is none. -/
theorem earliest_none {x y : Option NodeId} (hb : Boxes s x y) (he : earliest s x = none)
    (m : NodeId) : ¬ Timed s x m := by
  unfold earliest at he
  cases x with
  | none =>
    rintro (hm | hm)
    · cases hm
    · rw [hb.first_none he] at hm
      cases hm
  | some n =>
    cases hfirst : s.treeFirst with
    | none => simp only [hfirst, reduceCtorEq] at he
    | some first =>
      simp only [hfirst] at he
      split at he
      · cases he
      · cases he

theorem Rest.setTimer (h : Rest s) : Rest (pollerSetTimer s) ∧ ArmedExactly (pollerSetTimer s) := by
  obtain ⟨x, y, h⟩ := h
  have heq := pollerSetTimer_eq h.boxes
  cases he : earliest s x with
  | none =>
    have hnone := earliest_none h.boxes he
    rw [he] at heq
    rw [heq]
    constructor
    · refine ⟨x, y, h.boxes.setTimerfd _, ?_, h.positive, h.deadline, h.table, h.timers, h.free,
        h.unborn, h.clock⟩
      exact fun m hm => absurd hm (hnone m)
    · have hdisarmed : (setTimerfd s .zero).timerfd = none := by
        simp only [setTimerfd, if_true]
      refine ⟨⟨fun _ n => ?_, fun _ => hdisarmed⟩, ?_⟩
      · cases hd : s.deadline n with
        | none => exact hd
        | some t => exact absurd ((h.timed_iff n t).mp hd).1 (hnone n)
      · intro a ha
        change (setTimerfd s .zero).timerfd = some a at ha
        rw [hdisarmed] at ha
        cases ha
  | some e =>
    obtain ⟨htimed, hmin⟩ := earliest_le h.boxes he
    have hpos := h.positive e htimed
    rw [he] at heq
    rw [heq]
    have harmed : (setTimerfd s (s.node e).timeout).timerfd = some (s.node e).timeout :=
      setTimerfd_timerfd hpos
    have hdeadline : s.deadline e = some (s.node e).timeout :=
      (h.timed_iff e _).mpr ⟨htimed, rfl⟩
    constructor
    · exact ⟨x, y, h.boxes.setTimerfd _, armed_setTimerfd hpos hmin, h.positive, h.deadline,
        h.table, h.timers, h.free, h.unborn, h.clock⟩
    · constructor
      · constructor
        · intro hdisarmed
          change (setTimerfd s (s.node e).timeout).timerfd = none at hdisarmed
          rw [harmed] at hdisarmed
          cases hdisarmed
        · intro hall
          have hnone : s.deadline e = none := hall e
          rw [hdeadline] at hnone
          cases hnone
      · intro a ha
        change (setTimerfd s (s.node e).timeout).timerfd = some a at ha
        rw [harmed] at ha
        obtain rfl := Option.some.inj ha
        refine ⟨⟨e, hdeadline⟩, fun n t hn => ?_⟩
        change s.deadline n = some t at hn
        obtain ⟨hin, rfl⟩ := (h.timed_iff n t).mp hn
        exact hmin n hin

end Calls

/-! ## Every run -/

section Runs

variable {R : Rebalance} {s : State}

/-- A clock reading is past 0. -/
theorem Rest.now_pos (h : Rest s) {l : Label} {now : Timespec} (hen : enabled s l = true)
    (hnow : l.now = some now) : 0 < now.ns := by
  obtain ⟨x, y, h⟩ := h
  simp only [enabled, hnow, Bool.and_eq_true, decide_eq_true_eq] at hen
  exact Nat.lt_of_lt_of_le h.clock hen.1

theorem Rest.call {l : Label} (h : Rest s) (hen : enabled s l = true)
    (hok : appendsToEmpty s l = true) : Rest (call R s l) := by
  cases l with
  | add data timeout now ctl => exact h.add (h.now_pos hen rfl) hok
  | mod data timeout now ctl => exact h.mod (h.now_pos hen rfl) hok
  | setTimeout fd timeout now => exact h.setTimeout (h.now_pos hen rfl) hok
  | del fd => exact h.del
  | addTimer value now => exact h.addTimer (h.now_pos hen rfl) hok
  | delTimer n =>
    simp only [enabled, Bool.and_eq_true, decide_eq_true_eq] at hen
    exact h.delTimer hen.2.1 hen.2.2
  | setTimer => exact h.setTimer.1

theorem Rest.setClock {now : Timespec} (h : Rest s) (hpos : 0 < now.ns) :
    Rest { s with clock := now } := by
  obtain ⟨x, y, h⟩ := h
  exact ⟨x, y, h.setClock hpos⟩

/-- The clock after a step. -/
theorem Rest.clock_pos {l : Label} (h : Rest s) (hen : enabled s l = true) :
    0 < (l.now.getD s.clock).ns := by
  cases hnow : l.now with
  | none =>
    obtain ⟨x, y, h⟩ := h
    exact h.clock
  | some now => exact h.now_pos hen hnow

theorem Rest.step {l : Label} {s' : State} (h : Rest s) (hok : appendsToEmpty s l = true)
    (hstep : step R s l = some s') : Rest s' := by
  unfold Table.step at hstep
  split at hstep
  · next hen =>
    obtain rfl := Option.some.inj hstep
    exact (h.call hen hok).setClock (h.clock_pos hen)
  · cases hstep

/-- Nodes are appended to empty lists only, in every run. -/
def Appending : State → Label → Prop := fun s l => appendsToEmpty s l = true

theorem rest_inductive : InductiveInvariant (system R) Appending Rest where
  init := by
    rintro s ⟨maxOpenFiles, stopped, clock, hclock, rfl⟩
    exact ⟨none, none, inv_created maxOpenFiles stopped hclock⟩
  step s l s' h hok hstep := h.step hok hstep

theorem Rest.armedInTime (h : Rest s) : ArmedInTime s := by
  obtain ⟨x, y, h⟩ := h
  intro n t hn
  obtain ⟨htimed, rfl⟩ := (h.timed_iff n t).mp hn
  exact h.armed n htimed

end Runs

/-- The timer never stands later than the earliest timeout, and `__poller_set_timer` puts it exactly
there. -/
theorem armed_of_appendsToEmpty (R : Rebalance) (s : State)
    (h : (system R).Reaches Appending s) :
    ArmedInTime s ∧ ∀ s', step R s .setTimer = some s' → ArmedExactly s' := by
  have hrest : Rest s := rest_inductive.holds h
  refine ⟨hrest.armedInTime, ?_⟩
  intro s' hstep
  unfold step at hstep
  split at hstep
  · obtain rfl := Option.some.inj hstep
    exact hrest.setTimer.2
  · cases hstep

/-! ## Two runs -/

section Runs

/-- The root is black, as both functions of rbtree.c leave it; no rotation is done. -/
def paint : RbTree NodeId → RbTree NodeId
  | .nil => .nil
  | .node _ l a r => .node .black l a r

theorem inorder_paint (t : RbTree NodeId) : (paint t).inorder = t.inorder := by
  cases t with
  | nil => rfl
  | node c l a r => rfl

/-- The right subtree takes the empty place behind the last node of the left one. -/
def join : RbTree NodeId → RbTree NodeId → RbTree NodeId
  | .nil, t => t
  | .node c l a r, t => .node c l a (join r t)

theorem inorder_join (l r : RbTree NodeId) : (join l r).inorder = l.inorder ++ r.inorder := by
  induction l with
  | nil => rfl
  | node c l a r' _ ih =>
    simp only [join, RbTree.inorder_node, ih, List.append_assoc, List.cons_append]

def remove (n : NodeId) : RbTree NodeId → RbTree NodeId
  | .nil => .nil
  | .node c l a r =>
    if n ∈ l.inorder then .node c (remove n l) a r
    else if a = n then join l r
    else .node c l a (remove n r)

theorem inorder_remove (n : NodeId) (t : RbTree NodeId) :
    (remove n t).inorder = t.inorder.erase n := by
  induction t with
  | nil => rfl
  | node c l a r ihl ihr =>
    unfold remove
    rw [RbTree.inorder_node]
    split
    · next hl => rw [RbTree.inorder_node, ihl, List.erase_append_left _ hl]
    · next hl =>
      rw [List.erase_append_right _ hl]
      split
      · next han => rw [inorder_join, han, List.erase_cons_head]
      · next han => rw [RbTree.inorder_node, ihr, List.erase_cons_tail (by simpa using han)]

/-- What rbtree.c does on trees of at most two nodes. -/
def rebalanceSmall : Rebalance where
  insertColor _ := paint
  erase n t := paint (remove n t)
  inorder_insertColor _ := inorder_paint
  inorder_erase n t := by rw [inorder_paint, inorder_remove]

/-- A time of so many seconds. -/
def seconds (sec : Nat) : Timespec := ⟨sec, 0, Timespec.zero.nsec_lt⟩

/-- A first node with 3 s, then one with 1 s, which goes to the tree, and is deleted again. -/
theorem armed_of_appendsToEmpty_run : ∃ s, (system rebalanceSmall).Reaches Appending s ∧
    s.timerfd = some (seconds 2) ∧
      (ArmedInTime s ∧ ∀ s', step rebalanceSmall s .setTimer = some s' → ArmedExactly s') := by
  have hrun : ((system rebalanceSmall).runIf appendsToEmpty (.created 16 false (seconds 1))
      [.add { operation := .read, fd := 3 } 3000 (seconds 1) none,
        .add { operation := .connect, fd := 4 } 1000 (seconds 1) none, .setTimer, .del 4]).map
      (fun s => s.timerfd) = some (some (seconds 2)) := by
    decide +kernel
  obtain ⟨s, hs, htimerfd⟩ := Option.map_eq_some_iff.mp hrun
  have hinit : (system rebalanceSmall).Init (.created 16 false (seconds 1)) :=
    ⟨16, false, seconds 1, by decide, rfl⟩
  have hreach := System.reaches_of_runIf (M := system rebalanceSmall) (fun _ _ h => h) hinit hs
  exact ⟨s, hreach, htimerfd, armed_of_appendsToEmpty rebalanceSmall s hreach⟩

/-- The second of two timers is linked in front of the first, and the timer is set for it. -/
theorem second_append_arms_late : ∃ s s', (system rebalanceSmall).Reachable s ∧
    step rebalanceSmall s .setTimer = some s' ∧ ¬ ArmedInTime s' ∧ ¬ ArmedExactly s' := by
  have hrun : ((system rebalanceSmall).run (.created 16 false (seconds 1))
      [.addTimer (seconds 1) (seconds 1), .addTimer (seconds 2) (seconds 1)]).bind
      (fun s => (step rebalanceSmall s .setTimer).map fun s' =>
        (s'.timerfd, s'.deadline 0)) = some (some (seconds 3), some (seconds 2)) := by
    decide +kernel
  obtain ⟨s, hs, hstep⟩ := Option.bind_eq_some_iff.mp hrun
  obtain ⟨s', hs', hlog⟩ := Option.map_eq_some_iff.mp hstep
  have htimerfd : s'.timerfd = some (seconds 3) := congrArg Prod.fst hlog
  have hdeadline : s'.deadline 0 = some (seconds 2) := congrArg Prod.snd hlog
  have hlate : ¬ (seconds 3).ns ≤ (seconds 2).ns := by decide
  have hinit : (system rebalanceSmall).Init (.created 16 false (seconds 1)) :=
    ⟨16, false, seconds 1, by decide, rfl⟩
  refine ⟨s, s', System.reachable_of_run (M := system rebalanceSmall) hinit hs, hs', ?_, ?_⟩
  · intro hin
    obtain ⟨a, ha, hle⟩ := hin 0 _ hdeadline
    obtain rfl := Option.some.inj (htimerfd.symm.trans ha)
    exact hlate hle
  · rintro ⟨-, hexact⟩
    exact hlate ((hexact _ htimerfd).2 0 _ hdeadline)

end Runs

end WorkflowKernel.Poller.Table
