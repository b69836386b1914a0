import WorkflowKernel.Poller.Table.Insert

/-!
# The invariant of the table

`Inv` ties the table and the timers to the containers, the timeouts to what the nodes are registered
with, and the timer to the timeouts. A call takes a node out, and places one; `out` are the nodes in
between.

## What is proved

- `Inv.unlink`, `Inv.place`, `Inv.drop`: the moves of a node, and `Inv.alloc` a new one.
- The rest are the fields that the calls write besides.
-/

namespace WorkflowKernel.Poller.Table

open WorkflowKernel.Communicator
open WorkflowKernel.Lib

/-! ## The invariant -/

/-- The table and the timers are in the containers, but for the nodes of `out`, which the call at
hand has taken out or has still to place. -/
structure Inv (s : State) (x y : Option NodeId) (out : NodeId → Prop) : Prop where
  boxes : Boxes s x y
  armed : Armed s x
  positive : ∀ n, Timed s x n → 0 < (s.node n).timeout.ns
  deadline : ∀ n t, ¬ out n → (s.deadline n = some t ↔ Timed s x n ∧ (s.node n).timeout = t)
  table : ∀ fd n, s.nodes fd = some n →
    n < s.allocated ∧ 0 ≤ fd ∧ (s.node n).data.fd = fd ∧ (¬ out n → Boxed s x y n)
  timers : ∀ n, n < s.allocated → (s.node n).data.fd < 0 → (s.node n).removed = false →
    ¬ out n → Boxed s x y n
  free : ∀ n, out n → ¬ Boxed s x y n
  unborn : ∀ n, s.allocated ≤ n → ¬ Boxed s x y n
  clock : 0 < s.clock.ns

section Invariant

variable {R : Rebalance} {s : State} {x y : Option NodeId} {out : NodeId → Prop} {n : NodeId}

theorem Inv.congr {out' : NodeId → Prop} (h : Inv s x y out) (hout : ∀ m, out' m ↔ out m) :
    Inv s x y out' := by
  have heq : out' = out := funext fun m => propext (hout m)
  rw [heq]
  exact h

/-- The invariant does not look at the epoll set. -/
theorem Inv.setEpoll (h : Inv s x y out) (fd : Fd) (data : Option (NodeId × Event)) :
    Inv (s.setEpoll fd data) x y out :=
  ⟨h.boxes.congr rfl rfl rfl rfl rfl rfl (fun _ _ => rfl) fun _ => rfl,
    h.armed, h.positive, h.deadline, h.table, h.timers, h.free, h.unborn, h.clock⟩

/-- The invariant does not look at where results go. -/
theorem Inv.queues (h : Inv s x y out) (p c : List NodeId) :
    Inv { s with pipe := p, called := c } x y out :=
  ⟨h.boxes.congr rfl rfl rfl rfl rfl rfl (fun _ _ => rfl) fun _ => rfl,
    h.armed, h.positive, h.deadline, h.table, h.timers, h.free, h.unborn, h.clock⟩

/-- A node gets its result, and may be marked as removed. -/
theorem Inv.setNode {f : Node → Node} (h : Inv s x y out)
    (hf : ∀ k, (f k).data = k.data ∧ (f k).inRbtree = k.inRbtree ∧ (f k).timeout = k.timeout ∧
      (k.removed = true → (f k).removed = true)) : Inv (s.setNode n f) x y out := by
  have hdata : ∀ m, ((s.setNode n f).node m).data = (s.node m).data := by
    intro m
    simp only [State.setNode, Function.update_apply]
    split
    · next hm => rw [hm, (hf _).1]
    · rfl
  have hflag : ∀ m, ((s.setNode n f).node m).inRbtree = (s.node m).inRbtree := by
    intro m
    simp only [State.setNode, Function.update_apply]
    split
    · next hm => rw [hm, (hf _).2.1]
    · rfl
  have htimeout : ∀ m, ((s.setNode n f).node m).timeout = (s.node m).timeout := by
    intro m
    simp only [State.setNode, Function.update_apply]
    split
    · next hm => rw [hm, (hf _).2.2.1]
    · rfl
  have hremoved : ∀ m, ((s.setNode n f).node m).removed = false → (s.node m).removed = false := by
    intro m hm
    simp only [State.setNode, Function.update_apply] at hm
    split at hm
    · next hmn =>
      rw [hmn]
      cases hr : (s.node n).removed with
      | false => rfl
      | true => rw [(hf _).2.2.2 hr] at hm; exact hm
    · exact hm
  constructor
  case boxes => exact h.boxes.congr rfl rfl rfl rfl rfl rfl (fun m _ => htimeout m) hflag
  case armed =>
    intro m hm
    rw [htimeout]
    exact h.armed m hm
  case positive =>
    intro m hm
    rw [htimeout]
    exact h.positive m hm
  case deadline =>
    intro m t hm
    rw [htimeout]
    exact h.deadline m t hm
  case table =>
    intro fd m hm
    rw [hdata]
    exact h.table fd m hm
  case timers =>
    intro m hm hfd hr
    rw [hdata] at hfd
    exact h.timers m hm hfd (hremoved m hr)
  case free => exact h.free
  case unborn => exact h.unborn
  case clock => exact h.clock

/-- A node of the containers is taken out. -/
theorem Inv.unlink (h : Inv s x y out) (hn : Boxed s x y n) :
    ∃ x' y', Inv (unlink R s n) x' y' (fun m => out m ∨ m = n) ∧
      (∀ m, x' = some m → x = some m ∧ m ≠ n) ∧ (∀ m, y' = some m → y = some m ∧ m ≠ n) := by
  obtain ⟨x', y', hb, htimed, hx, hy⟩ := unlink_boxes (R := R) h.boxes hn
  have hframe : Frame s (Table.unlink R s n) := Frame.unlink n
  have htimerfd : (Table.unlink R s n).timerfd = s.timerfd := by
    unfold Table.unlink
    split
    · rfl
    · rfl
  have hboxed : ∀ m, Boxed (Table.unlink R s n) x' y' m ↔ Boxed s x y m ∧ m ≠ n := by
    intro m
    rw [Boxed, htimed, hy, Boxed, or_and_right]
  refine ⟨x', y', ?_, fun m hm => ⟨hx m hm, ((htimed m).mp (.inl hm)).2⟩, fun m => (hy m).mp⟩
  constructor
  case boxes => exact hb
  case armed =>
    intro m hm
    rw [htimerfd, hframe.timeout]
    exact h.armed m ((htimed m).mp hm).1
  case positive =>
    intro m hm
    rw [hframe.timeout]
    exact h.positive m ((htimed m).mp hm).1
  case deadline =>
    intro m t hm
    rw [not_or] at hm
    rw [hframe.deadline, hframe.timeout, htimed, h.deadline m t hm.1]
    simp only [ne_eq, hm.2, not_false_iff, and_true]
  case table =>
    intro fd m hm
    rw [hframe.nodes] at hm
    rw [hframe.allocated, hframe.data, hboxed, not_or]
    obtain ⟨hborn, hfd, hdata, hin⟩ := h.table fd m hm
    exact ⟨hborn, hfd, hdata, fun hout => ⟨hin hout.1, hout.2⟩⟩
  case timers =>
    intro m hm hfd hr hout
    rw [hframe.allocated] at hm
    rw [hframe.data] at hfd
    rw [hframe.removed] at hr
    rw [not_or] at hout
    rw [hboxed]
    exact ⟨h.timers m hm hfd hr hout.1, hout.2⟩
  case free =>
    intro m hm
    rw [hboxed]
    rintro ⟨hin, hne⟩
    obtain hm | hm := hm
    · exact h.free m hm hin
    · exact hne hm
  case unborn =>
    intro m hm
    rw [hframe.allocated] at hm
    rw [hboxed]
    exact fun hin => h.unborn m hm hin.1
  case clock =>
    rw [hframe.clock]
    exact h.clock

/-- A node with no place in the table is done with. -/
theorem Inv.drop (h : Inv s x y out) (hn : ¬ Boxed s x y n) (htable : ∀ fd, s.nodes fd ≠ some n)
    (htimer : 0 ≤ (s.node n).data.fd ∨ (s.node n).removed = true) (hdeadline : s.deadline n = none) :
    Inv s x y fun m => out m ∧ m ≠ n := by
  have hor : ∀ m, ¬ (out m ∧ m ≠ n) → ¬ out m ∨ m = n := by
    intro m hm
    by_cases hmn : m = n
    · exact .inr hmn
    · exact .inl fun hout => hm ⟨hout, hmn⟩
  refine ⟨h.boxes, h.armed, h.positive, ?_, ?_, ?_, fun m hm => h.free m hm.1, h.unborn, h.clock⟩
  · intro m t hm
    obtain hm | rfl := hor m hm
    · exact h.deadline m t hm
    · rw [hdeadline]
      constructor
      · intro hnone
        cases hnone
      · exact fun htimed => absurd (.inl htimed.1) hn
  · intro fd m hm
    obtain ⟨hborn, hfd, hdata, hin⟩ := h.table fd m hm
    refine ⟨hborn, hfd, hdata, fun hout => ?_⟩
    obtain hout | rfl := hor m hout
    · exact hin hout
    · exact absurd hm (htable fd)
  · intro m hm hfd hr hout
    obtain hout | rfl := hor m hout
    · exact h.timers m hm hfd hr hout
    · obtain hge | htrue := htimer
      · exact absurd hge (Int.not_le.mpr hfd)
      · rw [hr] at htrue
        cases htrue

/-- The deadline of a node that is out is nobody's. -/
theorem Inv.setDeadline (h : Inv s x y out) (hn : out n) (t : Option Timespec) :
    Inv (s.setDeadline n t) x y out := by
  refine ⟨h.boxes.congr rfl rfl rfl rfl rfl rfl (fun _ _ => rfl) fun _ => rfl,
    h.armed, h.positive, ?_, h.table, h.timers, h.free, h.unborn, h.clock⟩
  intro m u hm
  have hne : m ≠ n := fun heq => hm (heq ▸ hn)
  simp only [State.setDeadline, Function.update_of_ne hne]
  exact h.deadline m u hm

/-- The timeout of a node that is out is read by nobody. -/
theorem Inv.setTimeout (h : Inv s x y out) (hn : out n) (t : Timespec) :
    Inv (s.setNode n fun k => { k with timeout := t }) x y out := by
  have hne : ∀ m, Boxed s x y m → m ≠ n := fun m hm heq => h.free n hn (heq ▸ hm)
  have hnode : ∀ m, Boxed s x y m →
      (s.setNode n fun k => { k with timeout := t }).node m = s.node m :=
    fun m hm => State.setNode_of_ne s _ (hne m hm)
  have hkeep : ∀ m, ((s.setNode n fun k => { k with timeout := t }).node m).data = (s.node m).data ∧
      ((s.setNode n fun k => { k with timeout := t }).node m).removed = (s.node m).removed := by
    intro m
    simp only [State.setNode, Function.update_apply]
    split
    · next hm =>
      rw [hm]
      exact ⟨rfl, rfl⟩
    · exact ⟨rfl, rfl⟩
  constructor
  case boxes => exact h.boxes.setTimeout (h.free n hn) t
  case armed =>
    intro m hm
    rw [hnode m (.inl hm)]
    exact h.armed m hm
  case positive =>
    intro m hm
    rw [hnode m (.inl hm)]
    exact h.positive m hm
  case deadline =>
    intro m u hm
    have hmn : m ≠ n := fun heq => hm (heq ▸ hn)
    rw [State.setNode_of_ne s _ hmn]
    exact h.deadline m u hm
  case table =>
    intro fd m hm
    rw [(hkeep m).1]
    exact h.table fd m hm
  case timers =>
    intro m hm hfd hr
    rw [(hkeep m).1] at hfd
    rw [(hkeep m).2] at hr
    exact h.timers m hm hfd hr
  case free => exact h.free
  case unborn => exact h.unborn
  case clock => exact h.clock

/-- A node that is out is placed: the two ways share this. -/
theorem Inv.ofPlaced {s' : State} {x' y' : Option NodeId} {t : Option Timespec}
    (h : Inv s x y out) (hn : out n) (hborn : n < s.allocated) (hframe : Frame s s')
    (hb : Boxes s' x' y') (harmed : Armed s' x')
    (htimed : ∀ m, Timed s' x' m ↔ Timed s x m ∨ (m = n ∧ t.isSome))
    (hboxed : ∀ m, Boxed s' x' y' m ↔ Boxed s x y m ∨ m = n)
    (htimeout : ∀ u, t = some u → (s.node n).timeout = u ∧ 0 < u.ns) :
    Inv (s'.setDeadline n t) x' y' fun m => out m ∧ m ≠ n := by
  have hor : ∀ m, ¬ (out m ∧ m ≠ n) → (¬ out m ∧ m ≠ n) ∨ m = n := by
    intro m hm
    by_cases hmn : m = n
    · exact .inr hmn
    · exact .inl ⟨fun hout => hm ⟨hout, hmn⟩, hmn⟩
  have hnot : ¬ Timed s x n := fun hin => h.free n hn (.inl hin)
  constructor
  case boxes => exact hb.setDeadline t
  case armed => exact harmed
  case positive =>
    intro m hm
    show 0 < (s'.node m).timeout.ns
    rw [hframe.timeout]
    obtain hm | ⟨rfl, hsome⟩ := (htimed m).mp hm
    · exact h.positive m hm
    · obtain ⟨u, hu⟩ := Option.isSome_iff_exists.mp hsome
      rw [(htimeout u hu).1]
      exact (htimeout u hu).2
  case deadline =>
    intro m u hm
    show Function.update s'.deadline n t m = some u ↔
      Timed s' x' m ∧ (s'.node m).timeout = u
    rw [hframe.timeout, htimed]
    obtain ⟨hout, hmn⟩ | rfl := hor m hm
    · rw [Function.update_of_ne hmn, hframe.deadline, h.deadline m u hout]
      simp only [hmn, false_and, or_false]
    · rw [Function.update_self]
      constructor
      · intro hu
        exact ⟨.inr ⟨rfl, by rw [hu]; rfl⟩, (htimeout u hu).1⟩
      · rintro ⟨hin | ⟨-, hsome⟩, hu⟩
        · exact absurd hin hnot
        · obtain ⟨v, hv⟩ := Option.isSome_iff_exists.mp hsome
          rw [hv, ← hu, (htimeout v hv).1]
  case table =>
    intro fd m hm
    change s'.nodes fd = some m at hm
    rw [hframe.nodes] at hm
    show m < s'.allocated ∧ 0 ≤ fd ∧ (s'.node m).data.fd = fd ∧ (_ → Boxed s' x' y' m)
    rw [hframe.allocated, hframe.data, hboxed]
    obtain ⟨hold, hfd, hdata, hin⟩ := h.table fd m hm
    refine ⟨hold, hfd, hdata, fun hout => ?_⟩
    obtain ⟨hout, -⟩ | rfl := hor m hout
    · exact .inl (hin hout)
    · exact .inr rfl
  case timers =>
    intro m hm hfd hr hout
    change m < s'.allocated at hm
    change (s'.node m).data.fd < 0 at hfd
    change (s'.node m).removed = false at hr
    rw [hframe.allocated] at hm
    rw [hframe.data] at hfd
    rw [hframe.removed] at hr
    show Boxed s' x' y' m
    rw [hboxed]
    obtain ⟨hout, -⟩ | rfl := hor m hout
    · exact .inl (h.timers m hm hfd hr hout)
    · exact .inr rfl
  case free =>
    intro m hm hin
    obtain hin | rfl := (hboxed m).mp hin
    · exact h.free m hm.1 hin
    · exact hm.2 rfl
  case unborn =>
    intro m hm hin
    change s'.allocated ≤ m at hm
    rw [hframe.allocated] at hm
    obtain hin | rfl := (hboxed m).mp hin
    · exact h.unborn m hm hin
    · exact absurd hborn (Nat.not_lt.mpr hm)
  case clock =>
    show 0 < s'.clock.ns
    rw [hframe.clock]
    exact h.clock

/-- A new node is in no container and in no table. -/
theorem Inv.alloc (h : Inv s x y out) (k : Node) (hflag : k.inRbtree = false) :
    Inv (s.alloc k) x y fun m => out m ∨ m = s.allocated := by
  have hnot := h.unborn s.allocated (Nat.le_refl _)
  have hnode : ∀ m, Boxed s x y m → (s.alloc k).node m = s.node m := by
    intro m hm
    exact alloc_of_ne k fun heq => hnot (heq ▸ hm)
  constructor
  case boxes => exact h.boxes.alloc hflag hnot
  case armed =>
    intro m hm
    rw [hnode m (.inl hm)]
    exact h.armed m hm
  case positive =>
    intro m hm
    rw [hnode m (.inl hm)]
    exact h.positive m hm
  case deadline =>
    intro m t hm
    rw [not_or] at hm
    rw [alloc_of_ne k hm.2]
    exact h.deadline m t hm.1
  case table =>
    intro fd m hm
    obtain ⟨hborn, hfd, hdata, hin⟩ := h.table fd m hm
    rw [alloc_of_ne k (Nat.ne_of_lt hborn)]
    exact ⟨Nat.lt_succ_of_lt hborn, hfd, hdata, fun hout => hin fun ho => hout (.inl ho)⟩
  case timers =>
    intro m hm hfd hr hout
    rw [not_or] at hout
    rw [alloc_of_ne k hout.2] at hfd hr
    apply h.timers m _ hfd hr hout.1
    exact Nat.lt_of_le_of_ne (Nat.le_of_lt_succ hm) hout.2
  case free =>
    rintro m (hm | rfl)
    · exact h.free m hm
    · exact hnot
  case unborn => exact fun m hm => h.unborn m (Nat.le_of_succ_le hm)
  case clock => exact h.clock

/-- `place` puts a node that is out into a container. -/
theorem Inv.place {t : Option Timespec} (h : Inv s x y out) (hn : out n)
    (hborn : n < s.allocated) (hfits : Fits s x y t) (hpos : ∀ u, t = some u → 0 < u.ns) :
    ∃ x' y', Inv (place R s n t) x' y' (fun m => out m ∧ m ≠ n) ∧
      Boxed (place R s n t) x' y' n := by
  cases t with
  | none =>
    obtain rfl : y = none := hfits
    have hb := addTail_noTimeo_boxes h.boxes (h.free n hn)
    refine ⟨x, some n, ?_, .inr rfl⟩
    apply h.ofPlaced hn hborn (Frame.addTail .noTimeoList) hb h.armed
    · intro m
      simp only [Option.isSome_none, Bool.false_eq_true, and_false, or_false]
      exact Iff.rfl
    · intro m
      show Timed s x m ∨ some n = some m ↔ (Timed s x m ∨ none = some m) ∨ m = n
      simp only [Option.some.injEq, reduceCtorEq, or_false, eq_comm (a := n)]
    · intro u hu
      cases hu
  | some t =>
    have ht := hpos t rfl
    have h' := h.setTimeout hn t
    have hself : ((s.setNode n fun k => { k with timeout := t }).node n).timeout = t := by
      rw [State.setNode_self]
    have hfit : ∀ e, x = some e →
        ((s.setNode n fun k => { k with timeout := t }).node n).timeout.ns <
          ((s.setNode n fun k => { k with timeout := t }).node e).timeout.ns := by
      intro e he
      have hne : e ≠ n := by
        rintro rfl
        exact h.free e hn (.inl (.inl he))
      rw [hself, State.setNode_of_ne s _ hne]
      exact hfits e he
    obtain ⟨x', hb, harmed, htimed⟩ := insertNode_spec (R := R) h'.boxes (h'.free n hn) hfit
    refine ⟨x', y, ?_, .inl ((htimed n).mpr (.inr rfl))⟩
    apply h'.ofPlaced hn hborn (Frame.insertNode n) hb (harmed h'.armed (by rw [hself]; exact ht))
    · intro m
      simp only [htimed, Option.isSome_some, and_true]
    · intro m
      simp only [Boxed, htimed]
      exact or_right_comm
    · intro u hu
      obtain rfl := Option.some.inj hu
      exact ⟨hself, ht⟩

/-- What `place` leaves alone. -/
theorem place_keeps (t : Option Timespec) :
    (∀ m, ((place R s n t).node m).data = (s.node m).data) ∧ (place R s n t).nodes = s.nodes ∧
      (place R s n t).deadline = Function.update s.deadline n t := by
  cases t with
  | none => exact ⟨fun m => rfl, rfl, rfl⟩
  | some t =>
    have hframe : Frame (s.setNode n fun k => { k with timeout := t })
        (insertNode R (s.setNode n fun k => { k with timeout := t }) n) := Frame.insertNode n
    refine ⟨?_, hframe.nodes, ?_⟩
    · intro m
      show ((insertNode R _ n).node m).data = _
      rw [hframe.data]
      by_cases hm : m = n
      · rw [hm, State.setNode_self]
      · rw [State.setNode_of_ne s _ hm]
    · show Function.update (insertNode R _ n).deadline n (some t) = _
      rw [hframe.deadline]
      rfl

/-! ## The table -/

/-- A node of the containers gets an entry. -/
theorem Inv.install {fd : Fd} (h : Inv s x y out) (hborn : n < s.allocated) (hfd : 0 ≤ fd)
    (hdata : (s.node n).data.fd = fd) (hin : Boxed s x y n) :
    Inv (s.setEntry fd (some n)) x y out := by
  refine ⟨h.boxes.congr rfl rfl rfl rfl rfl rfl (fun _ _ => rfl) fun _ => rfl,
    h.armed, h.positive, h.deadline, ?_, h.timers, h.free, h.unborn, h.clock⟩
  intro fd' m hm
  change Function.update s.nodes fd (some n) fd' = some m at hm
  by_cases hfd' : fd' = fd
  · subst hfd'
    rw [Function.update_self] at hm
    obtain rfl := Option.some.inj hm
    exact ⟨hborn, hfd, hdata, fun _ => hin⟩
  · rw [Function.update_of_ne hfd'] at hm
    exact h.table fd' m hm

/-- An entry is cleared. -/
theorem Inv.clear (h : Inv s x y out) (fd : Fd) :
    Inv (s.setEntry fd none) x y out := by
  refine ⟨h.boxes.congr rfl rfl rfl rfl rfl rfl (fun _ _ => rfl) fun _ => rfl,
    h.armed, h.positive, h.deadline, ?_, h.timers, h.free, h.unborn, h.clock⟩
  intro fd' m hm
  change Function.update s.nodes fd none fd' = some m at hm
  by_cases hfd' : fd' = fd
  · subst hfd'
    rw [Function.update_self] at hm
    cases hm
  · rw [Function.update_of_ne hfd'] at hm
    exact h.table fd' m hm

/-- The node of an entry has no other. -/
theorem Inv.entry_unique {fd fd' : Fd} (h : Inv s x y out) (hn : s.nodes fd = some n)
    (hn' : s.nodes fd' = some n) : fd = fd' := by
  rw [← (h.table fd n hn).2.2.1, ← (h.table fd' n hn').2.2.1]

theorem Inv.setClock (h : Inv s x y out) {now : Timespec} (hpos : 0 < now.ns) :
    Inv { s with clock := now } x y out :=
  ⟨h.boxes.congr rfl rfl rfl rfl rfl rfl (fun _ _ => rfl) fun _ => rfl,
    h.armed, h.positive, h.deadline, h.table, h.timers, h.free, h.unborn, hpos⟩

/-- A node gets its result. -/
theorem Inv.takeOut (h : Inv s x y out) (n : NodeId) (state : PrState) :
    Inv (takeOut s n state) x y out := by
  have hstate := h.setNode (n := n) (f := fun k => { k with state := state })
    fun k => ⟨rfl, rfl, rfl, id⟩
  unfold Table.takeOut
  simp only
  split
  · exact hstate.queues _ _
  · have hremoved := hstate.setNode (n := n) (f := fun k => { k with removed := true })
      fun k => ⟨rfl, rfl, rfl, fun _ => rfl⟩
    exact hremoved.queues _ _

theorem takeOut_keeps (s : State) (n : NodeId) (state : PrState) :
    (∀ m, ((takeOut s n state).node m).data = (s.node m).data) ∧
      (takeOut s n state).nodes = s.nodes ∧ (takeOut s n state).allocated = s.allocated ∧
      (∀ m, ((takeOut s n state).node m).timeout = (s.node m).timeout) := by
  unfold Table.takeOut
  simp only
  split
  · refine ⟨?_, rfl, rfl, ?_⟩
    all_goals
      intro m
      simp only [State.setNode, Function.update_apply]
      split
      · next hm => rw [hm]
      · rfl
  · refine ⟨?_, rfl, rfl, ?_⟩
    all_goals
      intro m
      simp only [State.setNode, Function.update_apply]
      split
      · next hm => simp [hm]
      · rfl

end Invariant

/-- A new poller. -/
theorem inv_created (maxOpenFiles : Nat) (stopped : Bool) {clock : Timespec}
    (hclock : clock ≠ .zero) :
    Inv (State.created maxOpenFiles stopped clock) none none fun _ => False where
  boxes := boxes_created maxOpenFiles stopped clock
  armed := by
    rintro n (hn | hn)
    · cases hn
    · cases hn
  positive := by
    rintro n (hn | hn)
    · cases hn
    · cases hn
  deadline := by
    intro n t _
    constructor
    · intro h
      cases h
    · rintro ⟨hn | hn, -⟩
      · cases hn
      · cases hn
  table := by
    intro fd n hn
    cases hn
  timers := by
    intro n hn
    exact absurd hn (Nat.not_lt_zero n)
  free := by
    intro n hn
    exact hn.elim
  unborn := by
    rintro n - ((hn | hn) | hn)
    · cases hn
    · cases hn
    · cases hn
  clock := Timespec.ns_pos hclock

end WorkflowKernel.Poller.Table
