import WorkflowKernel.IoService.Refs

/-!
# Every accepted session is finished before the service is unbound

The last `decref` drains until the session list looks empty, so `handle_unbound` is right exactly
when an empty list means that no session is out. `list_add_tail` on a list that is not empty spoils
the list: of two sessions out, the second one takes the first out of the list when it finishes, and a
third one is never found. Under the condition that every accepted request finds the list empty, the
list holds the one session that waits, and all of the above holds.

## What is proved

- `Listed.step`: the list holds exactly the session that waits, and the drain waits for one.
- `finishes_of_appendsToEmpty`: in every run whose accepted requests all find an empty list, no
  session is finished twice, and `handle_unbound` comes once, behind every `handle`.
- `secondRequest_unbinds_early`: two requests, and the service is unbound with one of them still at
  the kernel.
-/

namespace WorkflowKernel.IoService

open WorkflowKernel.Transition WorkflowKernel.ListHead WorkflowKernel.Communicator

variable {S : Type} [DecidableEq S] {s t : State S} {o : Option S} {x y : S} {p q : Pc S}
  {e : Event S}

/-- The accepted request of a step, if it is one, finds the session list empty. -/
def appendsToEmpty (s : State S) : Label S → Bool
  | .request _ .submitted => decide (s.eventFd < 0) || listEmpty s.links .sessionList
  | _ => true

/-- `io_unbind` has been called and everything that follows from it has been done. -/
structure Settled (s : State S) : Prop where
  unbinding : s.unbinding = true
  registered : s.registered = false
  pipe : s.pipe = false
  poller : s.poller = .rest
  results : s.results = []
  threads : s.threads = []

/-- What a service promises its sessions, in every state of a run. -/
structure Finishes (s : State S) : Prop where
  /-- `handle()` is called at most once for each request that returned 0. -/
  once : ∀ x, s.handles x ≤ s.accepts x
  unbound_once : s.unbounds ≤ 1
  /-- `handle_unbound` comes after the last `handle()`. -/
  unbound_last : 0 < s.unbounds → ∀ x, s.handles x = s.accepts x
  /-- No call of `io_getevents` waits for an event that never comes. -/
  aio_awaited : ∀ cnt, s.poller = .event (cnt + 1) → s.completed ≠ []
  drain_awaited : .getevents ∈ s.threads → s.submitted ≠ [] ∨ s.completed ≠ []
  finished : Settled s → s.unbounds = 1 ∧ ∀ x, s.handles x = s.accepts x

/-- The session list holds the one session that waits. -/
structure Listed (s : State S) (o : Option S) : Prop where
  holds : Holds s.links .sessionList (o.map .session)
  waits : ∀ x, s.waits x = if o = some x then 1 else 0
  unbound : 0 < s.unbounds → o = none
  drain : .getevents ∈ s.threads → o ≠ none

/-- A step away from the list. -/
theorem Listed.of_same (h : Listed s o) (links : t.links = s.links)
    (waits : ∀ x, t.waits x = s.waits x) (unbounds : t.unbounds = s.unbounds)
    (drain : .getevents ∈ t.threads → .getevents ∈ s.threads) : Listed t o where
  holds := by
    rw [links]
    exact h.holds
  waits x := (waits x).trans (h.waits x)
  unbound := by
    rw [unbounds]
    exact h.unbound
  drain hmem := h.drain (drain hmem)

/-- A session that waits is the one in the list. -/
theorem Listed.eq_some (h : Listed s o) (hwaits : 0 < s.waits x) : o = some x := by
  rw [h.waits] at hwaits
  by_contra hne
  rw [if_neg hne] at hwaits
  exact absurd hwaits (Nat.lt_irrefl 0)

theorem waits_pos_of_completed {res : Int} (hy : (y, res) ∈ s.completed) : 0 < s.waits y := by
  have hpos : 0 < s.completed.countP fun e => e.1 = y :=
    List.countP_pos_iff.mpr ⟨(y, res), hy, decide_eq_true rfl⟩
  unfold State.waits
  omega

theorem waits_pos_of_listDel (hy : .listDel y ∈ s.threads) : 0 < s.waits y := by
  have hpos : 0 < s.threads.count (.listDel y) := List.count_pos_iff.mpr hy
  unfold State.waits
  omega

/-- A thread that holds a reference keeps the last `decref` away. -/
theorem Refs.not_draining (h : Refs s) (hp : p ∈ s.threads) (hholds : p.holds = true)
    (hq : q ∈ s.threads) : q ≠ .getevents := by
  rintro rfl
  have hnone := (h.quiet (h.closed hq (.inr rfl))).2
  have hpos : 0 < s.threads.countP Pc.holds := List.countP_pos_iff.mpr ⟨p, hp, hholds⟩
  unfold State.holders at hnone
  omega

omit [DecidableEq S] in
theorem mem_of_enter {l : List (Pc S)} (hmem : q ∈ p :: l) (hne : q ≠ p) : q ∈ l :=
  (List.mem_cons.mp hmem).resolve_left hne

theorem mem_of_move {l : List (Pc S)} {p' : Pc S} (hmem : q ∈ p' :: l.erase p) (hne : q ≠ p') :
    q ∈ l := List.mem_of_mem_erase (mem_of_enter hmem hne)

theorem unbounds_of_write (hne : e ≠ .unbound) : (s.write e).unbounds = s.unbounds := by
  rw [unbounds_write, if_neg hne, Nat.add_zero]

/-- A request that is accepted found the list empty and is the one session in it. -/
theorem Listed.accept (h : Listed s o) (hr : Refs s) (hfd : 0 ≤ s.eventFd)
    (hempty : listEmpty s.links .sessionList = true) : Listed (accept s y) (some y) := by
  have hnone : o = none := by
    have := h.holds.empty_iff.mp hempty
    simpa using this
  subst hnone
  have hlive : s.unbounds = 0 := by
    have hown : s.own = 1 := if_pos hfd
    have hlast := hr.last
    have href := hr.ref
    rw [if_neg (by omega)] at hlast
    omega
  refine ⟨h.holds.addTail (by simp), ?_, ?_, fun _ => Option.some_ne_none y⟩
  · intro x
    rw [waits_accept, h.waits x]
    simp
  · intro hpos
    have hunbounds : (IoService.accept s y).unbounds = s.unbounds :=
      unbounds_of_write (by simp)
    omega

/-- The handler's `list_del`. -/
theorem Listed.listDel (h : Listed s o) (hr : Refs s) (hy : .listDel y ∈ s.threads) :
    Listed (listDel s y) none := by
  have hsome := h.eq_some (waits_pos_of_listDel hy)
  subst hsome
  refine ⟨h.holds.delete, ?_, fun _ => rfl, ?_⟩
  · intro x
    have hwaits := h.waits x
    rw [waits_leave hy] at hwaits
    unfold IoService.listDel
    rw [waits_enter]
    change (s.leave (.listDel y)).waits x + _ = _
    simp only [Pc.listDel.injEq, Option.some.injEq, reduceCtorEq, if_false] at hwaits ⊢
    omega
  · intro hmem
    exact absurd rfl (hr.not_draining hy rfl (mem_of_move hmem (by simp)))

/-- The `list_delete` of the last `decref`. -/
theorem Listed.getevents {res : Int} (h : Listed s o) (hr : Refs s) (hp : .getevents ∈ s.threads)
    (hy : (y, res) ∈ s.completed) : Listed (getevents s y res) none := by
  have hsome := h.eq_some (waits_pos_of_completed hy)
  subst hsome
  obtain ⟨state, error, hcall⟩ := callHandle_eq (s.drained y res) y res
  have hmem : .getevents ∈ (s.drained y res).threads := hp
  unfold IoService.getevents
  rw [hcall]
  refine ⟨h.holds.delete, ?_, fun _ => rfl, ?_⟩
  · intro x
    have hwaits := h.waits x
    have hleave := waits_leave (x := x) hmem
    rw [waits_drained hy, hleave] at hwaits
    rw [waits_enter]
    change ((s.drained y res).leave .getevents).waits x + _ = _
    simp only [Option.some.injEq, reduceCtorEq, if_false] at hwaits ⊢
    omega
  · intro hagain
    -- the one thread in the last `decref` has left `io_getevents`
    have hagain : .getevents ∈ (s.leave .getevents).threads := mem_of_enter hagain (by simp)
    have hpos := List.count_pos_iff.mpr hagain
    have hdrains := drains_leave hp
    have hlast := hr.last
    rw [if_pos (.inr rfl)] at hdrains
    rw [if_pos (hr.closed hp (.inr rfl))] at hlast
    unfold State.drains at hdrains hlast
    omega

theorem Listed.eventFails {cnt n : Nat} {error : Errno} (h : Listed s o)
    (hp : s.poller = .event n) : Listed (eventFails s cnt error) o := by
  have hthreads := eventFails_threads s cnt error
  refine h.of_same ?_ (fun x => waits_eventFails hp) ?_ fun hmem => hthreads ▸ hmem
  · unfold IoService.eventFails
    split <;> rfl
  · unfold State.unbounds
    rw [eventFails_log]

/-- A request finds the list empty, or is refused. -/
theorem Listed.request {o' : Submit} (h : Listed s o) (hr : Refs s)
    (hok : appendsToEmpty s (.request y o') = true) : ∃ o, Listed (request s y o') o := by
  have hrefuse : ∀ error, Listed (refuse s y error) o := by
    intro error
    refine h.of_same rfl (fun x => rfl) ?_ id
    exact unbounds_of_write (by simp)
  unfold IoService.request
  split
  · exact ⟨o, hrefuse ENOENT⟩
  · next hfd =>
    cases o' with
    | submitted =>
      have hempty : listEmpty s.links .sessionList = true := by
        simpa [appendsToEmpty, hfd] using hok
      exact ⟨some y, h.accept hr (Int.not_lt.mp hfd) hempty⟩
    | failed error => exact ⟨o, hrefuse error⟩

/-- `io_getevents` on the poller thread leaves the session in the list. -/
theorem Listed.stepFinish {res : Int} (h : Listed s o) (hstep : stepFinish s y res = some t) :
    Listed t o := by
  unfold IoService.stepFinish at hstep
  split at hstep
  · next cnt hp =>
    split at hstep
    · next hy =>
      cases hstep
      exact h.of_same rfl (fun x => waits_aioFinish hp hy) rfl id
    · cases hstep
  · cases hstep

theorem Listed.stepFinished (h : Listed s o) (hstep : stepFinished s = some t) : Listed t o := by
  unfold IoService.stepFinished at hstep
  split at hstep
  · next cnt y res hp =>
    cases hstep
    exact h.of_same rfl (fun x => waits_aioFinished hp) rfl id
  · cases hstep

/-- The poller thread leaves `__poller_handle_event` because `io_getevents` failed. -/
theorem Listed.stepNull {error : Errno} (h : Listed s o) (hstep : stepNull s error = some t) :
    Listed t o := by
  unfold IoService.stepNull at hstep
  split at hstep
  · next cnt hp =>
    cases hstep
    exact h.eventFails hp
  · cases hstep

theorem Listed.stepFails {error : Errno} (h : Listed s o) (hstep : stepFails s error = some t) :
    Listed t o := by
  unfold IoService.stepFails at hstep
  split at hstep
  · next cnt hp =>
    cases hstep
    exact h.eventFails hp
  · cases hstep

theorem Listed.ioUnbind (h : Listed s o) : Listed (ioUnbind s) o := by
  unfold IoService.ioUnbind
  split
  · exact h.of_same rfl (fun x => rfl) rfl id
  · exact h.of_same rfl (fun x => waits_enter) rfl (mem_of_enter · (by simp))

/-- The session of a result goes with it to the handler that takes it. -/
theorem Listed.take {r : Result S} (h : Listed s o) (hres : r ∈ s.results) :
    Listed (take s r) o := by
  have hwaits := fun x => waits_taken (x := x) hres
  cases r with
  | success y =>
    refine h.of_same rfl (fun x => ?_) rfl (mem_of_enter · (by simp))
    show ((s.taken _).enter _).waits x = s.waits x
    rw [waits_enter, hwaits]
    simp
  | deleted =>
    refine h.of_same rfl (fun x => ?_) rfl (mem_of_enter · (by simp))
    show ((s.taken _).enter _).waits x = s.waits x
    rw [waits_enter, hwaits]
    simp
  | error error | stopped error =>
    refine h.of_same rfl (fun x => ?_) (unbounds_of_write (by simp)) id
    show (s.taken _).waits x = s.waits x
    rw [hwaits]
    simp

/-- A thread that is not at a `list_del` holds no session of the list. -/
theorem waits_leave_of_ne (hp : p ∈ s.threads) (hne : ∀ x, p ≠ .listDel x) :
    (s.leave p).waits x = s.waits x := by
  rw [waits_leave hp, if_neg (hne x), Nat.add_zero]

/-- `handle_aio_result` calls `handle`, behind the section with the `list_del`. -/
theorem Listed.handle (h : Listed s o) (hy : .handle y ∈ s.threads) : Listed (handle s y) o := by
  obtain ⟨state, error, hcall⟩ := callHandle_eq s y (s.res y)
  unfold IoService.handle
  rw [hcall]
  refine h.of_same rfl (fun x => ?_) ?_ fun hmem => mem_of_move hmem (by simp)
  · rw [waits_enter]
    exact waits_leave_of_ne hy (by simp)
  · exact unbounds_of_write (by simp)

theorem Listed.shutdown (h : Listed s o) (hp : .shutdown ∈ s.threads) : Listed (shutdown s) o := by
  unfold IoService.shutdown
  refine h.of_same rfl (fun x => ?_) rfl fun hmem => mem_of_move hmem (by simp)
  rw [waits_enter]
  exact waits_leave_of_ne hp (by simp)

theorem Listed.decref (h : Listed s o) (hp : .decref ∈ s.threads) : Listed (decref s) o := by
  have hleave : ∀ x, (s.leave .decref).waits x = s.waits x :=
    fun x => waits_leave_of_ne hp (by simp)
  unfold IoService.decref
  split
  · refine h.of_same rfl (fun x => ?_) rfl fun hmem => mem_of_move hmem (by simp)
    rw [waits_enter]
    exact hleave x
  · exact h.of_same rfl hleave rfl List.mem_of_mem_erase

/-- The last `decref` unbinds when no session is out, and goes for an event when one is. -/
theorem Listed.drains (h : Listed s o) (hp : .drain ∈ s.threads) : Listed (IoService.drain s) o := by
  have hleave : ∀ x, (s.leave .drain).waits x = s.waits x :=
    fun x => waits_leave_of_ne hp (by simp)
  unfold IoService.drain
  split
  · next hempty =>
    have hnone : o = none := by simpa using h.holds.empty_iff.mp hempty
    exact ⟨h.holds, fun x => (hleave x).trans (h.waits x), fun _ => hnone,
      fun hmem => h.drain (List.mem_of_mem_erase hmem)⟩
  · next hfull =>
    refine ⟨h.holds, fun x => ?_, h.unbound, fun _ hnone => hfull ?_⟩
    · rw [waits_enter]
      exact (hleave x).trans (h.waits x)
    · exact h.holds.empty_iff.mpr (by rw [hnone]; rfl)

/-- Every step that the condition admits keeps the list. -/
theorem Listed.step {l : Label S} (h : Listed s o) (hr : Refs s) (hok : appendsToEmpty s l = true)
    (hstep : step s l = some t) : ∃ o, Listed t o := by
  cases l with
  | request y o' =>
    obtain ⟨-, rfl⟩ := guarded_eq_some hstep
    exact h.request hr hok
  | complete y res =>
    obtain ⟨hy, rfl⟩ := guarded_eq_some hstep
    exact ⟨o, h.of_same rfl (fun x => waits_complete hy) rfl id⟩
  | readEvent =>
    obtain ⟨⟨-, hrest⟩, rfl⟩ := guarded_eq_some hstep
    exact ⟨o, h.of_same rfl (fun x => waits_readEvent hrest) rfl id⟩
  | aioFinish y res => exact ⟨o, h.stepFinish hstep⟩
  | aioFinished => exact ⟨o, h.stepFinished hstep⟩
  | eventEnds =>
    obtain ⟨hp, rfl⟩ := guarded_eq_some hstep
    exact ⟨o, h.of_same rfl (fun x => waits_eventEnds hp) rfl id⟩
  | aioFinishNull error => exact ⟨o, h.stepNull hstep⟩
  | eventFails error => exact ⟨o, h.stepFails hstep⟩
  | handlePipe =>
    obtain ⟨-, rfl⟩ := guarded_eq_some hstep
    exact ⟨o, h.of_same rfl (waits_handlePipe s) rfl id⟩
  | pollerStop error =>
    obtain ⟨-, rfl⟩ := guarded_eq_some hstep
    exact ⟨o, h.of_same rfl (fun x => waits_endRegistration rfl) rfl id⟩
  | ioUnbind =>
    obtain ⟨-, rfl⟩ := guarded_eq_some hstep
    exact ⟨o, h.ioUnbind⟩
  | take r =>
    obtain ⟨hres, rfl⟩ := guarded_eq_some hstep
    exact ⟨o, h.take hres⟩
  | listDel y =>
    obtain ⟨hy, rfl⟩ := guarded_eq_some hstep
    exact ⟨none, h.listDel hr hy⟩
  | handle y =>
    obtain ⟨hy, rfl⟩ := guarded_eq_some hstep
    exact ⟨o, h.handle hy⟩
  | shutdown =>
    obtain ⟨hp, rfl⟩ := guarded_eq_some hstep
    exact ⟨o, h.shutdown hp⟩
  | decref =>
    obtain ⟨hp, rfl⟩ := guarded_eq_some hstep
    exact ⟨o, h.decref hp⟩
  | drain =>
    obtain ⟨hp, rfl⟩ := guarded_eq_some hstep
    exact ⟨o, h.drains hp⟩
  | getevents y res =>
    obtain ⟨⟨hp, hy⟩, rfl⟩ := guarded_eq_some hstep
    exact ⟨none, h.getevents hr hp hy⟩

/-! ## The promise -/

theorem bound_refs (mem : Links (Cell S)) (res : S → Int) {eventFd : Int} (hfd : 0 ≤ eventFd) :
    Refs (State.bound mem res eventFd) := by
  have hown : (State.bound mem res eventFd).own = 1 := if_pos hfd
  refine ⟨?_, ?_, fun _ => rfl, .inl rfl, fun _ => Nat.le_refl 0, rfl⟩
  · rw [hown]
    rfl
  · rw [hown]
    rfl

theorem bound_listed (mem : Links (Cell S)) (res : S → Int) (eventFd : Int) :
    Listed (State.bound mem res eventFd) none :=
  ⟨listInit_holds mem _, fun _ => rfl, fun _ => rfl, fun hmem => absurd hmem List.not_mem_nil⟩

/-- What the invariants add up to. -/
structure Kept (s : State S) : Prop where
  lost : ∀ x, s.lost x = 0
  refs : Refs s
  listed : ∃ o, Listed s o

theorem kept (h : (system S).Reaches (fun s l => appendsToEmpty s l = true) s) : Kept s := by
  apply InductiveInvariant.holds (I := Kept) _ h
  constructor
  case init =>
    rintro s ⟨mem, res, eventFd, hfd, rfl⟩
    exact ⟨fun x => rfl, bound_refs mem res hfd, none, bound_listed mem res eventFd⟩
  case step =>
    rintro s l t ⟨hlost, hrefs, o, hlisted⟩ hok hstep
    exact ⟨fun x => (lost_step hstep x).trans (hlost x), hrefs.step hstep,
      hlisted.step hrefs hok hstep⟩

/-- Without references, no session is with the poller or with a handler. -/
theorem Refs.waits_kernel (h : Refs s) (href : s.ref = 0) (x : S) :
    s.waits x = s.submitted.count x + s.completed.countP (fun e => e.1 = x) ∧
      s.threads.count (.handle x) = 0 := by
  obtain ⟨hown, hnone⟩ := h.quiet href
  have hrest : s.poller = .rest := by
    by_contra hbusy
    have := h.own_of_busy hbusy
    omega
  have hresults : s.results.count (.success x) = 0 := by
    by_contra hne
    have hmem := List.count_pos_iff.mp (Nat.pos_of_ne_zero hne)
    have hpos : 0 < s.results.countP Result.holds := List.countP_pos_iff.mpr ⟨_, hmem, rfl⟩
    unfold State.holders at hnone
    omega
  have hthreads : ∀ p : Pc S, p.holds = true → s.threads.count p = 0 := by
    intro p hp
    by_contra hne
    have hmem := List.count_pos_iff.mp (Nat.pos_of_ne_zero hne)
    have hpos : 0 < s.threads.countP Pc.holds := List.countP_pos_iff.mpr ⟨p, hmem, hp⟩
    unfold State.holders at hnone
    omega
  refine ⟨?_, hthreads (.handle x) rfl⟩
  unfold State.waits
  rw [hrest, hresults, hthreads (.listDel x) rfl]
  rfl

/-- Once `handle_unbound` has been called every session is finished. -/
theorem Kept.unbound (h : Kept s) (hunbound : 0 < s.unbounds) (x : S) :
    s.handles x = s.accepts x := by
  obtain ⟨o, hlisted⟩ := h.listed
  have href : s.ref = 0 := by
    have hlast := h.refs.last
    split at hlast
    · assumption
    · omega
  have hwaits := hlisted.waits x
  rw [hlisted.unbound hunbound, if_neg (Option.some_ne_none x).symm] at hwaits
  have hhandles := (h.refs.waits_kernel href x).2
  have hlost := h.lost x
  unfold State.lost State.owed at hlost
  omega

/-- In every run whose accepted requests find the session list empty, each session is finished
exactly once and `handle_unbound` is called once, after all of them. -/
theorem finishes_of_appendsToEmpty
    (h : (system S).Reaches (fun s l => appendsToEmpty s l = true) s) : Finishes s := by
  have hkept := kept h
  obtain ⟨o, hlisted⟩ := hkept.listed
  have hlast := hkept.refs.last
  refine ⟨?once, ?unbound_once, hkept.unbound, ?aio_awaited, ?drain_awaited, ?finished⟩
  case once =>
    intro x
    have hlost := hkept.lost x
    unfold State.lost at hlost
    omega
  case unbound_once =>
    split at hlast <;> omega
  case aio_awaited =>
    intro cnt hp hnil
    have hown : s.own = 1 := hkept.refs.own_of_busy (by simp [hp])
    have hfd : 0 ≤ s.eventFd := by
      by_contra hneg
      rw [State.own, if_neg hneg] at hown
      cases hown
    have hcounted := hkept.refs.counted hfd
    rw [hp, hnil] at hcounted
    change s.eventCnt + (cnt + 1) ≤ 0 at hcounted
    omega
  case drain_awaited =>
    intro hmem
    by_contra hnone
    obtain ⟨hsub, hcomp⟩ := not_or.mp hnone
    obtain ⟨x, rfl⟩ := Option.ne_none_iff_exists'.mp (hlisted.drain hmem)
    have hwaits := hlisted.waits x
    rw [if_pos rfl] at hwaits
    have hkernel := (hkept.refs.waits_kernel (hkept.refs.closed hmem (.inr rfl)) x).1
    rw [not_not.mp hsub, not_not.mp hcomp, hwaits] at hkernel
    cases hkernel
  case finished =>
    intro hs
    have hown : s.own = 0 := by
      rw [← hkept.refs.owners]
      unfold State.owners
      rw [hs.registered, hs.pipe, hs.results, hs.threads, hs.unbinding]
      rfl
    have hholders : s.holders = 0 := by
      unfold State.holders
      rw [hs.results, hs.threads]
      rfl
    have hdrains : s.drains = 0 := by
      unfold State.drains
      rw [hs.threads]
      rfl
    have href := hkept.refs.ref
    rw [if_pos (by omega), hdrains, Nat.zero_add] at hlast
    exact ⟨hlast, hkept.unbound (by omega)⟩

/-- A service with descriptor 3, its memory cleared. -/
def boundThree : State Nat := State.bound ⟨id, id⟩ (fun _ => 0) 3

/-- The session comes back from the kernel and through the queue. -/
def roundTrip (x : Nat) (res : Int) : List (Label Nat) :=
  [.complete x res, .readEvent, .aioFinish x res, .aioFinished, .eventEnds, .take (.success x),
    .listDel x, .handle x, .decref]

/-- `io_unbind` up to the last `decref`. -/
def unbind : List (Label Nat) := [.ioUnbind, .handlePipe, .take .deleted, .shutdown, .decref, .drain]

theorem finishes_of_appendsToEmpty_run :
    ∃ s, (system Nat).Reaches (fun s l => appendsToEmpty s l = true) s ∧ s.unbounds = 1 ∧
      s.accepts 0 = 2 ∧ Finishes s := by
  have hrun : ((system Nat).runIf appendsToEmpty boundThree
      ([.request 0 .submitted] ++ roundTrip 0 7 ++ [.request 0 .submitted, .complete 0 (-5)] ++
        unbind ++ [.getevents 0 (-5), .drain])).map (fun s => (s.unbounds, s.accepts 0)) =
        some (1, 2) := by
    decide +kernel
  obtain ⟨s, hs, hlog⟩ := Option.map_eq_some_iff.mp hrun
  simp only [Prod.mk.injEq] at hlog
  have hreach : (system Nat).Reaches (fun s l => appendsToEmpty s l = true) s :=
    System.reaches_of_runIf (fun _ _ h => h) ⟨_, _, 3, by decide, rfl⟩ hs
  exact ⟨s, hreach, hlog.1, hlog.2, finishes_of_appendsToEmpty hreach⟩

/-- Two sessions are out, the second one finishes first and empties the list: the service is unbound
while the kernel still has the first one. -/
theorem secondRequest_unbinds_early : ∃ s, (system Nat).Reachable s ∧ s.unbounds = 1 ∧
    s.accepts 0 = 1 ∧ s.handles 0 = 0 ∧ ¬ Finishes s := by
  have hrun : ((system Nat).run boundThree
      ([.request 0 .submitted, .request 1 .submitted] ++ roundTrip 1 7 ++ unbind)).map
        (fun s => (s.unbounds, s.accepts 0, s.handles 0)) = some (1, 1, 0) := by
    decide +kernel
  obtain ⟨s, hs, hlog⟩ := Option.map_eq_some_iff.mp hrun
  simp only [Prod.mk.injEq] at hlog
  obtain ⟨hunbounds, haccepts, hhandles⟩ := hlog
  have hreach := System.reachable_of_run (M := system Nat) ⟨_, _, 3, by decide, rfl⟩ hs
  refine ⟨s, hreach, hunbounds, haccepts, hhandles, fun h => ?_⟩
  have hall := h.unbound_last (by omega) 0
  omega

end WorkflowKernel.IoService
