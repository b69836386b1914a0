import WorkflowKernel.MsgQueue.Fifo

/-!
# The bound and the non-blocking flag

A put waits at the bound while the flag is clear; `msgqueue_put_head` tests the flag the other way
round and waits at the bound while it is set. So a head put at the bound goes past it in blocking
mode and waits in non-blocking mode. `Roomy` is the condition that no head put tests its bound when
it is reached, and that no `try_lock` of a head put is refused for the sake of another thread, which
lets a second getter in behind the first.

## What is proved

- `disciplined_of_roomy`: in every such run the counter keeps to the bound until
  `msgqueue_set_nonblock` is called, and nobody waits once it is in force.
- `headPut_passes_bound`, `headPut_waits`: the two ways a head put at the bound goes wrong.
- `secondGetter_waits`: how a refused `try_lock` leaves a getter waiting.
-/

namespace WorkflowKernel.MsgQueue

open WorkflowKernel.Transition

variable {Tid : Type} [DecidableEq Tid]

/-- No head put tests the bound when it is reached, or goes on without `get_mutex`. -/
def Roomy (s : State Tid) (a : Label Tid) : Prop :=
  Guarded s a ∧ ∀ t woken msg, a = .step t woken → s.pc t = .headBody msg → s.msgCnt ≠ s.msgMax

/-- The same condition, as a check that runs. -/
def roomyB (s : State Tid) (a : Label Tid) : Bool :=
  guardedB s a &&
    match a with
    | .step t _ =>
      match s.pc t with
      | .headBody _ => s.msgCnt ≠ s.msgMax
      | _ => true
    | _ => true

theorem roomy_of_check (s : State Tid) (a : Label Tid) (h : roomyB s a = true) : Roomy s a := by
  simp only [roomyB, Bool.and_eq_true] at h
  refine ⟨guarded_of_check s a h.1, ?_⟩
  rintro t woken msg rfl hpc
  simpa [hpc] using h.2

/-! ## What holds along a run -/

/-- Nobody is parked. -/
def NoneParked (c : Control Tid) : Prop := ∀ u, ¬ (c.pc u).Parked

/-- The flag was never set, and the counter keeps to the bound. -/
structure Below (c : Control Tid) : Prop where
  blocks : c.nonblock = false
  bound : c.msgCnt ≤ c.msgMax
  noStore : ∀ u, c.pc u ≠ .nonblockStore

section Step

variable {c c' : Control Tid} {t : Tid}

omit [DecidableEq Tid] in
/-- An awake thread is not parked. -/
theorem not_parked {pc : Pc} (h : pc.parkedGet = false ∧ pc.parkedPut = false) : ¬ pc.Parked := by
  rintro (hpc | hpc)
  · rw [h.1] at hpc
    cases hpc
  · rw [h.2] at hpc
    cases hpc

/-- What the condition says of the control. -/
def HeadRoom (c : Control Tid) (t : Tid) : Prop :=
  ∀ msg, c.pc t = .headBody msg → c.msgCnt ≠ c.msgMax

theorem wake_eq_nonblock {pc : Pc} : (pc.wake = .nonblockStore ↔ pc = .nonblockStore) ∧
    (pc.wake = .nonblockUnlock ↔ pc = .nonblockUnlock) := by
  cases pc <;> simp [Pc.wake]

/-- Where the flag is stored from is reached by a call only. -/
theorem Effect.nonblockStore {u : Tid} (he : Effect c t c')
    (hcall : c.pc t = .idle → c'.pc t ≠ .nonblockStore) (hu : c'.pc u = .nonblockStore) :
    c.pc u = .nonblockStore := by
  by_cases hut : u = t
  · subst hut
    cases he with
    | enters call fresh idle => exact absurd hu (hcall idle)
    | goes pc calm =>
      simp only [Control.goto, Function.update_self] at hu
      exact absurd hu calm.flag.2.2.2
    | notifies pc here stays notified after =>
      simp only [Control.goto, Function.update_self] at hu
      obtain rfl | ⟨msg, rfl⟩ := after
      · cases hu
      · cases hu
    | wakesGet => simpa [Control.wakeGet, wake_eq_nonblock.1] using hu
    | wakesPut => simpa [Control.wakePut, wake_eq_nonblock.1] using hu
    | _ =>
      simp only [Control.goto, Function.update_self] at hu
      cases hu
  · obtain hsame | hwoken := he.others hut
    · rwa [hsame] at hu
    · rwa [hwoken, wake_eq_nonblock.1] at hu

/-- The end of `msgqueue_set_nonblock` is reached by notifying everyone. -/
theorem Effect.nonblockUnlock {u : Tid} (he : Effect c t c') (hu : c'.pc u = .nonblockUnlock) :
    c.pc u = .nonblockUnlock ∨ (u = t ∧ c.pc t = .nonblockNotify) := by
  by_cases hut : u = t
  · subst hut
    cases he with
    | enters call fresh idle =>
      simp only [Control.goto, Function.update_self] at hu
      cases call <;> cases hu
    | goes pc calm =>
      simp only [Control.goto, Function.update_self] at hu
      exact absurd hu calm.flag.2.2.1
    | notifies pc here stays notified after =>
      simp only [Control.goto, Function.update_self] at hu
      obtain rfl | ⟨msg, rfl⟩ := after
      · cases hu
      · cases hu
    | sets here => exact .inr ⟨rfl, here⟩
    | wakesGet => exact .inl (by simpa [Control.wakeGet, wake_eq_nonblock.2] using hu)
    | wakesPut => exact .inl (by simpa [Control.wakePut, wake_eq_nonblock.2] using hu)
    | _ =>
      simp only [Control.goto, Function.update_self] at hu
      cases hu
  · left
    obtain hsame | hwoken := he.others hut
    · rwa [hsame] at hu
    · rwa [hwoken, wake_eq_nonblock.2] at hu

/-- Until the flag is set the counter keeps to the bound. -/
theorem Below.step (h : Below c) (he : Effect c t c') (hroom : HeadRoom c t)
    (hcall : c.pc t = .idle → c'.pc t ≠ .nonblockStore) : Below c' where
  blocks := he.blocks (h.noStore t) h.blocks
  bound := by
    rw [he.msgMax_eq]
    obtain hle | ⟨hcnt, ⟨msg, here, room⟩ | ⟨msg, here⟩⟩ := he.msgCnt_cases
    · exact Nat.le_trans hle h.bound
    · rw [hcnt]
      exact Nat.lt_of_le_of_ne h.bound fun heq => room ⟨heq, h.blocks⟩
    · rw [hcnt]
      exact Nat.lt_of_le_of_ne h.bound (hroom msg here)
  noStore u hu := h.noStore u (he.nonblockStore hcall hu)

/-- The flag is set and nobody is parked. -/
structure Free (c : Control Tid) : Prop where
  flag : c.nonblock = true
  none : NoneParked c

/-- While the flag is set nobody parks. -/
theorem Free.step (h : Free c) (he : Effect c t c') (hroom : HeadRoom c t)
    (hclear : c.pc t ≠ .blockStore) : Free c' where
  flag := he.keepsFlag hclear h.flag
  none := by
    rintro u (hu | hu)
    · obtain hold | ⟨-, ⟨getHead, here, empty, blocks⟩⟩ := he.parkedGet hu
      · exact h.none u (.inl hold)
      · rw [h.flag] at blocks
        cases blocks
    · obtain hold | ⟨-, ⟨msg, here, full, blocks⟩ | ⟨msg, here, full, blocks⟩⟩ := he.parkedPut hu
      · exact h.none u (.inr hold)
      · rw [h.flag] at blocks
        cases blocks
      · exact hroom msg here full

/-- At most one thread holds `put_mutex`. -/
def OnePutter (c : Control Tid) : Prop :=
  ∀ t u, (c.pc t).holdsPut = true → (c.pc u).holdsPut = true → t = u

/-- Whoever parks holds `put_mutex` before, and is not at the end of `msgqueue_set_nonblock`. -/
theorem parked_step {u : Tid} (he : Effect c t c') (hu : (c'.pc u).Parked) :
    (c.pc u).Parked ∨ ((c.pc t).holdsPut = true ∧ c.pc t ≠ .nonblockUnlock) := by
  obtain hu | hu := hu
  · obtain hold | ⟨-, ⟨getHead, here, -, -⟩⟩ := he.parkedGet hu
    · exact .inl (.inl hold)
    · rw [here]
      exact .inr ⟨rfl, by simp⟩
  · obtain hold | ⟨-, ⟨msg, here, -, -⟩ | ⟨msg, here, -, -⟩⟩ := he.parkedPut hu
    · exact .inl (.inr hold)
    · rw [here]
      exact .inr ⟨rfl, by simp⟩
    · rw [here]
      exact .inr ⟨rfl, by simp⟩

/-- `msgqueue_set_nonblock` notifies everyone that is parked, and leaves `put_mutex` before anyone
can park again. -/
theorem unlocking_step (h : ∀ u, c.pc u = .nonblockUnlock → NoneParked c) (hw : Waits c)
    (hget : OneGetter c) (hput : OnePutter c) (he : Effect c t c') :
    ∀ u, c'.pc u = .nonblockUnlock → NoneParked c' := by
  intro u hu
  obtain hold | ⟨rfl, here⟩ := he.nonblockUnlock hu
  · intro v hv
    obtain hv | ⟨hholds, hne⟩ := parked_step he hv
    · exact h u hold v hv
    · have hut : u = t := hput u t (by rw [hold]; rfl) hholds
      exact hne (hut ▸ hold)
  · cases he with
    | @sets c₁ here notified =>
      have hwaits := hw.notified notified
      intro v hv
      by_cases hvu : v = u
      · subst hvu
        simp only [Control.goto, Function.update_self] at hv
        exact not_parked ⟨rfl, rfl⟩ hv
      · simp only [Control.goto, Function.update_of_ne hvu] at hv
        obtain hv | hv := hv
        · obtain hsame | hwoken := woken_wakeAllPut c₁ v
          · rw [hsame, notified.nobodyLeft hw hget] at hv
            cases hv
          · rw [hwoken, parkedGet_wake] at hv
            cases hv
        · rw [wakeAllPut_nobody hwaits] at hv
          cases hv
    | goes pc calm =>
      simp only [Control.goto, Function.update_self] at hu
      exact absurd hu calm.flag.2.2.1
    | enters call fresh idle =>
      rw [idle] at here
      cases here
    | notifies pc notifying =>
      rw [here] at notifying
      cases notifying
    | wakesGet waits =>
      rw [hw.get, here] at waits
      cases waits
    | wakesPut waits =>
      rw [hw.put, here] at waits
      cases waits
    | _ =>
      simp only [Control.goto, Function.update_self] at hu
      cases hu

end Step

/-! ## Every run -/

/-- The bound holds until `msgqueue_set_nonblock` is called; nobody waits once it is in force. -/
structure Disciplined (r : Traced Tid) : Prop where
  bound : r.nonblockCalled = false → r.queue.msgCnt ≤ r.queue.msgMax
  free : r.nonblockInForce = true → ∀ t, ¬ (r.queue.pc t).Parked

/-- The invariant behind it. -/
structure Capacity (r : Traced Tid) : Prop where
  waits : Waits r.queue.control
  buffers : ∃ gl pl, Inv r.queue gl pl
  below : r.nonblockCalled = false → Below r.queue.control
  unlocking : ∀ u, r.queue.pc u = .nonblockUnlock → NoneParked r.queue.control
  force : r.nonblockInForce = true → Free r.queue.control

section Runs

variable {r : Traced Tid} {s : State Tid} {a : Label Tid}

omit [DecidableEq Tid] in
theorem Inv.onePutter {gl pl : List Msg} (hi : Inv s gl pl) : OnePutter s.control := by
  intro t u ht hu
  exact Option.some.inj (((hi.threads t).put ht).symm.trans ((hi.threads u).put hu))

/-- A thread comes to store the flag by a call. -/
theorem nonblockStore_of_idle (hstep : step r.queue a = some s)
    (hidle : r.queue.pc a.thread = .idle) (hcall : a.callsNonblock = false) :
    s.pc a.thread ≠ .nonblockStore := by
  obtain ⟨call, ha, hpc⟩ | hpc := step_of_idle hstep hidle
  · rw [hpc]
    cases call with
    | setNonblock =>
      rw [ha] at hcall
      cases hcall
    | _ => simp [Call.start]
  · rw [hpc]
    simp

omit [DecidableEq Tid] in
/-- When a `msgqueue_set_nonblock` is in force after a step, it was before, or it ends here. -/
theorem inForceAfter_cases (h : r.inForceAfter a = true) :
    (r.nonblockInForce = true ∧ ∀ t woken, a = .step t woken → r.queue.pc t ≠ .blockStore) ∨
      ∃ t woken, a = .step t woken ∧ r.queue.pc t = .nonblockUnlock ∧ r.queue.nonblock = true := by
  cases a with
  | step t woken =>
    simp only [Traced.inForceAfter] at h
    split at h
    · next hpc => exact .inr ⟨t, woken, rfl, hpc, h⟩
    · cases h
    · next hpc =>
      left
      refine ⟨h, ?_⟩
      rintro u woken' heq
      cases heq
      exact hpc
  | call t call => exact .inl ⟨h, fun _ _ heq => by cases heq⟩
  | spurious t => exact .inl ⟨h, fun _ _ heq => by cases heq⟩

/-- The thread of a step that is not its own was parked or outside. -/
theorem awake_label (hw : Waits r.queue.control) (hstep : MsgQueue.step r.queue a = some s) :
    (∃ woken, a = .step a.thread woken) ∨ r.queue.pc a.thread = .idle ∨
      (r.queue.pc a.thread).Parked := by
  cases a with
  | step t woken => exact .inl ⟨woken, rfl⟩
  | call t call =>
    simp only [MsgQueue.step] at hstep
    split at hstep
    · next hidle => exact .inr (.inl hidle)
    · cases hstep
  | spurious t =>
    simp only [MsgQueue.step, wakeSpuriously] at hstep
    right
    right
    split at hstep
    · next hget => exact .inl ((hw.get t).mp hget)
    · split at hstep
      · next hput => exact .inr ((hw.put t).mp hput)
      · cases hstep

/-- What the condition on a step says of its thread. -/
theorem headRoom_of_roomy (hw : Waits r.queue.control) (hroomy : Roomy r.queue a)
    (hstep : MsgQueue.step r.queue a = some s) : HeadRoom r.queue.control a.thread := by
  intro msg here
  change r.queue.pc a.thread = .headBody msg at here
  obtain ⟨woken, ha⟩ | hidle | hparked := awake_label hw hstep
  · exact hroomy.2 a.thread woken msg ha here
  · rw [here] at hidle
    cases hidle
  · rw [here] at hparked
    exact absurd hparked (not_parked ⟨rfl, rfl⟩)

theorem Capacity.step (h : Capacity r) (hroomy : Roomy r.queue a)
    (hstep : MsgQueue.step r.queue a = some s) : Capacity (r.log s a) := by
  obtain ⟨gl, pl, hi⟩ := h.buffers
  have he := effect_of_step hstep
  have hroom := headRoom_of_roomy h.waits hroomy hstep
  constructor
  case waits => exact h.waits.step he
  case buffers => exact inv_step hi hroomy.1 hstep
  case below =>
    intro hcalled
    obtain ⟨hbefore, hcall⟩ := Bool.or_eq_false_iff.mp hcalled
    exact (h.below hbefore).step he hroom fun hidle => nonblockStore_of_idle hstep hidle hcall
  case unlocking => exact unlocking_step h.unlocking h.waits hi.oneGetter hi.onePutter he
  case force =>
    intro hforce
    obtain ⟨hbefore, hclear⟩ | ⟨t, woken, rfl, hunlock, hflag⟩ := inForceAfter_cases hforce
    · have hfree := h.force hbefore
      apply hfree.step he hroom
      obtain ⟨woken, ha⟩ | hidle | hparked := awake_label h.waits hstep
      · exact hclear _ woken ha
      · intro hpc
        rw [show r.queue.pc a.thread = .blockStore from hpc] at hidle
        cases hidle
      · exact absurd hparked (hfree.none a.thread)
    · have hfree : Free r.queue.control := ⟨hflag, h.unlocking t hunlock⟩
      apply hfree.step he hroom
      intro hpc
      rw [show r.queue.pc t = .blockStore from hpc] at hunlock
      cases hunlock

end Runs

theorem inductive_capacity (bound : Nat → Prop) :
    InductiveInvariant (traced Tid bound) (fun r a => Roomy r.queue a) Capacity where
  init := by
    rintro r ⟨maxlen, -, rfl⟩
    refine ⟨waits_create maxlen, ⟨[], [], inv_create maxlen⟩, ?_, ?_, ?_⟩
    · intro _
      exact ⟨rfl, Nat.zero_le _, fun u hu => by cases hu⟩
    · intro u hu
      cases hu
    · intro hforce
      cases hforce
  step := by
    rintro r a r' h hroomy hstep
    obtain ⟨s, hs, rfl⟩ := Traced.step_eq hstep
    exact h.step hroomy hs

/-- In every run in which no head put tests the bound when it is reached, or goes on without
`get_mutex`, the counter keeps to the bound until the queue is made non-blocking, and then nobody
waits. -/
theorem disciplined_of_roomy {r : Traced Tid}
    (h : (traced Tid fun maxlen => 1 ≤ maxlen).Reaches (fun r a => Roomy r.queue a) r) :
    Disciplined r := by
  have hcapacity := (inductive_capacity _).holds h
  exact ⟨fun hcalled => (hcapacity.below hcalled).bound, fun hforce => (hcapacity.force hforce).none⟩

/-! ## Runs -/

/-- A put fills the queue and a second one waits; the queue is made non-blocking, and the second put
goes past the bound. -/
theorem disciplined_of_roomy_run : ∃ r, (traced Nat fun maxlen => 1 ≤ maxlen).Reaches
    (fun r a => Roomy r.queue a) r ∧ r.nonblockInForce = true ∧ r.queue.msgCnt = 2 ∧
      Disciplined r := by
  have hrun : ((traced Nat fun maxlen => 1 ≤ maxlen).runIf (fun r a => roomyB r.queue a)
      (.create Nat 1) (runCall 0 .put 4 ++ runCall 1 .put 2 ++ runCall 2 .setNonblock 4 ++
        List.replicate 4 (.step 1 none))).map (fun r => (r.nonblockInForce, r.queue.msgCnt)) =
        some (true, 2) := by
    decide +kernel
  obtain ⟨r, hr, hlog⟩ := Option.map_eq_some_iff.mp hrun
  simp only [Prod.mk.injEq] at hlog
  have hreach := System.reaches_of_runIf (M := traced Nat fun maxlen => 1 ≤ maxlen)
    (fun r a => roomy_of_check r.queue a) ⟨1, by decide, rfl⟩ hr
  exact ⟨r, hreach, hlog.1, hlog.2, disciplined_of_roomy hreach⟩

/-- A head put on a full blocking queue does not wait. -/
theorem headPut_passes_bound : ∃ r, (traced Nat fun maxlen => 1 ≤ maxlen).Reachable r ∧
    r.nonblockCalled = false ∧ ¬ Disciplined r := by
  have hrun : ((traced Nat fun maxlen => 1 ≤ maxlen).run (.create Nat 1)
      (runCall 0 .put 4 ++ runCall 1 .putHead 5)).map
        (fun r => (r.nonblockCalled, r.queue.msgCnt, r.queue.msgMax)) = some (false, 2, 1) := by
    decide +kernel
  obtain ⟨r, hr, hlog⟩ := Option.map_eq_some_iff.mp hrun
  simp only [Prod.mk.injEq] at hlog
  obtain ⟨hcalled, hcnt, hmax⟩ := hlog
  refine ⟨r, System.reachable_of_run ⟨1, by decide, rfl⟩ hr, hcalled, fun h => ?_⟩
  have hbound := h.bound hcalled
  rw [hcnt, hmax] at hbound
  exact absurd hbound (by decide)

/-- A head put on a non-blocking queue at its bound waits. -/
theorem headPut_waits : ∃ r, (traced Nat fun maxlen => 1 ≤ maxlen).Reachable r ∧
    r.nonblockInForce = true ∧ ¬ Disciplined r := by
  have hrun : ((traced Nat fun maxlen => 1 ≤ maxlen).run (.create Nat 1)
      (runCall 0 .setNonblock 4 ++ runCall 0 .put 4 ++ runCall 1 .putHead 3)).map
        (fun r => (r.nonblockInForce, (r.queue.pc 1).parkedPut)) = some (true, true) := by
    decide +kernel
  obtain ⟨r, hr, hlog⟩ := Option.map_eq_some_iff.mp hrun
  simp only [Prod.mk.injEq] at hlog
  refine ⟨r, System.reachable_of_run ⟨1, by decide, rfl⟩ hr, hlog.1, fun h => ?_⟩
  exact h.free hlog.1 1 (.inr hlog.2)

/-- A head put goes on without `get_mutex` and frees it for a second getter while a first one waits;
`msgqueue_set_nonblock` wakes one of the two. -/
theorem secondGetter_waits : ∃ r, (traced Nat fun maxlen => 1 ≤ maxlen).Reachable r ∧
    r.nonblockInForce = true ∧ ¬ Disciplined r := by
  have hrun : ((traced Nat fun maxlen => 1 ≤ maxlen).run (.create Nat 4)
      (runCall 3 .put 4 ++ runCall 0 .get 7 ++ runCall 1 .putHead 2 ++
        List.replicate 2 (.step 0 none) ++ runCall 0 .get 2 ++ List.replicate 2 (.step 1 none) ++
        List.replicate 2 (.step 0 none) ++ List.replicate 3 (.step 1 none) ++ runCall 2 .get 6 ++
        runCall 2 .get 4 ++ runCall 4 .setNonblock 2 ++ [.step 4 (some 0), .step 4 none])).map
        (fun r => (r.nonblockInForce, (r.queue.pc 2).parkedGet)) = some (true, true) := by
    decide +kernel
  obtain ⟨r, hr, hlog⟩ := Option.map_eq_some_iff.mp hrun
  simp only [Prod.mk.injEq] at hlog
  refine ⟨r, System.reachable_of_run ⟨4, by decide, rfl⟩ hr, hlog.1, fun h => ?_⟩
  exact h.free hlog.1 2 (.inl hlog.2)

end WorkflowKernel.MsgQueue
