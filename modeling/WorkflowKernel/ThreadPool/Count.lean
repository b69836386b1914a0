import Mathlib.Data.List.Nodup
import Mathlib.Data.List.Perm.Subperm
import WorkflowKernel.ThreadPool.Model

/-!
# The threads that a pool counts

`gone` are the workers that `__thrdpool_exit_routine`, or `thrdpool_destroy` called by a task, has
counted out. As long as no thread is added behind the wait of `__thrdpool_terminate`, `nthreads` is
the number of the other workers plus the argument of `thrdpool_create`, which writes its argument to
`nthreads` and then creates threads until `nthreads` is its argument.

## What is proved

- `Books.step`: the law above, with what a worker's place says about it.
- `counted_iff`: the pool counts its workers exactly if it was made with 0 of them, in the runs that
  avoid two more slips: a thread added behind the wait, and a new worker that reads `nthreads` while
  its creator has not counted it.
- `createTwo_hangs`: a pool made with 2 threads has none, and its `thrdpool_destroy` sleeps.
- `newWorker_frees_pool`, `lateIncrease_counts_twice`: what the two slips do.
-/

namespace WorkflowKernel.ThreadPool

open WorkflowKernel.Transition

variable {s t : State} {n w : Nat}

/-- The wait of `__thrdpool_terminate` is over. -/
def Phase.past : Phase → Bool
  | .last | .joining _ | .drain | .returned => true
  | _ => false

/-- The first section of `__thrdpool_terminate` is over. -/
def Phase.begun : Phase → Bool
  | .idle | .called => false
  | _ => true

/-- Behind the section of `__thrdpool_exit_routine`. -/
def Pc.exited : Pc → Bool
  | .joining _ | .ended => true
  | _ => false

/-- In a `thrdpool_destroy`, or behind one. -/
def Pc.destroys : Pc → Bool
  | .destroying | .destroyed => true
  | _ => false

/-- A worker in its loop is at none of the places that the pool counts by. -/
theorem Pc.working_spec {p : Pc} (h : p.working = true) :
    p ≠ .absent ∧ p ≠ .returned ∧ p ≠ .destroyed ∧ p.exited = false ∧ p.destroys = false := by
  cases p with
  | loop | get | task => simp [Pc.exited, Pc.destroys]
  | _ => cases h

/-- The workers that have been counted out. -/
def State.gone (s : State) : List Nat :=
  s.exits ++ if s.phase.begun then s.caller.toList else []

/-- The workers that have been started and not counted out. -/
def State.remaining (s : State) : List Nat :=
  (List.range s.started).filter fun w => w ∉ s.gone

/-- No thread is added behind the wait. -/
def inTime (s : State) : Label → Bool
  | .increase => !s.phase.past
  | _ => true

/-- What `nthreads` counts. -/
structure Books (n : Nat) (s : State) : Prop where
  nodup : s.gone.Nodup
  started : ∀ w ∈ s.gone, w < s.started
  count : s.nthreads + s.gone.length + (if s.creating then 1 else 0) = n + s.started
  exits : ∀ w, w ∈ s.exits ↔ (s.pc w).exited = true
  absent : ∀ w, s.started ≤ w → s.pc w = .absent
  idle : s.phase = .idle → s.caller = none
  destroys : ∀ w, (s.pc w).destroys = true → s.caller = some w
  caller : ∀ w, s.caller = some w → (s.pc w).destroys = true ∨ s.pc w = .returned
  returned : ∀ w, s.pc w = .destroyed → s.phase = .returned
  past : s.phase.past = true → s.nthreads = 0 ∧ s.creating = false
  asleep : s.phase = .asleep → 0 < s.nthreads
  stop : s.phase.begun = true → s.stop = true

/-! ## What the law says -/

theorem State.gone_eq_exits (h : s.phase.begun = false) : s.gone = s.exits := by
  unfold State.gone
  rw [h, if_neg Bool.false_ne_true, List.append_nil]

theorem State.gone_eq_append (h : s.phase.begun = true) : s.gone = s.exits ++ s.caller.toList := by
  unfold State.gone
  rw [if_pos h]

/-- A worker that is neither behind its exit nor in `thrdpool_destroy` has not been counted out. -/
theorem Books.not_gone (h : Books n s) (hexit : (s.pc w).exited = false)
    (hcaller : s.caller ≠ some w ∨ s.phase.begun = false) : w ∉ s.gone := by
  intro hw
  unfold State.gone at hw
  rcases List.mem_append.mp hw with hw | hw
  · rw [(h.exits w).mp hw] at hexit
    cases hexit
  · split at hw
    · next hbegun =>
      rcases hcaller with hcaller | hcaller
      · exact hcaller (Option.mem_toList.mp hw)
      · rw [hbegun] at hcaller
        cases hcaller
    · cases hw

theorem Books.lt_started (h : Books n s) (hw : s.pc w ≠ .absent) : w < s.started := by
  by_contra hge
  exact hw (h.absent w (Nat.not_lt.mp hge))

/-- A worker that has not been counted out is counted. -/
theorem Books.nthreads_pos (h : Books n s) (hw : w < s.started) (hgone : w ∉ s.gone)
    (hcreating : s.creating = false) : 0 < s.nthreads := by
  have hnodup : (w :: s.gone).Nodup := List.nodup_cons.mpr ⟨hgone, h.nodup⟩
  have hsub : w :: s.gone ⊆ List.range s.started := by
    intro v hv
    rcases List.mem_cons.mp hv with rfl | hv
    · exact List.mem_range.mpr hw
    · exact List.mem_range.mpr (h.started v hv)
  have hle := (hnodup.subperm hsub).length_le
  rw [List.length_range, List.length_cons] at hle
  have hcount := h.count
  rw [hcreating, if_neg Bool.false_ne_true] at hcount
  omega

theorem Books.remaining_length (h : Books n s) :
    s.remaining.length + s.gone.length = s.started := by
  have hsplit := List.filter_append_perm (fun w => decide (w ∉ s.gone)) (List.range s.started)
  have hgone : ((List.range s.started).filter fun w => !decide (w ∉ s.gone)).Perm s.gone := by
    rw [List.perm_ext_iff_of_nodup (List.nodup_range.filter _) h.nodup]
    intro w
    simp only [List.mem_filter, List.mem_range, decide_not, Bool.not_not, decide_eq_true_eq]
    exact ⟨fun hw => hw.2, fun hw => ⟨h.started w hw, hw⟩⟩
  have hlength := hsplit.length_eq
  rw [List.length_append, hgone.length_eq, List.length_range] at hlength
  exact hlength

/-! ## The moves of a worker -/

/-- A worker goes on without being counted, started or counted out. -/
theorem Books.move {p q : Pc} (h : Books n s) (hp : s.pc w = p) (habsent : p ≠ .absent)
    (hreturned : p ≠ .returned) (hexit : p.exited = q.exited) (hdestroys : p.destroys = q.destroys)
    (hq : q ≠ .destroyed) : Books n (s.setPc w q) := by
  subst hp
  refine ⟨h.nodup, h.started, h.count, ?exits, ?absent, h.idle, ?destroys, ?caller, ?returned,
    h.past, h.asleep, h.stop⟩
  case exits =>
    intro v
    by_cases hv : v = w
    · subst hv
      show v ∈ s.exits ↔ (Function.update s.pc v q v).exited = true
      rw [Function.update_self, ← hexit]
      exact h.exits v
    · show v ∈ s.exits ↔ (Function.update s.pc w q v).exited = true
      rw [Function.update_of_ne hv]
      exact h.exits v
  case absent =>
    intro v hv
    have hne : v ≠ w := by
      rintro rfl
      exact habsent (h.absent v hv)
    show Function.update s.pc w q v = .absent
    rw [Function.update_of_ne hne]
    exact h.absent v hv
  case destroys =>
    intro v hv
    by_cases hvw : v = w
    · subst hvw
      change (Function.update s.pc v q v).destroys = true at hv
      rw [Function.update_self, ← hdestroys] at hv
      exact h.destroys v hv
    · change (Function.update s.pc w q v).destroys = true at hv
      rw [Function.update_of_ne hvw] at hv
      exact h.destroys v hv
  case caller =>
    intro v hv
    have hcaller := h.caller v hv
    by_cases hvw : v = w
    · subst hvw
      left
      show (Function.update s.pc v q v).destroys = true
      rw [Function.update_self, ← hdestroys]
      exact hcaller.resolve_right hreturned
    · show (Function.update s.pc w q v).destroys = true ∨ Function.update s.pc w q v = .returned
      rw [Function.update_of_ne hvw]
      exact hcaller
  case returned =>
    intro v hv
    by_cases hvw : v = w
    · subst hvw
      change Function.update s.pc v q v = .destroyed at hv
      rw [Function.update_self] at hv
      exact absurd hv hq
    · change Function.update s.pc w q v = .destroyed at hv
      rw [Function.update_of_ne hvw] at hv
      exact h.returned v hv

/-- The queue and the log of the joins do not count. -/
theorem Books.setQueue (h : Books n s) (queue : List Task) : Books n { s with queue := queue } :=
  ⟨h.nodup, h.started, h.count, h.exits, h.absent, h.idle, h.destroys, h.caller, h.returned, h.past,
    h.asleep, h.stop⟩

/-- A worker goes on in its loop, which does not count either. -/
theorem Books.goesOn (h : Books n s) (hgoes : GoesOn s t w) : Books n t := by
  obtain ⟨q, queue, hw, hq, rfl⟩ := hgoes
  obtain ⟨habsent, hreturned, -, hexit, hdestroys⟩ := Pc.working_spec hw
  have hq' : q ≠ .destroyed ∧ q.exited = false ∧ q.destroys = false := by
    obtain hq | rfl := hq
    · exact (Pc.working_spec hq).2.2
    · exact ⟨nofun, rfl, rfl⟩
  obtain ⟨hdestroyed, hexit', hdestroys'⟩ := hq'
  exact (h.setQueue queue).move rfl habsent hreturned (hexit.trans hexit'.symm)
    (hdestroys.trans hdestroys'.symm) hdestroyed

theorem Books.join (h : Books n s) (by' : Option Nat) : Books n (s.join by' w) :=
  ⟨h.nodup, h.started, h.count, h.exits, h.absent, h.idle, h.destroys, h.caller, h.returned, h.past,
    h.asleep, h.stop⟩

/-- `thrdpool_increase` creates a thread that it has not counted yet. -/
theorem Books.increase (h : Books n s) (hcreating : s.creating = false)
    (hpast : s.phase.past = false) : Books n { pthreadCreate s with creating := true } := by
  have hcount := h.count
  have habsent := h.absent s.started (Nat.le_refl _)
  rw [hcreating, if_neg Bool.false_ne_true] at hcount
  refine ⟨h.nodup, fun w hw => Nat.lt_succ_of_lt (h.started w hw), ?count, ?exits, ?absent, h.idle,
    ?destroys, ?caller, ?returned, ?past, h.asleep, h.stop⟩
  case count =>
    show s.nthreads + s.gone.length + (if true = true then 1 else 0) = n + (s.started + 1)
    rw [if_pos rfl]
    omega
  case exits =>
    intro v
    show v ∈ s.exits ↔ (Function.update s.pc s.started .loop v).exited = true
    by_cases hv : v = s.started
    · subst hv
      rw [Function.update_self, h.exits, habsent]
      rfl
    · rw [Function.update_of_ne hv]
      exact h.exits v
  case absent =>
    intro v hv
    have hlt : s.started < v := hv
    show Function.update s.pc s.started .loop v = .absent
    rw [Function.update_of_ne (Nat.ne_of_gt hlt)]
    exact h.absent v (Nat.le_of_lt hlt)
  case destroys =>
    intro v hv
    change (Function.update s.pc s.started .loop v).destroys = true at hv
    by_cases hvs : v = s.started
    · subst hvs
      rw [Function.update_self] at hv
      cases hv
    · rw [Function.update_of_ne hvs] at hv
      exact h.destroys v hv
  case caller =>
    intro v hv
    have hcaller := h.caller v hv
    have hvs : v ≠ s.started := by
      rintro rfl
      rw [habsent] at hcaller
      rcases hcaller with hcaller | hcaller <;> cases hcaller
    show (Function.update s.pc s.started .loop v).destroys = true ∨
      Function.update s.pc s.started .loop v = .returned
    rw [Function.update_of_ne hvs]
    exact hcaller
  case returned =>
    intro v hv
    change Function.update s.pc s.started .loop v = .destroyed at hv
    by_cases hvs : v = s.started
    · subst hvs
      rw [Function.update_self] at hv
      cases hv
    · rw [Function.update_of_ne hvs] at hv
      exact h.returned v hv
  case past =>
    intro hp
    rw [show s.phase.past = true from hp] at hpast
    cases hpast

/-- And counts it. -/
theorem Books.increased (h : Books n s) (hcreating : s.creating = true) :
    Books n { s.incNthreads with creating := false } := by
  have hcount := h.count
  rw [if_pos hcreating] at hcount
  refine ⟨h.nodup, h.started, ?count, h.exits, h.absent, h.idle, h.destroys, h.caller, h.returned,
    ?past, fun _ => Nat.succ_pos _, h.stop⟩
  case count =>
    show s.nthreads + 1 + s.gone.length + (if false = true then 1 else 0) = n + s.started
    rw [if_neg Bool.false_ne_true]
    omega
  case past =>
    intro hp
    have hfalse := (h.past hp).2
    rw [hcreating] at hfalse
    cases hfalse

theorem Phase.notify_begun (p : Phase) : p.notify.begun = p.begun := by cases p <;> rfl

theorem Phase.notify_past (p : Phase) : p.notify.past = p.past := by cases p <;> rfl

/-- The phase behind the section of `__thrdpool_exit_routine`. -/
theorem countOut_phase (s : State) (w : Nat) :
    (countOut s w).phase.begun = s.phase.begun ∧ (countOut s w).phase.past = s.phase.past ∧
      ((countOut s w).phase = .idle ↔ s.phase = .idle) ∧
      (s.phase = .returned → (countOut s w).phase = .returned) := by
  unfold countOut
  simp only
  split
  · refine ⟨Phase.notify_begun _, Phase.notify_past _, ?_, ?_⟩
    · cases s.phase <;> simp [Phase.notify]
    · intro hret
      rw [hret]
      rfl
  · exact ⟨rfl, rfl, Iff.rfl, id⟩

/-- A worker counts itself out. -/
theorem Books.countOut (h : Books n s) (hw : s.pc w = .exit) (hcreating : s.creating = false) :
    Books n (countOut s w) := by
  have hcount := h.count
  have hlt : w < s.started := h.lt_started (by rw [hw]; simp)
  have hcaller : s.caller ≠ some w := by
    intro hc
    have := h.caller w hc
    rw [hw] at this
    rcases this with this | this <;> cases this
  have hgone : w ∉ s.gone := h.not_gone (by rw [hw]; rfl) (.inl hcaller)
  have hpos := h.nthreads_pos hlt hgone hcreating
  have hpred := sizePred_of_pos hpos
  obtain ⟨hbegun, hpast, hidle, hreturned⟩ := countOut_phase s w
  have hgone' : (ThreadPool.countOut s w).gone = w :: s.gone := by
    unfold State.gone
    rw [hbegun]
    rfl
  have hpc : ∀ v, v ≠ w → (ThreadPool.countOut s w).pc v = s.pc v :=
    fun v hv => Function.update_of_ne hv ..
  have hpcw : (ThreadPool.countOut s w).pc w = .joining s.tid := Function.update_self ..
  refine ⟨?nodup, ?started, ?count, ?exits, ?absent, ?idle, ?destroys, ?caller, ?returned, ?past,
    ?asleep, ?stop⟩
  case nodup =>
    rw [hgone']
    exact List.nodup_cons.mpr ⟨hgone, h.nodup⟩
  case started =>
    rw [hgone']
    intro v hv
    rcases List.mem_cons.mp hv with rfl | hv
    · exact hlt
    · exact h.started v hv
  case count =>
    rw [hgone', List.length_cons]
    show sizePred s.nthreads + (s.gone.length + 1) + (if s.creating then 1 else 0) = n + s.started
    omega
  case exits =>
    intro v
    show v ∈ w :: s.exits ↔ _
    rw [List.mem_cons]
    by_cases hv : v = w
    · subst hv
      rw [hpcw]
      simp [Pc.exited]
    · rw [hpc v hv, h.exits v]
      simp [hv]
  case absent =>
    intro v hv
    have hne : v ≠ w := by
      rintro rfl
      exact absurd hlt (Nat.not_lt.mpr hv)
    rw [hpc v hne]
    exact h.absent v hv
  case idle =>
    intro hi
    exact h.idle (hidle.mp hi)
  case destroys =>
    intro v hv
    by_cases hvw : v = w
    · subst hvw
      rw [hpcw] at hv
      cases hv
    · rw [hpc v hvw] at hv
      exact h.destroys v hv
  case caller =>
    intro v hv
    have hvw : v ≠ w := by
      rintro rfl
      exact hcaller hv
    rw [hpc v hvw]
    exact h.caller v hv
  case returned =>
    intro v hv
    by_cases hvw : v = w
    · subst hvw
      rw [hpcw] at hv
      cases hv
    · rw [hpc v hvw] at hv
      exact hreturned (h.returned v hv)
  case past =>
    rw [hpast]
    intro hp
    have := (h.past hp).1
    omega
  case asleep =>
    intro hasleep
    show 0 < sizePred s.nthreads
    by_contra hzero
    have hzero : sizePred s.nthreads = 0 := by omega
    have hphase : s.phase = .asleep := by
      change (if sizePred s.nthreads = 0 ∧ s.stop then s.phase.notify else s.phase) = _ at hasleep
      split at hasleep
      · cases hp : s.phase <;> rw [hp] at hasleep <;> cases hasleep
      · exact hasleep
    have hstop : s.stop = true := h.stop (by rw [hphase]; rfl)
    change (if sizePred s.nthreads = 0 ∧ s.stop then s.phase.notify else s.phase) = _ at hasleep
    rw [if_pos ⟨hzero, hstop⟩, hphase] at hasleep
    cases hasleep
  case stop =>
    rw [hbegun]
    exact h.stop

/-! ## The moves of thrdpool_destroy -/

/-- `thrdpool_destroy` goes on behind the first section of `__thrdpool_terminate`. -/
theorem Books.setPhase {p : Phase} (h : Books n s) (hbegun : s.phase.begun = true)
    (hp : p.begun = true) (hreturned : s.phase = .returned → p = .returned)
    (hpast : p.past = true → s.nthreads = 0 ∧ s.creating = false)
    (hasleep : p = .asleep → 0 < s.nthreads) : Books n { s with phase := p } := by
  have hgone : State.gone { s with phase := p } = s.gone := by
    rw [State.gone_eq_append hp, State.gone_eq_append hbegun]
  have hidle : p ≠ .idle := by
    rintro rfl
    cases hp
  refine ⟨?_, ?_, ?_, h.exits, h.absent, fun hi => absurd hi hidle, h.destroys, h.caller, ?_, hpast,
    hasleep, fun _ => h.stop hbegun⟩
  · rw [hgone]
    exact h.nodup
  · rw [hgone]
    exact h.started
  · rw [hgone]
    exact h.count
  · exact fun v hv => hreturned (h.returned v hv)

/-- The test of `nthreads` in `__thrdpool_terminate`. -/
theorem Books.testNthreads (h : Books n s) (hphase : s.phase = .asleep ∨ s.phase = .woken)
    (hcreating : s.creating = false) : Books n s.testNthreads := by
  unfold State.testNthreads
  have hbegun : s.phase.begun = true := by
    rcases hphase with hp | hp <;> rw [hp] <;> rfl
  have hreturned : s.phase ≠ .returned := by
    rcases hphase with hp | hp <;> rw [hp] <;> simp
  split
  · next hpos => exact h.setPhase hbegun rfl (absurd · hreturned) nofun fun _ => hpos
  · next hzero =>
    exact h.setPhase hbegun rfl (absurd · hreturned) (fun _ => ⟨by omega, hcreating⟩) nofun

/-- `__thrdpool_terminate` has set the stop flag and counted its caller out, and is about to test
`nthreads`. -/
theorem Books.begin (h : Books n s) (hphase : s.phase = .called) (hcreating : s.creating = false) :
    ∃ u : State, Books n u ∧ u.phase = .woken ∧ u.creating = false ∧
      terminate s = some u.testNthreads := by
  have hbegun : s.phase.begun = false := by rw [hphase]; rfl
  have hgone := State.gone_eq_exits hbegun
  have hcount := h.count
  have hnodup := h.nodup
  have hstarted := h.started
  rw [hgone] at hcount hnodup hstarted
  have hret : ∀ v, s.pc v = .destroyed → Phase.woken = .returned := by
    intro v hv
    rw [h.returned v hv] at hphase
    cases hphase
  cases hc : s.caller with
  | none =>
    refine ⟨{ s with nonblock := true, stop := true, phase := .woken }, ?_, rfl, hcreating, ?_⟩
    · have hgone' : State.gone { s with nonblock := true, stop := true, phase := .woken } =
          s.exits := by
        rw [State.gone_eq_append rfl, hc]
        exact List.append_nil _
      refine ⟨?_, ?_, ?_, h.exits, h.absent, nofun, h.destroys, h.caller, hret, nofun, nofun,
        fun _ => rfl⟩
      · rwa [hgone']
      · rwa [hgone']
      · rwa [hgone']
    · unfold terminate
      rw [if_pos ⟨hphase, hcreating⟩, hc]
      rfl
  | some w =>
    have hdestroys : (s.pc w).destroys = true ∨ s.pc w = .returned := h.caller w hc
    have hexit : (s.pc w).exited = false := by
      cases hp : s.pc w <;> simp_all [Pc.destroys, Pc.exited]
    have habsent : s.pc w ≠ .absent := by
      intro hp
      rw [hp] at hdestroys
      rcases hdestroys with hd | hd <;> cases hd
    have hlt := h.lt_started habsent
    have hw : w ∉ s.exits := by
      rw [h.exits, hexit]
      exact Bool.false_ne_true
    have hpos := h.nthreads_pos hlt (hgone ▸ hw) hcreating
    have hpred := sizePred_of_pos hpos
    refine ⟨{ State.detach { s with nonblock := true, stop := true } w with phase := .woken }, ?_,
      rfl, hcreating, ?_⟩
    · have hgone' : State.gone
          { State.detach { s with nonblock := true, stop := true } w with phase := .woken } =
          s.exits ++ [w] := by
        rw [State.gone_eq_append rfl]
        show s.exits ++ s.caller.toList = _
        rw [hc]
        rfl
      refine ⟨?_, ?_, ?_, h.exits, h.absent, nofun, h.destroys, h.caller, hret, nofun, nofun,
        fun _ => rfl⟩
      · rw [hgone']
        exact List.nodup_append_comm.mp (List.nodup_cons.mpr ⟨hw, hnodup⟩)
      · rw [hgone']
        intro v hv
        rcases List.mem_append.mp hv with hv | hv
        · exact hstarted v hv
        · rw [List.mem_singleton.mp hv]
          exact hlt
      · rw [hgone', List.length_append, List.length_singleton]
        show sizePred s.nthreads + (s.exits.length + 1) + (if s.creating then 1 else 0) =
          n + s.started
        omega
    · unfold terminate
      rw [if_pos ⟨hphase, hcreating⟩, hc]
      rfl

/-- `thrdpool_destroy` is called. -/
theorem Books.destroy {caller : Option Nat} (h : Books n s)
    (hstep : thrdpoolDestroy s caller = some t) : Books n t := by
  unfold thrdpoolDestroy at hstep
  split at hstep
  · next hidle =>
    have hnone := h.idle hidle
    have hret : ∀ v, s.pc v ≠ .destroyed := by
      intro v hv
      rw [h.returned v hv] at hidle
      cases hidle
    have hgone : s.gone = s.exits := State.gone_eq_exits (by rw [hidle]; rfl)
    have hcount := h.count
    have hnodup := h.nodup
    have hstarted := h.started
    rw [hgone] at hcount hnodup hstarted
    split at hstep
    · cases hstep
      have hgone' : State.gone { s with phase := .called } = s.exits := State.gone_eq_exits rfl
      refine ⟨?_, ?_, ?_, h.exits, h.absent, nofun, h.destroys, h.caller,
        fun v hv => absurd hv (hret v), nofun, nofun, nofun⟩
      · rwa [hgone']
      · rwa [hgone']
      · rwa [hgone']
    · next w =>
      split at hstep
      · next hw =>
        cases hstep
        have hgone' : State.gone { s.setPc w .destroying with phase := .called, caller := some w } =
            s.exits := State.gone_eq_exits rfl
        refine ⟨?_, ?_, ?_, ?exits, ?absent, nofun, ?destroys, ?caller, ?returned, nofun, nofun,
          nofun⟩
        · rwa [hgone']
        · rwa [hgone']
        · rwa [hgone']
        case exits =>
          intro v
          show v ∈ s.exits ↔ (Function.update s.pc w .destroying v).exited = true
          by_cases hv : v = w
          · subst hv
            rw [Function.update_self, h.exits, hw]
            rfl
          · rw [Function.update_of_ne hv]
            exact h.exits v
        case absent =>
          intro v hv
          have hne : v ≠ w := by
            rintro rfl
            have := h.absent v hv
            rw [hw] at this
            cases this
          show Function.update s.pc w .destroying v = .absent
          rw [Function.update_of_ne hne]
          exact h.absent v hv
        case destroys =>
          intro v hv
          change (Function.update s.pc w .destroying v).destroys = true at hv
          by_cases hvw : v = w
          · rw [hvw]
          · rw [Function.update_of_ne hvw] at hv
            have := h.destroys v hv
            rw [hnone] at this
            cases this
        case caller =>
          intro v hv
          obtain rfl : w = v := Option.some.inj hv
          left
          show (Function.update s.pc w .destroying w).destroys = true
          rw [Function.update_self]
          rfl
        case returned =>
          intro v hv
          change Function.update s.pc w .destroying v = .destroyed at hv
          by_cases hvw : v = w
          · subst hvw
            rw [Function.update_self] at hv
            cases hv
          · rw [Function.update_of_ne hvw] at hv
            exact absurd hv (hret v)
      · cases hstep
  · cases hstep

/-- `thrdpool_destroy` returns. -/
theorem Books.destroyReturns (h : Books n s) (hstep : destroyReturns s = some t) : Books n t := by
  unfold ThreadPool.destroyReturns at hstep
  split at hstep
  · next hdrain =>
    have hphase : Books n { s with phase := .returned } := by
      have hpast := h.past (by rw [hdrain.1]; rfl)
      exact h.setPhase (by rw [hdrain.1]; rfl) rfl (fun _ => rfl) (fun _ => hpast) nofun
    split at hstep
    · cases hstep
      exact ⟨hphase.nodup, hphase.started, hphase.count, hphase.exits, hphase.absent, hphase.idle,
        hphase.destroys, hphase.caller, hphase.returned, hphase.past, hphase.asleep, hphase.stop⟩
    · next w hc =>
      cases hstep
      refine ⟨hphase.nodup, hphase.started, hphase.count, ?exits, ?absent, nofun, ?destroys,
        ?caller, fun _ _ => rfl, hphase.past, nofun, hphase.stop⟩
      case exits =>
        intro v
        show v ∈ s.exits ↔ (Function.update s.pc w .destroyed v).exited = true
        by_cases hv : v = w
        · subst hv
          rw [Function.update_self, h.exits]
          have hdestroys := h.caller v hc
          cases hp : s.pc v <;> simp_all [Pc.destroys, Pc.exited]
        · rw [Function.update_of_ne hv]
          exact h.exits v
      case absent =>
        intro v hv
        have hne : v ≠ w := by
          rintro rfl
          have hdestroys := h.caller v hc
          rw [h.absent v hv] at hdestroys
          rcases hdestroys with hd | hd <;> cases hd
        show Function.update s.pc w .destroyed v = .absent
        rw [Function.update_of_ne hne]
        exact h.absent v hv
      case destroys =>
        intro v hv
        change (Function.update s.pc w .destroyed v).destroys = true at hv
        by_cases hvw : v = w
        · rw [hvw]
          exact hc
        · rw [Function.update_of_ne hvw] at hv
          exact h.destroys v hv
      case caller =>
        intro v hv
        obtain rfl : w = v := Option.some.inj (hc.symm.trans hv)
        left
        show (Function.update s.pc w .destroyed w).destroys = true
        rw [Function.update_self]
        rfl
  · cases hstep

/-- A task returns. -/
theorem Books.taskReturns (h : Books n s) (hstep : taskReturns s w = some t) : Books n t := by
  unfold ThreadPool.taskReturns at hstep
  split at hstep
  · next hw =>
    rcases hw with hw | hw
    · split at hstep
      · cases hstep
        have hmove : Books n (s.setPc w .returned) :=
          h.move hw (by simp) (by simp) rfl rfl (by simp)
        exact ⟨hmove.nodup, hmove.started, hmove.count, hmove.exits, hmove.absent, hmove.idle,
          hmove.destroys, hmove.caller, hmove.returned, hmove.past, hmove.asleep, hmove.stop⟩
      · cases hstep
        exact h.move hw (by simp) (by simp) rfl rfl (by simp)
    · have hphase := h.returned w hw
      have hzero := (h.past (by rw [hphase]; rfl)).1
      have hc := h.destroys w (by rw [hw]; rfl)
      rw [if_pos hzero] at hstep
      cases hstep
      refine ⟨h.nodup, h.started, h.count, ?exits, ?absent, h.idle, ?destroys, ?caller, ?returned,
        h.past, h.asleep, h.stop⟩
      case exits =>
        intro v
        show v ∈ s.exits ↔ (Function.update s.pc w .returned v).exited = true
        by_cases hv : v = w
        · subst hv
          rw [Function.update_self, h.exits, hw]
          rfl
        · rw [Function.update_of_ne hv]
          exact h.exits v
      case absent =>
        intro v hv
        have hne : v ≠ w := by
          rintro rfl
          have := h.absent v hv
          rw [hw] at this
          cases this
        show Function.update s.pc w .returned v = .absent
        rw [Function.update_of_ne hne]
        exact h.absent v hv
      case destroys =>
        intro v hv
        change (Function.update s.pc w .returned v).destroys = true at hv
        by_cases hvw : v = w
        · subst hvw
          rw [Function.update_self] at hv
          cases hv
        · rw [Function.update_of_ne hvw] at hv
          exact h.destroys v hv
      case caller =>
        intro v hv
        obtain rfl : w = v := Option.some.inj (hc.symm.trans hv)
        right
        show Function.update s.pc w .returned w = .returned
        exact Function.update_self ..
      case returned =>
        exact fun _ _ => hphase
  · cases hstep

/-- Every step before the wait is over, and every later one but an increase, keeps the books. -/
theorem Books.step {l : Label} (h : Books n s) (hok : inTime s l = true)
    (hstep : step s l = some t) : Books n t := by
  cases l with
  | schedule | decrease | drainTask task =>
    obtain ⟨queue, rfl⟩ := queue_of_step rfl hstep
    exact h.setQueue _
  | testStop w | getTask w task | getNull w | exit w => exact h.goesOn (goesOn_of_step rfl hstep)
  | increase =>
    simp only [ThreadPool.step, thrdpoolIncrease] at hstep
    split at hstep
    · next hfree =>
      cases hstep
      exact h.increase hfree.2 (by simpa [inTime] using hok)
    · cases hstep
  | increased =>
    simp only [ThreadPool.step, thrdpoolIncreased] at hstep
    split at hstep
    · next hcreating =>
      cases hstep
      exact h.increased hcreating
    · cases hstep
  | taskReturns w => exact h.taskReturns hstep
  | exitRoutine w =>
    simp only [ThreadPool.step, exitRoutine] at hstep
    split at hstep
    · next hw =>
      cases hstep
      exact h.countOut hw.1 hw.2
    · cases hstep
  | exitJoin w =>
    simp only [ThreadPool.step, exitJoin] at hstep
    split at hstep
    · next hw =>
      cases hstep
      exact h.move hw (by simp) (by simp) rfl rfl (by simp)
    · next t hw =>
      split at hstep
      · cases hstep
        exact (h.join _).move hw (by simp) (by simp) rfl rfl (by simp)
      · cases hstep
    · cases hstep
  | destroy caller => exact h.destroy hstep
  | terminate =>
    simp only [ThreadPool.step] at hstep
    have hcalled : s.phase = .called ∧ s.creating = false := by
      by_contra hne
      rw [terminate, if_neg hne] at hstep
      cases hstep
    obtain ⟨u, hu, hphase, hcreating, hterminate⟩ := h.begin hcalled.1 hcalled.2
    rw [hterminate] at hstep
    cases hstep
    exact hu.testNthreads (.inr hphase) hcreating
  | wake =>
    simp only [ThreadPool.step, wake] at hstep
    split at hstep
    · next hphase =>
      cases hstep
      exact h.setPhase (by rw [hphase]; rfl) rfl (by simp [hphase]) (fun hp => by cases hp) (by simp)
    · cases hstep
  | testAgain =>
    simp only [ThreadPool.step, testAgain] at hstep
    split at hstep
    · next hphase =>
      cases hstep
      exact h.testNthreads (.inr hphase.1) hphase.2
    · cases hstep
  | readTid =>
    simp only [ThreadPool.step, readTid] at hstep
    split at hstep
    · next hphase =>
      have hpast := h.past (by rw [hphase]; rfl)
      split at hstep
      · cases hstep
        exact h.setPhase (by rw [hphase]; rfl) rfl (by simp [hphase]) (fun _ => hpast) (by simp)
      · cases hstep
        exact h.setPhase (by rw [hphase]; rfl) rfl (by simp [hphase]) (fun _ => hpast) (by simp)
    · cases hstep
  | terminateJoin =>
    simp only [ThreadPool.step, terminateJoin] at hstep
    split at hstep
    · next w hphase =>
      split at hstep
      · cases hstep
        have hpast := h.past (by rw [hphase]; rfl)
        exact (h.join _).setPhase (by rw [State.join, hphase]; rfl) rfl
          (by simp [State.join, hphase]) (fun _ => hpast) (by simp)
      · cases hstep
    · cases hstep
  | destroyReturns => exact h.destroyReturns hstep

theorem allocated_books (n : Nat) : Books n (.allocated n) := by
  refine ⟨List.nodup_nil, nofun, rfl, ?_, fun _ _ => rfl, fun _ => rfl, nofun, nofun, nofun, nofun,
    nofun, nofun⟩
  intro w
  exact ⟨nofun, nofun⟩

/-- The law of every run that adds no thread behind the wait. -/
theorem books (h : (system n).Reaches (fun s l => inTime s l = true) s) : Books n s := by
  apply InductiveInvariant.holds (I := Books n) _ h
  constructor
  case init =>
    intro s hs
    rw [init_iff.mp hs]
    exact allocated_books n
  case step =>
    exact fun s l t hs hok hstep => hs.step hok hstep

/-! ## The count -/

/-- No thread is added behind the wait, and nobody but the caller of `thrdpool_destroy` finds
`nthreads` 0 behind a task. -/
def countedOn (s : State) : Label → Bool
  | .increase => !s.phase.past
  | .taskReturns w => s.nthreads ≠ 0 || s.caller = some w
  | _ => true

/-- `nthreads` is the number of the workers that are left, and the wait of `__thrdpool_terminate`
sleeps while one of them has not returned and is over when there are none. -/
structure Counted (s : State) : Prop where
  count : s.creating = false → s.nthreads = s.remaining.length
  asleep : s.phase = .asleep → ∃ w ∈ s.remaining, s.pc w ≠ .returned
  past : s.phase.past = true → s.remaining = []

/-- Only the worker that called `thrdpool_destroy` frees the pool. -/
def ReturnedByCaller (s : State) : Prop := ∀ w, s.pc w = .returned → s.caller = some w

theorem setPc_returned {q : Pc} {v : Nat} (hq : q ≠ .returned)
    (hv : (s.setPc w q).pc v = .returned) : s.pc v = .returned := by
  by_cases hvw : v = w
  · subst hvw
    change Function.update s.pc v q v = .returned at hv
    rw [Function.update_self] at hv
    exact absurd hv hq
  · change Function.update s.pc w q v = .returned at hv
    rwa [Function.update_of_ne hvw] at hv

/-- A worker moves on, and not by freeing the pool. -/
theorem ReturnedByCaller.move {q : Pc} (h : ReturnedByCaller s) (hq : q ≠ .returned)
    (hpc : t.pc = (s.setPc w q).pc) (hcaller : t.caller = s.caller) : ReturnedByCaller t := by
  intro v hv
  rw [hpc] at hv
  rw [hcaller]
  exact h v (setPc_returned hq hv)

theorem ReturnedByCaller.of_same (h : ReturnedByCaller s) (hpc : t.pc = s.pc)
    (hcaller : t.caller = s.caller) : ReturnedByCaller t := by
  intro v hv
  rw [hpc] at hv
  rw [hcaller]
  exact h v hv

theorem ReturnedByCaller.goesOn (h : ReturnedByCaller s) (hgoes : GoesOn s t w) :
    ReturnedByCaller t := by
  obtain ⟨q, queue, -, hq, rfl⟩ := hgoes
  have hne : q ≠ .returned := by
    rintro rfl
    obtain hq | hq := hq <;> cases hq
  exact h.move hne rfl rfl

/-- A worker returns behind its task only if it is the one that called `thrdpool_destroy`. -/
theorem ReturnedByCaller.taskReturns {w : Nat} (h : ReturnedByCaller s)
    (hok : countedOn s (.taskReturns w) = true)
    (hstep : ThreadPool.step s (.taskReturns w) = some t) : ReturnedByCaller t := by
  simp only [ThreadPool.step, ThreadPool.taskReturns] at hstep
  split at hstep
  · split at hstep
    · next hzero =>
      cases hstep
      have hc : s.caller = some w := by simpa [countedOn, hzero] using hok
      intro v hv
      by_cases hvw : v = w
      · rw [hvw]
        exact hc
      · change Function.update s.pc w .returned v = .returned at hv
        rw [Function.update_of_ne hvw] at hv
        exact h v hv
    · cases hstep
      exact h.move (q := .loop) (by simp) rfl rfl
  · cases hstep

/-- Nobody has returned when `thrdpool_destroy` is called. -/
theorem ReturnedByCaller.destroy {caller : Option Nat} (h : ReturnedByCaller s)
    (hbooks : Books n s) (hstep : ThreadPool.step s (.destroy caller) = some t) :
    ReturnedByCaller t := by
  simp only [ThreadPool.step, thrdpoolDestroy] at hstep
  split at hstep
  · next hidle =>
    split at hstep
    · cases hstep
      exact h.of_same rfl rfl
    · split at hstep
      · cases hstep
        intro v hv
        have hc := h v (setPc_returned (q := .destroying) (by simp) hv)
        rw [hbooks.idle hidle] at hc
        cases hc
      · cases hstep
  · cases hstep

theorem ReturnedByCaller.step {l : Label} (h : ReturnedByCaller s) (hbooks : Books n s)
    (hok : countedOn s l = true) (hstep : step s l = some t) : ReturnedByCaller t := by
  cases l with
  | schedule | decrease | drainTask task =>
    obtain ⟨queue, rfl⟩ := queue_of_step rfl hstep
    exact h.of_same rfl rfl
  | testStop w | getTask w task | getNull w | exit w => exact h.goesOn (goesOn_of_step rfl hstep)
  | increased | wake | testAgain =>
    simp only [ThreadPool.step, thrdpoolIncreased, wake, testAgain] at hstep
    split at hstep
    · cases hstep
      exact h.of_same rfl rfl
    · cases hstep
  | increase =>
    simp only [ThreadPool.step, thrdpoolIncrease] at hstep
    split at hstep
    · cases hstep
      exact h.move (q := .loop) (by simp) rfl rfl
    · cases hstep
  | taskReturns w => exact h.taskReturns hok hstep
  | exitRoutine w =>
    simp only [ThreadPool.step, exitRoutine] at hstep
    split at hstep
    · cases hstep
      exact h.move (q := .joining s.tid) (by simp) rfl rfl
    · cases hstep
  | exitJoin w =>
    simp only [ThreadPool.step, exitJoin] at hstep
    split at hstep
    · cases hstep
      exact h.move (q := .ended) (by simp) rfl rfl
    · split at hstep
      · cases hstep
        exact h.move (q := .ended) (by simp) rfl rfl
      · cases hstep
    · cases hstep
  | destroy caller => exact h.destroy hbooks hstep
  | terminate =>
    simp only [ThreadPool.step, terminate] at hstep
    split at hstep
    · split at hstep
      · cases hstep
        exact h.of_same rfl rfl
      · cases hstep
        exact h.of_same rfl rfl
    · cases hstep
  | readTid =>
    simp only [ThreadPool.step, readTid] at hstep
    split at hstep
    · split at hstep
      · cases hstep
        exact h.of_same rfl rfl
      · cases hstep
        exact h.of_same rfl rfl
    · cases hstep
  | terminateJoin =>
    simp only [ThreadPool.step, terminateJoin] at hstep
    split at hstep
    · split at hstep
      · cases hstep
        exact h.of_same rfl rfl
      · cases hstep
    · cases hstep
  | destroyReturns =>
    simp only [ThreadPool.step, destroyReturns] at hstep
    split at hstep
    · split at hstep
      · cases hstep
        exact h.of_same rfl rfl
      · cases hstep
        exact h.move (q := .destroyed) (by simp) rfl rfl
    · cases hstep

theorem returnedByCaller (h : (system n).Reaches (fun s l => countedOn s l = true) s) :
    ReturnedByCaller s := by
  induction h with
  | init hs =>
    rw [init_iff.mp hs]
    exact nofun
  | step hreach hok hstep ih =>
    refine ih.step (books (hreach.mono ?_)) hok hstep
    intro s l hl
    cases l <;> first | exact hl | rfl

/-- A pool whose books were opened with 0 counts its workers. -/
theorem Books.counted (h : Books 0 s) (hreturned : ReturnedByCaller s) : Counted s := by
  have hcount := h.count
  have hremaining := h.remaining_length
  refine ⟨?count, ?asleep, ?past⟩
  case count =>
    intro hcreating
    rw [hcreating, if_neg Bool.false_ne_true] at hcount
    omega
  case asleep =>
    intro hasleep
    have hpos := h.asleep hasleep
    obtain ⟨w, hw⟩ := List.exists_mem_of_length_pos (l := s.remaining) (by omega)
    refine ⟨w, hw, fun hret => ?_⟩
    have hgone : w ∈ s.gone := by
      rw [State.gone_eq_append (by rw [hasleep]; rfl), hreturned w hret]
      exact List.mem_append_right _ List.mem_cons_self
    exact (of_decide_eq_true (List.mem_filter.mp hw).2) hgone
  case past =>
    intro hp
    obtain ⟨hzero, hcreating⟩ := h.past hp
    rw [hcreating, if_neg Bool.false_ne_true] at hcount
    exact List.length_eq_zero_iff.mp (by omega)

/-- A pool made with `n` threads has `n` workers and counts them, in the runs that avoid the two
later slips, exactly if `n` is 0. -/
theorem counted_iff (n : Nat) : ((∀ s, (system n).Init s → s.started = n) ∧
    ∀ s, (system n).Reaches (fun s l => countedOn s l = true) s → Counted s) ↔ n = 0 := by
  constructor
  · rintro ⟨-, hcounted⟩
    have hinit := hcounted _ (.init (init_iff.mpr rfl))
    exact hinit.count rfl
  · rintro rfl
    refine ⟨fun s hs => by rw [init_iff.mp hs]; rfl, fun s hs => ?_⟩
    refine (books (hs.mono ?_)).counted (returnedByCaller hs)
    intro s l hl
    cases l <;> first | exact hl | rfl

/-- A pool made with 2 threads has none: `thrdpool_destroy` sleeps with nobody left to wake it, and
what is scheduled, once its flag lets the put through, is not run. -/
theorem createTwo_hangs : ∃ s, (system 2).Reachable s ∧ s.nthreads = 2 ∧ s.started = 0 ∧
    s.phase = .asleep ∧ s.remaining = [] ∧ ¬ Counted s := by
  have hrun : ((system 2).run (.allocated 2) [.destroy none, .terminate, .schedule]).map
      (fun s => (s.nthreads, s.started, s.phase, s.remaining)) = some (2, 0, .asleep, []) := by
    decide +kernel
  obtain ⟨s, hs, hlog⟩ := Option.map_eq_some_iff.mp hrun
  simp only [Prod.mk.injEq] at hlog
  obtain ⟨hnthreads, hstarted, hphase, hremaining⟩ := hlog
  refine ⟨s, System.reachable_of_run (init_iff.mpr rfl) hs, hnthreads, hstarted, hphase, hremaining,
    fun h => ?_⟩
  obtain ⟨w, hw, -⟩ := h.asleep hphase
  rw [hremaining] at hw
  cases hw

/-- A worker takes an exit task that lets the put of a user's task through, and leaves. -/
def exitFirst : List Label :=
  [.increase, .increased, .decrease, .schedule, .testStop 0, .getTask 0 .exit, .exitRoutine 0,
    .exitJoin 0]

/-- A worker that its creator has not counted yet finds `nthreads` 0 behind its first task, frees the
pool and is counted for ever. -/
theorem newWorker_frees_pool : ∃ s, (system 0).Reaches (fun s l => inTime s l = true) s ∧
    s.frees = [some 1] ∧ s.nthreads = 1 ∧ ¬ Counted s := by
  have hrun : ((system 0).runIf inTime (.allocated 0) (exitFirst ++ [.increase, .testStop 1,
      .getTask 1 .user, .taskReturns 1, .increased, .destroy none, .terminate])).map
      (fun s => (s.frees, s.nthreads, s.phase, s.remaining, s.pc 1)) =
        some ([some 1], 1, .asleep, [1], .returned) := by
    decide +kernel
  obtain ⟨s, hs, hlog⟩ := Option.map_eq_some_iff.mp hrun
  simp only [Prod.mk.injEq] at hlog
  obtain ⟨hfrees, hnthreads, hphase, hremaining, hpc⟩ := hlog
  have hreach : (system 0).Reaches (fun s l => inTime s l = true) s :=
    System.reaches_of_runIf (fun _ _ h => h) (init_iff.mpr rfl) hs
  refine ⟨s, hreach, hfrees, hnthreads, fun h => ?_⟩
  obtain ⟨w, hw, hleft⟩ := h.asleep hphase
  rw [hremaining, List.mem_singleton] at hw
  exact hleft (hw ▸ hpc)

/-- A thread that is added behind the wait keeps the caller of `thrdpool_destroy` from freeing the
pool, and the caller is counted out twice. -/
theorem lateIncrease_counts_twice : ∃ s, (system 0).Reachable s ∧ s.nthreads = 0 ∧
    s.remaining = [2] ∧ ¬ Counted s := by
  have hrun : ((system 0).run (.allocated 0) (exitFirst ++ [.increase, .increased, .testStop 1,
      .getTask 1 .user, .destroy (some 1), .terminate, .readTid, .terminateJoin, .increase,
      .increased, .destroyReturns, .taskReturns 1, .testStop 1, .exitRoutine 1])).map
      (fun s => (s.nthreads, s.creating, s.remaining)) = some (0, false, [2]) := by
    decide +kernel
  obtain ⟨s, hs, hlog⟩ := Option.map_eq_some_iff.mp hrun
  simp only [Prod.mk.injEq] at hlog
  obtain ⟨hnthreads, hcreating, hremaining⟩ := hlog
  refine ⟨s, System.reachable_of_run (init_iff.mpr rfl) hs, hnthreads, hremaining, fun h => ?_⟩
  have hcount := h.count hcreating
  rw [hnthreads, hremaining] at hcount
  cases hcount

end WorkflowKernel.ThreadPool
