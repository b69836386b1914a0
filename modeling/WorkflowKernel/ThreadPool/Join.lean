import WorkflowKernel.ThreadPool.Chain

/-!
# What the pool has joined and freed when it is destroyed

Every worker is counted out, joined by the next one, and the last one by `__thrdpool_terminate`; the
worker that calls `thrdpool_destroy` is detached instead. The pool is freed behind that, by the
outside caller or by the routine of the worker that destroyed it.

## What is proved

- `Freed.step`: who frees the pool, and when. A worker that its creator has not counted yet may free
  it early; `thrdpool_destroy` then never returns.
- `joined_of_increasesFirst`: nobody is joined twice or joins itself, a worker that destroys its pool
  is detached and not joined, and when `thrdpool_destroy` returns every other worker has been joined
  and the pool is freed once.
-/

namespace WorkflowKernel.ThreadPool

open WorkflowKernel.Transition

variable {s t : State} {n w : Nat}

/-! ## Who frees the pool -/

/-- The pool has not been freed, or by the outside caller of `thrdpool_destroy`, or by a worker: the
one that called `thrdpool_destroy`, or one that its creator had not counted. -/
inductive Freed (s : State) : Prop
  | notYet (frees : s.frees = []) (pc : ∀ w, s.pc w ≠ .returned)
      (phase : s.phase = .returned → ∃ w, s.caller = some w ∧ s.pc w = .destroyed)
  | outside (frees : s.frees = [none]) (phase : s.phase = .returned) (caller : s.caller = none)
      (pc : ∀ w, s.pc w ≠ .returned)
  | worker (v : Nat) (frees : s.frees = [some v]) (pc : s.pc v = .returned)
      (only : ∀ w, s.pc w = .returned → w = v) (caller : s.caller = some v → s.phase = .returned)

/-- No worker returns, and none leaves the place behind its `thrdpool_destroy`. -/
def Stays (s t : State) : Prop :=
  ∀ w, (t.pc w = .returned ↔ s.pc w = .returned) ∧ (s.pc w = .destroyed → t.pc w = .destroyed)

theorem Stays.refl (hpc : t.pc = s.pc) : Stays s t := by
  intro w
  rw [hpc]
  exact ⟨Iff.rfl, id⟩

/-- A worker moves from a place to another, and neither is one of these two. -/
theorem stays_setPc {p q : Pc} (hp : s.pc w = p) (hreturned : p ≠ .returned) (hq : q ≠ .returned)
    (hdestroyed : p ≠ .destroyed) (hpc : t.pc = (s.setPc w q).pc) : Stays s t := by
  subst hp
  intro v
  rw [hpc]
  refine ⟨⟨setPc_returned hq, fun hv => ?_⟩, fun hv => ?_⟩
  · have hne : v ≠ w := by
      rintro rfl
      exact hreturned hv
    exact (Function.update_of_ne hne ..).trans hv
  · have hne : v ≠ w := by
      rintro rfl
      exact hdestroyed hv
    exact (Function.update_of_ne hne ..).trans hv

theorem Freed.frame (h : Freed s) (hstays : Stays s t) (hfrees : t.frees = s.frees)
    (hcaller : t.caller = s.caller) (hphase : t.phase = .returned ↔ s.phase = .returned) :
    Freed t := by
  cases h with
  | notYet frees pc phase =>
    refine .notYet (hfrees.trans frees) (fun w hw => pc w ((hstays w).1.mp hw)) fun hp => ?_
    obtain ⟨w, hc, hw⟩ := phase (hphase.mp hp)
    exact ⟨w, hcaller.trans hc, (hstays w).2 hw⟩
  | outside frees phase caller pc =>
    exact .outside (hfrees.trans frees) (hphase.mpr phase) (hcaller.trans caller)
      fun w hw => pc w ((hstays w).1.mp hw)
  | worker v frees pc only caller =>
    exact .worker v (hfrees.trans frees) ((hstays v).1.mpr pc)
      (fun w hw => only w ((hstays w).1.mp hw)) fun hc => hphase.mpr (caller (hcaller.symm.trans hc))

/-- Two workers that have not been counted out are both counted, or one is being created. -/
theorem Books.two_le (h : Books n s) {v : Nat} (hne : v ≠ w) (hv : v < s.started)
    (hw : w < s.started) (hvgone : v ∉ s.gone) (hwgone : w ∉ s.gone) :
    2 ≤ s.nthreads + if s.creating then 1 else 0 := by
  have hnodup : (v :: w :: s.gone).Nodup := by
    refine List.nodup_cons.mpr ⟨?_, List.nodup_cons.mpr ⟨hwgone, h.nodup⟩⟩
    rw [List.mem_cons]
    exact fun hmem => hmem.elim hne hvgone
  have hsub : v :: w :: s.gone ⊆ List.range s.started := by
    intro u hu
    rw [List.mem_range]
    rcases List.mem_cons.mp hu with rfl | hu
    · exact hv
    · rcases List.mem_cons.mp hu with rfl | hu
      · exact hw
      · exact h.started u hu
  have hle := (hnodup.subperm hsub).length_le
  rw [List.length_range, List.length_cons, List.length_cons] at hle
  have hcount := h.count
  omega

/-- A worker that has freed the pool without having been counted is still not counted out. -/
theorem Books.returned_gone (h : Books n s) (hw : s.pc w = .returned) (hgone : w ∈ s.gone) :
    s.caller = some w := by
  by_contra hc
  exact h.not_gone (by rw [hw]; rfl) (.inl hc) hgone

/-- A task returns to a pool with no threads. -/
theorem Freed.taskReturns (h : Freed s) (hbooks : Books n s) (hstep : taskReturns s w = some t) :
    Freed t := by
  unfold ThreadPool.taskReturns at hstep
  split at hstep
  · next hw =>
    have hpc : s.pc w ≠ .returned := by
      rcases hw with hw | hw <;> rw [hw] <;> simp
    have hlt : w < s.started := hbooks.lt_started (by rcases hw with hw | hw <;> rw [hw] <;> simp)
    split at hstep
    · next hzero =>
      cases hstep
      have hunused : s.frees = [] := by
        cases h with
        | notYet frees pc phase => exact frees
        | outside frees phase caller pc =>
          -- behind the outside destroy there is no worker left
          have hgone := hbooks.mem_gone (by rw [phase]; rfl) hlt
          rcases hw with hw | hw
          · exact absurd hgone (hbooks.active (.inr hw))
          · have hc := hbooks.destroys w (by rw [hw]; rfl)
            rw [caller] at hc
            cases hc
        | worker v frees pc only caller =>
          have hvw : v ≠ w := by
            rintro rfl
            exact hpc pc
          have hvlt : v < s.started := hbooks.lt_started (by rw [pc]; simp)
          rcases hw with hw | hw
          · have hwgone := hbooks.active (.inr hw)
            by_cases hvgone : v ∈ s.gone
            · have hphase := caller (hbooks.returned_gone pc hvgone)
              exact absurd (hbooks.mem_gone (by rw [hphase]; rfl) hlt) hwgone
            · have htwo := hbooks.two_le hvw hvlt hlt hvgone hwgone
              rw [hzero] at htwo
              split at htwo <;> omega
          · have hphase := hbooks.returned w hw
            have hvgone := hbooks.mem_gone (by rw [hphase]; rfl) hvlt
            have hc := hbooks.destroys w (by rw [hw]; rfl)
            rw [hbooks.returned_gone pc hvgone] at hc
            exact absurd (Option.some.inj hc) hvw
      have hnone : ∀ v, s.pc v ≠ .returned := by
        cases h with
        | notYet frees pc phase => exact pc
        | outside frees phase caller pc => exact pc
        | worker v frees pc only caller =>
          rw [hunused] at frees
          cases frees
      refine .worker w ?_ (Function.update_self ..) ?_ ?_
      · show some w :: s.frees = [some w]
        rw [hunused]
      · intro v hv
        by_contra hne
        exact hnone v ((Function.update_of_ne hne ..).symm.trans hv)
      · intro hc
        rcases hw with hw | hw
        · have hdestroys := hbooks.caller w hc
          rw [hw] at hdestroys
          rcases hdestroys with hd | hd <;> cases hd
        · exact hbooks.returned w hw
    · next hzero =>
      cases hstep
      rcases hw with hw | hw
      · exact h.frame (stays_setPc hw (by simp) (q := .loop) (by simp) (by simp) rfl) rfl rfl Iff.rfl
      · have hphase := hbooks.returned w hw
        exact absurd (hbooks.past (by rw [hphase]; rfl)).1 hzero
  · cases hstep

/-- `thrdpool_destroy` returns. -/
theorem Freed.destroyReturns (h : Freed s) (hbooks : Books n s)
    (hstep : destroyReturns s = some t) : Freed t := by
  unfold ThreadPool.destroyReturns at hstep
  split at hstep
  · next hdrain =>
    -- nobody has freed the pool: every worker has been counted out
    have hnotYet : s.frees = [] ∧ ∀ w, s.pc w ≠ .returned := by
      cases h with
      | notYet frees pc phase => exact ⟨frees, pc⟩
      | outside frees phase caller pc =>
        rw [hdrain.1] at phase
        cases phase
      | worker v frees pc only caller =>
        have hvlt : v < s.started := hbooks.lt_started (by rw [pc]; simp)
        have hvgone := hbooks.mem_gone (by rw [hdrain.1]; rfl) hvlt
        have hphase := caller (hbooks.returned_gone pc hvgone)
        rw [hdrain.1] at hphase
        cases hphase
    obtain ⟨hfrees, hpc⟩ := hnotYet
    split at hstep
    · next hc =>
      cases hstep
      refine .outside ?_ rfl hc hpc
      show none :: s.frees = [none]
      rw [hfrees]
    · next w hc =>
      cases hstep
      refine .notYet hfrees ?_ fun _ => ⟨w, hc, Function.update_self ..⟩
      intro v hv
      exact hpc v (setPc_returned (q := .destroyed) (by simp) hv)
  · cases hstep

/-- The steps of a worker in its loop. -/
theorem Freed.goesOn (h : Freed s) (hgoes : GoesOn s t w) : Freed t := by
  obtain ⟨q, queue, hw, hq, rfl⟩ := hgoes
  obtain ⟨-, hreturned, hdestroyed, -, -⟩ := Pc.working_spec hw
  have hq' : q ≠ .returned := by
    rintro rfl
    obtain hq | hq := hq <;> cases hq
  exact h.frame (stays_setPc rfl hreturned hq' hdestroyed rfl) rfl rfl Iff.rfl

/-- `thrdpool_destroy` goes on, and neither returns nor has returned. -/
theorem Freed.setPhase (h : Freed s) (hpc : t.pc = s.pc) (hfrees : t.frees = s.frees)
    (hcaller : t.caller = s.caller) (hs : s.phase ≠ .returned) (ht : t.phase ≠ .returned) :
    Freed t :=
  h.frame (.refl hpc) hfrees hcaller ⟨fun hp => absurd hp ht, fun hp => absurd hp hs⟩

theorem testNthreads_not_returned (s : State) : s.testNthreads.phase ≠ .returned := by
  unfold State.testNthreads
  simp only
  split <;> simp

theorem Freed.exitRoutine (h : Freed s) (hstep : exitRoutine s w = some t) : Freed t := by
  unfold ThreadPool.exitRoutine at hstep
  split at hstep
  · next hw =>
    cases hstep
    have hphase : (countOut s w).phase = .returned ↔ s.phase = .returned := by
      unfold countOut
      simp only
      split
      · cases s.phase <;> simp [Phase.notify]
      · exact Iff.rfl
    exact h.frame (stays_setPc hw.1 (by simp) (q := .joining s.tid) (by simp) (by simp) rfl) rfl
      rfl hphase
  · cases hstep

theorem Freed.exitJoin (h : Freed s) (hstep : exitJoin s w = some t) : Freed t := by
  unfold ThreadPool.exitJoin at hstep
  split at hstep
  · next hw =>
    cases hstep
    exact h.frame (stays_setPc hw (by simp) (q := .ended) (by simp) (by simp) rfl) rfl rfl Iff.rfl
  · next b hw =>
    split at hstep
    · cases hstep
      exact h.frame (stays_setPc hw (by simp) (q := .ended) (by simp) (by simp) rfl) rfl rfl
        Iff.rfl
    · cases hstep
  · cases hstep

/-- The worker that calls `thrdpool_destroy` has not freed the pool. -/
theorem Freed.destroy {caller : Option Nat} (h : Freed s)
    (hstep : thrdpoolDestroy s caller = some t) : Freed t := by
  unfold thrdpoolDestroy at hstep
  split at hstep
  · next hidle =>
    have hs : s.phase ≠ .returned := by simp [hidle]
    split at hstep
    · cases hstep
      exact h.setPhase rfl rfl rfl hs (by simp)
    · next w =>
      split at hstep
      · next hw =>
        cases hstep
        have hmove : Stays s (s.setPc w .destroying) :=
          stays_setPc hw (by simp) (q := .destroying) (by simp) (by simp) rfl
        cases h with
        | notYet frees pc phase =>
          exact .notYet frees (fun v hv => pc v ((hmove v).1.mp hv)) (by simp)
        | outside frees phase caller pc => exact absurd phase hs
        | worker v frees pc only caller =>
          refine .worker v frees ((hmove v).1.mpr pc) (fun u hu => only u ((hmove u).1.mp hu)) ?_
          intro hc
          obtain rfl : w = v := Option.some.inj hc
          rw [hw] at pc
          cases pc
      · cases hstep
  · cases hstep

theorem Freed.terminate (h : Freed s) (hstep : terminate s = some t) : Freed t := by
  simp only [ThreadPool.terminate] at hstep
  split at hstep
  · next hcalled =>
    have hs : s.phase ≠ .returned := by simp [hcalled.1]
    split at hstep
    · cases hstep
      exact h.setPhase rfl rfl rfl hs (testNthreads_not_returned _)
    · cases hstep
      exact h.setPhase rfl rfl rfl hs (testNthreads_not_returned _)
  · cases hstep

theorem Freed.readTid (h : Freed s) (hstep : readTid s = some t) : Freed t := by
  unfold ThreadPool.readTid at hstep
  split at hstep
  · next hphase =>
    have hs : s.phase ≠ .returned := by simp [hphase]
    split at hstep
    · cases hstep
      exact h.setPhase rfl rfl rfl hs (by simp)
    · cases hstep
      exact h.setPhase rfl rfl rfl hs (by simp)
  · cases hstep

theorem Freed.terminateJoin (h : Freed s) (hstep : terminateJoin s = some t) : Freed t := by
  unfold ThreadPool.terminateJoin at hstep
  split at hstep
  · next hphase =>
    split at hstep
    · cases hstep
      exact h.setPhase rfl rfl rfl (by simp [hphase]) (by simp)
    · cases hstep
  · cases hstep

/-- Every step keeps what is known of who frees the pool. -/
theorem Freed.step {l : Label} (h : Freed s) (hbooks : Books n s) (hstep : step s l = some t) :
    Freed t := by
  cases l with
  | schedule | decrease | drainTask task =>
    obtain ⟨queue, rfl⟩ := queue_of_step rfl hstep
    exact h.frame (.refl rfl) rfl rfl Iff.rfl
  | testStop w | getTask w task | getNull w | exit w => exact h.goesOn (goesOn_of_step rfl hstep)
  | increase =>
    simp only [ThreadPool.step, thrdpoolIncrease] at hstep
    split at hstep
    · cases hstep
      have hnew := hbooks.absent _ (Nat.le_refl _)
      exact h.frame (stays_setPc hnew (by simp) (q := .loop) (by simp) (by simp) rfl) rfl rfl Iff.rfl
    · cases hstep
  | increased =>
    simp only [ThreadPool.step, thrdpoolIncreased] at hstep
    split at hstep
    · cases hstep
      exact h.frame (.refl rfl) rfl rfl Iff.rfl
    · cases hstep
  | taskReturns w => exact h.taskReturns hbooks hstep
  | exitRoutine w => exact h.exitRoutine hstep
  | exitJoin w => exact h.exitJoin hstep
  | destroy caller => exact h.destroy hstep
  | terminate => exact h.terminate hstep
  | wake =>
    simp only [ThreadPool.step, wake] at hstep
    split at hstep
    · next hphase =>
      cases hstep
      exact h.setPhase rfl rfl rfl (by simp [hphase]) (by simp)
    · cases hstep
  | testAgain =>
    simp only [ThreadPool.step, testAgain] at hstep
    split at hstep
    · next hphase =>
      cases hstep
      exact h.setPhase rfl rfl rfl (by simp [hphase.1]) (testNthreads_not_returned _)
    · cases hstep
  | readTid => exact h.readTid hstep
  | terminateJoin => exact h.terminateJoin hstep
  | destroyReturns => exact h.destroyReturns hbooks hstep

/-! ## The joins -/

/-- What the join chain promises in every state. -/
structure Joined (s : State) : Prop where
  /-- No worker is joined twice. -/
  once : s.joined.Nodup
  /-- Nobody joins itself. -/
  self : ∀ j w, (j, w) ∈ s.joins → j ≠ some w
  /-- A worker that destroys the pool is never joined, and is detached as soon as it has stopped the
  pool; nobody else is detached. -/
  caller : ∀ w, s.caller = some w → w ∉ s.joined
  detached : s.detached = if s.phase.begun then s.caller.toList else []
  /-- When `thrdpool_destroy` returns every other worker has been joined. -/
  all : s.phase = .returned → ∀ w < s.started, s.caller ≠ some w → w ∈ s.joined
  freed_once : s.frees.length ≤ 1
  /-- The outside caller frees the pool before `thrdpool_destroy` returns. -/
  freed_outside : s.phase = .returned → s.caller = none → s.frees = [none]
  /-- A worker's routine frees it after that: it finds `nthreads` 0 when the task returns. -/
  freed_inside : ∀ w, s.phase = .returned → s.caller = some w →
    (s.pc w = .destroyed ∧ s.nthreads = 0 ∧ s.frees = []) ∨
      (s.pc w = .returned ∧ s.frees = [some w])

theorem allocated_chain (n : Nat) : Chain (.allocated n) :=
  ⟨rfl, trivial, nofun, nofun, nofun, List.nodup_nil, nofun, nofun, rfl⟩

theorem joined_of_laws (hbooks : Books n s) (hchain : Chain s) (hfreed : Freed s) : Joined s := by
  refine ⟨hchain.nodup, hchain.self, ?caller, hchain.detached, ?all, ?freed_once, ?freed_outside,
    ?freed_inside⟩
  case caller =>
    intro w hc hmem
    have hexit := (hbooks.exits w).mp (hchain.joined w hmem)
    rcases hbooks.caller w hc with hd | hd
    · cases hp : s.pc w <;> simp_all [Pc.exited, Pc.destroys]
    · rw [hd] at hexit
      cases hexit
  case all =>
    intro hphase w hw hc
    have hgone := hbooks.mem_gone (by rw [hphase]; rfl) hw
    rw [State.gone_eq_append (by rw [hphase]; rfl)] at hgone
    have hmem : w ∈ s.exits := by
      rcases List.mem_append.mp hgone with hmem | hmem
      · exact hmem
      · exact absurd (Option.mem_toList.mp hmem) hc
    have hhanded := hchain.handed
    cases hexits : s.exits with
    | nil =>
      rw [hexits] at hmem
      cases hmem
    | cons a l =>
      rw [hexits] at hhanded hmem
      obtain ⟨hjoined, hended⟩ := hchain.head a (by rw [hexits]; rfl)
      rw [hphase] at hjoined hended
      rcases List.mem_cons.mp hmem with rfl | hmem
      · exact hjoined.mpr rfl
      · exact (hhanded.all (hended rfl) w hmem).2
  case freed_once =>
    cases hfreed with
    | notYet frees pc phase => rw [frees]; exact Nat.zero_le 1
    | outside frees phase caller pc => rw [frees]; exact Nat.le_refl 1
    | worker v frees pc only caller => rw [frees]; exact Nat.le_refl 1
  case freed_outside =>
    intro hphase hc
    cases hfreed with
    | notYet frees pc phase =>
      obtain ⟨w, hw, -⟩ := phase hphase
      rw [hc] at hw
      cases hw
    | outside frees phase caller pc => exact frees
    | worker v frees pc only caller =>
      have hvlt : v < s.started := hbooks.lt_started (by rw [pc]; simp)
      have hvgone := hbooks.mem_gone (by rw [hphase]; rfl) hvlt
      rw [hbooks.returned_gone pc hvgone] at hc
      cases hc
  case freed_inside =>
    intro w hphase hc
    cases hfreed with
    | notYet frees pc phase =>
      left
      obtain ⟨v, hv, hpc⟩ := phase hphase
      obtain rfl : v = w := Option.some.inj (hv.symm.trans hc)
      exact ⟨hpc, (hbooks.past (by rw [hphase]; rfl)).1, frees⟩
    | outside frees phase caller pc =>
      rw [caller] at hc
      cases hc
    | worker v frees pc only caller =>
      right
      have hvlt : v < s.started := hbooks.lt_started (by rw [pc]; simp)
      have hvgone := hbooks.mem_gone (by rw [hphase]; rfl) hvlt
      have hvc := hbooks.returned_gone pc hvgone
      obtain rfl : v = w := Option.some.inj (hvc.symm.trans hc)
      exact ⟨pc, frees⟩

/-- In every run in which the increases come before `thrdpool_destroy`. -/
theorem joined_of_increasesFirst
    (h : (system n).Reaches (fun s l => increasesFirst s l = true) s) : Joined s := by
  have hlaws : Books n s ∧ Chain s ∧ Freed s := by
    induction h with
    | init hs =>
      rw [init_iff.mp hs]
      exact ⟨allocated_books n, allocated_chain n, .notYet rfl nofun nofun⟩
    | step _ hok hstep ih =>
      obtain ⟨hbooks, hchain, hfreed⟩ := ih
      exact ⟨hbooks.step (inTime_of_increasesFirst hok) hstep, hchain.step hbooks hok hstep,
        hfreed.step hbooks hstep⟩
  exact joined_of_laws hlaws.1 hlaws.2.1 hlaws.2.2

/-- Three workers: one takes an exit task and leaves, one destroys the pool in a user's task, and the
third one joins the first and is joined by `thrdpool_destroy`. -/
def destroyInsideRun : List Label :=
  exitFirst ++ [.increase, .increased, .increase, .increased, .testStop 1, .getTask 1 .user,
    .destroy (some 1), .terminate, .testStop 2, .exitRoutine 2, .exitJoin 2, .testAgain, .readTid,
    .terminateJoin, .destroyReturns, .taskReturns 1]

theorem joined_of_increasesFirst_run :
    ∃ s, (system 0).Reaches (fun s l => increasesFirst s l = true) s ∧
      s.joins = [(some 1, 2), (some 2, 0)] ∧ s.detached = [1] ∧ s.frees = [some 1] ∧
        Joined s := by
  have hrun : ((system 0).runIf increasesFirst (.allocated 0) destroyInsideRun).map
      (fun s => (s.joins, s.detached, s.frees)) =
        some ([(some 1, 2), (some 2, 0)], [1], [some 1]) := by
    decide +kernel
  obtain ⟨s, hs, hlog⟩ := Option.map_eq_some_iff.mp hrun
  simp only [Prod.mk.injEq] at hlog
  have hreach : (system 0).Reaches (fun s l => increasesFirst s l = true) s :=
    System.reaches_of_runIf (fun _ _ h => h) (init_iff.mpr rfl) hs
  exact ⟨s, hreach, hlog.1, hlog.2.1, hlog.2.2, joined_of_increasesFirst hreach⟩

end WorkflowKernel.ThreadPool
