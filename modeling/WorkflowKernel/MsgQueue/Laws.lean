import WorkflowKernel.MsgQueue.Steps

/-!
# No message is lost or duplicated while the head put's `try_lock` is not refused

`msgqueue_put_head` enters the branch that needs `get_mutex` when `try_lock() == 0`, which is when
the lock was not acquired. The branch is still right while the lock is held by the very thread
that runs it; it is wrong as soon as another thread holds it. `Guarded` is the condition that this
does not happen.

## What is proved

- `inv_step`: a guarded step keeps the invariant of the two buffers.
- `conserved_of_guarded`: in every run of guarded steps, by any number of threads, a message whose
  put has completed was taken by exactly one get or is in exactly one buffer, once, and `*get_head`
  is changed by the holder of `get_mutex` only.
- `headPut_loses_message`: without the condition a run of three threads loses a message.
-/

namespace WorkflowKernel.MsgQueue

open WorkflowKernel.Transition
open WorkflowKernel.Lib

variable {Tid : Type} [DecidableEq Tid]

/-- The `try_lock` of a head put is not refused for the sake of another thread. -/
def Guarded (s : State Tid) : Label Tid → Prop
  | .step t _ => ∀ msg, s.pc t = .headTry msg → s.getMutex = none ∨ s.getMutex = some t
  | _ => True

/-- The same condition, as a check that runs. -/
def guardedB (s : State Tid) : Label Tid → Bool
  | .step t _ =>
    match s.pc t with
    | .headTry _ => s.getMutex = none ∨ s.getMutex = some t
    | _ => true
  | _ => true

/-- The check decides the condition. -/
theorem guarded_of_check (s : State Tid) (a : Label Tid) (h : guardedB s a = true) :
    Guarded s a := by
  cases a with
  | step t woken =>
    intro msg hpc
    simpa [guardedB, hpc] using h
  | call | spurious => trivial

section Step

variable {s s' : State Tid} {gl pl : List Msg} {t : Tid} {woken : Option Tid}

/-- A step of an operation keeps the buffers, -/
theorem inv_exec (hi : Inv s gl pl) (guarded : Guarded s (.step t woken))
    (h : exec s t woken = some s') : ∃ gl' pl', Inv s' gl' pl' := by
  simp only [exec, Option.or_eq_some_iff] at h
  rcases h with h | ⟨-, h | ⟨-, h | ⟨-, h | ⟨-, h⟩⟩⟩⟩
  · exact ⟨gl, inv_msgQueuePut hi rfl h⟩
  · exact inv_msgqueuePutHead hi rfl guarded h
  · exact inv_msgqueueSwap hi rfl h
  · obtain ⟨gl', h'⟩ := inv_msgqueueGet hi rfl h
    exact ⟨gl', pl, h'⟩
  · exact ⟨gl, pl, inv_msgqueueSetNonblock hi rfl h⟩

/-- and so does a spurious wake-up. -/
theorem inv_wakeSpuriously (hi : Inv s gl pl) (h : wakeSpuriously s t = some s') :
    Inv s' gl pl := by
  have hpc : ∀ u, Function.update s.pc t (s.pc t).wake u = s.pc u ∨
      Function.update s.pc t (s.pc t).wake u = (s.pc u).wake := by
    intro u
    by_cases hu : u = t
    · subst hu
      exact .inr (Function.update_self ..)
    · exact .inl (Function.update_of_ne hu ..)
  simp only [wakeSpuriously] at h
  split at h
  · cases h
    exact hi.woken (by constructor <;> rfl) rfl rfl rfl hpc
  · split at h
    · cases h
      exact hi.woken (by constructor <;> rfl) rfl rfl rfl hpc
    · cases h

/-- A guarded step keeps the invariant. -/
theorem inv_step {a : Label Tid} (hi : Inv s gl pl) (guarded : Guarded s a)
    (h : step s a = some s') : ∃ gl' pl', Inv s' gl' pl' := by
  cases a with
  | call t c =>
    simp only [step] at h
    split at h
    · next hidle =>
      cases h
      exact ⟨gl, pl, inv_enter hi hidle c⟩
    · cases h
  | step t woken => exact inv_exec hi guarded h
  | spurious t => exact ⟨gl, pl, inv_wakeSpuriously hi h⟩

end Step

/-- The buffers stay well formed in every guarded run. -/
theorem inductive_inv :
    InductiveInvariant (system Tid) Guarded fun s => ∃ gl pl, Inv s gl pl where
  init := by
    rintro s ⟨maxlen, rfl⟩
    exact ⟨[], [], inv_create maxlen⟩
  step := by
    rintro s a s' ⟨gl, pl, hi⟩ guarded h
    exact inv_step hi guarded h

/-! ## What a get takes it returns -/

/-- No step of a get's last two, as far as the log can tell. -/
structure Quiet (s s' : State Tid) : Prop where
  taken : s'.taken = s.taken
  returned : s'.returned = s.returned
  leaving : ∀ u m, s'.pc u = .getUnlock (some m) ↔ s.pc u = .getUnlock (some m)

section Log

variable {s s' : State Tid} {t : Tid} {woken : Option Tid} {pc : Pc}

omit [DecidableEq Tid] in
/-- Two quiet steps. -/
theorem Quiet.trans {s₁ s₂ s₃ : State Tid} (h : Quiet s₁ s₂) (h' : Quiet s₂ s₃) : Quiet s₁ s₃ :=
  ⟨h'.taken.trans h.taken, h'.returned.trans h.returned,
    fun u m => (h'.leaving u m).trans (h.leaving u m)⟩

/-- A step of `t` between counters that are not a get's last. -/
theorem Quiet.goto (hpc : s'.pc = Function.update s.pc t pc) (taken : s'.taken = s.taken)
    (returned : s'.returned = s.returned) (before : ∀ m, s.pc t ≠ .getUnlock (some m))
    (after : ∀ m, pc ≠ .getUnlock (some m)) : Quiet s s' where
  taken := taken
  returned := returned
  leaving u m := by
    by_cases hu : u = t
    · subst hu
      rw [hpc, Function.update_self]
      exact ⟨fun h => absurd h (after m), fun h => absurd h (before m)⟩
    · rw [hpc, Function.update_of_ne hu]

theorem wake_eq_getUnlock {m : Option Msg} : pc.wake = .getUnlock m ↔ pc = .getUnlock m := by
  cases pc <;> simp [Pc.wake]

omit [DecidableEq Tid] in
/-- Waking threads sends none of them to the end of a get. -/
theorem Quiet.of_wake (taken : s'.taken = s.taken) (returned : s'.returned = s.returned)
    (hpc : ∀ u, s'.pc u = s.pc u ∨ s'.pc u = (s.pc u).wake) : Quiet s s' where
  taken := taken
  returned := returned
  leaving u m := by
    rcases hpc u with h | h <;> rw [h]
    exact wake_eq_getUnlock

/-- Notifying takes and returns nothing, -/
theorem quiet_notifyGet (h : s.notifyGet woken = some s') : Quiet s s' := by
  cases woken with
  | none =>
    simp only [State.notifyGet] at h
    split at h
    · cases h; exact .of_wake rfl rfl fun _ => .inl rfl
    · cases h
  | some w =>
    simp only [State.notifyGet] at h
    split at h
    · cases h
      refine .of_wake rfl rfl fun u => ?_
      by_cases hu : u = w
      · subst hu; exact .inr (Function.update_self ..)
      · exact .inl (Function.update_of_ne hu ..)
    · cases h

theorem quiet_notifyAllPut : Quiet s s.notifyAllPut :=
  .of_wake rfl rfl fun u => by
    simp only [State.notifyAllPut]
    split
    · exact .inr rfl
    · exact .inl rfl

theorem quiet_notifyFull : Quiet s s.notifyFull := by
  unfold State.notifyFull
  split
  · exact quiet_notifyAllPut
  · exact .of_wake rfl rfl fun _ => .inl rfl

/-- nor does taking the mutex. -/
theorem quiet_lockPut (h : s.lockPut t pc = some s') (before : ∀ m, s.pc t ≠ .getUnlock (some m))
    (after : ∀ m, pc ≠ .getUnlock (some m)) : Quiet s s' := by
  simp only [State.lockPut] at h
  split at h
  · cases h; exact .goto rfl rfl rfl before after
  · cases h

/-- A put is quiet, -/
theorem quiet_msgQueuePut (hpc : s.pc t = pc) (h : msgQueuePut s t woken pc = some s') :
    Quiet s s' := by
  cases pc with
  | putLock | putWake => exact quiet_lockPut h (by simp [hpc]) (by simp)
  | putBody =>
    simp only [msgQueuePut] at h
    split at h <;> cases h <;> exact .goto rfl rfl rfl (by simp [hpc]) (by simp)
  | putUnlock => cases h; exact .goto rfl rfl rfl (by simp [hpc]) (by simp)
  | putNotify =>
    simp only [msgQueuePut, Option.bind_eq_bind, Option.bind_eq_some_iff] at h
    obtain ⟨s₁, hnotify, heq⟩ := h
    cases heq
    have hpc₁ : s₁.pc t = _ := (notifyGet_pc hnotify (by rw [hpc]; rfl)).trans hpc
    exact (quiet_notifyGet hnotify).trans (.goto rfl rfl rfl (by simp [hpc₁]) (by simp))
  | _ => cases h

/-- a head put is, -/
theorem quiet_msgqueuePutHead (hpc : s.pc t = pc) (h : msgqueuePutHead s t woken pc = some s') :
    Quiet s s' := by
  cases pc with
  | headLock | headWake => exact quiet_lockPut h (by simp [hpc]) (by simp)
  | headLoop | headTry | headBody =>
    simp only [msgqueuePutHead] at h
    split at h <;> cases h <;> exact .goto rfl rfl rfl (by simp [hpc]) (by simp)
  | headUnlockPut | headRead | headWrite | headUnlockGet | headRelease =>
    cases h; exact .goto rfl rfl rfl (by simp [hpc]) (by simp)
  | headNotify =>
    simp only [msgqueuePutHead, Option.bind_eq_bind, Option.bind_eq_some_iff] at h
    obtain ⟨s₁, hnotify, heq⟩ := h
    cases heq
    have hpc₁ : s₁.pc t = _ := (notifyGet_pc hnotify (by rw [hpc]; rfl)).trans hpc
    exact (quiet_notifyGet hnotify).trans (.goto rfl rfl rfl (by simp [hpc₁]) (by simp))
  | _ => cases h

/-- the exchange of the buffers is, -/
theorem quiet_swap (getHead putHead : Addr) (cnt : Nat)
    (before : ∀ m, s.pc t ≠ .getUnlock (some m)) :
    Quiet s ({ s.logHead t with
      getHead := getHead
      putHead := putHead
      putTail := putHead
      msgCnt := 0 }.goto t (.swapUnlock cnt)) :=
  .goto rfl rfl rfl before (by simp)

/-- so `__msgqueue_swap` is, -/
theorem quiet_msgqueueSwap (hpc : s.pc t = pc) (h : msgqueueSwap s t pc = some s') :
    Quiet s s' := by
  cases pc with
  | swapLock | swapWake => exact quiet_lockPut h (by simp [hpc]) (by simp)
  | swapBody =>
    simp only [msgqueueSwap] at h
    split at h
    · cases h; exact .goto rfl rfl rfl (by simp [hpc]) (by simp)
    · cases h
      have hfull := quiet_notifyFull (s := s)
      refine hfull.trans (quiet_swap _ _ _ fun m hm => ?_)
      rw [hfull.leaving, hpc] at hm
      cases hm
  | swapUnlock cnt =>
    cases h
    exact .goto rfl rfl rfl (by simp [hpc]) (by intro m; split <;> simp)
  | _ => cases h

/-- `msgqueue_set_nonblock` and `msgqueue_set_block` are, -/
theorem quiet_msgqueueSetNonblock (hpc : s.pc t = pc)
    (h : msgqueueSetNonblock s t woken pc = some s') : Quiet s s' := by
  cases pc with
  | nonblockStore | nonblockUnlock | blockStore =>
    cases h; exact .goto rfl rfl rfl (by simp [hpc]) (by simp)
  | nonblockLock => exact quiet_lockPut h (by simp [hpc]) (by simp)
  | nonblockNotify =>
    simp only [msgqueueSetNonblock, Option.bind_eq_bind, Option.bind_eq_some_iff] at h
    obtain ⟨s₁, hnotify, heq⟩ := h
    cases heq
    have hpc₁ : s₁.pc t = _ := (notifyGet_pc hnotify (by rw [hpc]; rfl)).trans hpc
    have hall := quiet_notifyAllPut (s := s₁)
    refine ((quiet_notifyGet hnotify).trans hall).trans
      (.goto rfl rfl rfl (fun m hm => ?_) (by simp))
    rw [hall.leaving, hpc₁] at hm
    cases hm
  | _ => cases h

/-- and a spurious wake-up. -/
theorem quiet_wakeSpuriously (h : wakeSpuriously s t = some s') : Quiet s s' := by
  have hpc : ∀ u, Function.update s.pc t (s.pc t).wake u = s.pc u ∨
      Function.update s.pc t (s.pc t).wake u = (s.pc u).wake := by
    intro u
    by_cases hu : u = t
    · subst hu; exact .inr (Function.update_self ..)
    · exact .inl (Function.update_of_ne hu ..)
  simp only [wakeSpuriously] at h
  split at h
  · cases h; exact .of_wake rfl rfl hpc
  · split at h
    · cases h; exact .of_wake rfl rfl hpc
    · cases h

/-- A get that took `m` and has not returned counts one for the pair. -/
def State.leaving (s : State Tid) (t : Tid) (m : Msg) : Nat :=
  if s.pc t = .getUnlock (some m) then 1 else 0

/-- What the gets of `t` took they return, the last of them perhaps still to come. -/
def Returns (s : State Tid) : Prop :=
  ∀ t m, s.taken.count (t, m) = s.returned.count (t, some m) + s.leaving t m

/-- A quiet step keeps what was taken and returned in balance, -/
theorem Returns.of_quiet (hr : Returns s) (h : Quiet s s') : Returns s' := by
  intro u m
  rw [h.taken, h.returned, hr u m, State.leaving, State.leaving]
  simp only [h.leaving]

theorem leaving_update (hpc : s'.pc = Function.update s.pc t pc) (u : Tid) (m : Msg) :
    s'.leaving u m =
      if u = t then (if pc = .getUnlock (some m) then 1 else 0) else s.leaving u m := by
  by_cases hu : u = t
  · subst hu
    rw [State.leaving, hpc, Function.update_self, if_pos rfl]
  · rw [State.leaving, hpc, Function.update_of_ne hu, if_neg hu, State.leaving]

/-- The pop logs what it takes, and leaves the get about to return it. -/
theorem Returns.pop {msg : Msg} {next : Option Msg} (hr : Returns s)
    (hpc : s.pc t = .getWrite msg next) (taken : s'.taken = s.taken ++ [(t, msg)])
    (returned : s'.returned = s.returned)
    (after : s'.pc = Function.update s.pc t (.getUnlock (some msg))) : Returns s' := by
  intro u m
  have hu := hr u m
  rw [taken, returned, leaving_update after, List.count_append, List.count_singleton, hu]
  by_cases ht : u = t
  · subst ht
    have hnone : s.leaving u m = 0 := by simp [State.leaving, hpc]
    by_cases hm : msg = m <;> simp [hm, hnone]
  · simp [ht, Ne.symm ht]

/-- The return of a get moves its message from the one log to the other. -/
theorem Returns.leave {msg : Option Msg} (hr : Returns s) (hpc : s.pc t = .getUnlock msg)
    (taken : s'.taken = s.taken) (returned : s'.returned = s.returned ++ [(t, msg)])
    (after : s'.pc = Function.update s.pc t .idle) : Returns s' := by
  intro u m
  have hu := hr u m
  rw [taken, returned, leaving_update after, List.count_append, List.count_singleton, hu]
  by_cases ht : u = t
  · subst ht
    by_cases hm : msg = some m <;> simp [State.leaving, hpc, hm]
  · simp [ht, Ne.symm ht]

/-- and a get does, which takes a message and then returns it. -/
theorem returns_msgqueueGet (hr : Returns s) (hpc : s.pc t = pc)
    (h : msgqueueGet s t pc = some s') : Returns s' := by
  cases pc with
  | getLock | getTest | getMsg | getNext =>
    simp only [msgqueueGet] at h
    split at h <;> cases h <;>
      exact hr.of_quiet (.goto rfl rfl rfl (by simp [hpc]) (by simp))
  | getWrite msg next => cases h; exact hr.pop hpc rfl rfl rfl
  | getUnlock msg => cases h; exact hr.leave hpc rfl rfl rfl
  | _ => cases h

end Log

/-- In every run what was taken is returned, or about to be. -/
theorem inductive_returns : InductiveInvariant (system Tid) (fun _ _ => True) Returns where
  init := by
    rintro s ⟨maxlen, rfl⟩ t m
    simp [msgqueueCreate, State.leaving]
  step := by
    rintro s a s' hr - h
    cases a with
    | call t c =>
      simp only [system, step] at h
      split at h
      · next hidle =>
        cases h
        refine hr.of_quiet ?_
        cases c <;> exact .goto rfl rfl rfl (by simp [hidle]) (by simp)
      · cases h
    | step t woken =>
      simp only [system, step, exec, Option.or_eq_some_iff] at h
      rcases h with h | ⟨-, h | ⟨-, h | ⟨-, h | ⟨-, h⟩⟩⟩⟩
      · exact hr.of_quiet (quiet_msgQueuePut rfl h)
      · exact hr.of_quiet (quiet_msgqueuePutHead rfl h)
      · exact hr.of_quiet (quiet_msgqueueSwap rfl h)
      · exact returns_msgqueueGet hr rfl h
      · exact hr.of_quiet (quiet_msgqueueSetNonblock rfl h)
    | spurious t => exact hr.of_quiet (quiet_wakeSpuriously h)

/-! ## The law -/

/-- A message that was put is taken by one get or stands in one buffer, once; what a get took it
returns; `*get_head` is changed under `get_mutex` only. -/
structure Conserved (s : State Tid) : Prop where
  once : ∃ gl pl, Chain Addr.link s.mem s.getHead gl ∧ Chain Addr.link s.mem s.putHead pl ∧
    ∀ m ∈ s.completed, (s.taken.map Prod.snd).count m + gl.count m + pl.count m = 1
  returns : ∀ t m, s.taken.count (t, m) = s.returned.count (t, some m) + s.leaving t m
  writes : ∀ w ∈ s.headWrites, w.2 = some w.1

/-- The buffers and what was taken hold each completed message once. -/
theorem Inv.conserved {s : State Tid} {gl pl : List Msg} (hi : Inv s gl pl) (hr : Returns s) :
    Conserved s where
  once := by
    refine ⟨gl, pl, hi.buffers.getChain, hi.buffers.putChain, fun m hm => ?_⟩
    have honce := List.count_eq_one_of_mem hi.nodup (hi.completed m hm)
    simp only [State.all, List.count_append] at honce
    omega
  returns := hr
  writes := hi.guarded

/-- In every run in which no `try_lock` of a head put is refused for the sake of another thread,
no message is lost or duplicated. -/
theorem conserved_of_guarded {s : State Tid} (h : (system Tid).Reaches Guarded s) :
    Conserved s := by
  obtain ⟨gl, pl, hi⟩ := inductive_inv.holds h
  exact hi.conserved (inductive_returns.holds (h.mono fun _ _ _ => trivial))

/-! ## Runs -/

/-- The thread `t` calls `c` and takes `n` steps, with no thread waiting to be notified. -/
def runCall (t : Nat) (c : Call) (n : Nat) : List (Label Nat) :=
  .call t c :: List.replicate n (.step t none)

/-- Two puts, a get that swaps, a head put on the get buffer, and a get of what it put. -/
def guardedRun : List (Label Nat) :=
  runCall 0 .put 4 ++ runCall 0 .put 4 ++ runCall 1 .get 9 ++ runCall 2 .putHead 9 ++
    runCall 1 .get 6

theorem conserved_of_guarded_run : ∃ s, (system Nat).Reaches Guarded s ∧
    s.completed = [0, 1, 2] ∧ s.returned = [(1, some 0), (1, some 2)] ∧ Conserved s := by
  have hrun : ((system Nat).runIf guardedB (msgqueueCreate Nat 4) guardedRun).map
      (fun s => (s.completed, s.returned)) = some ([0, 1, 2], [(1, some 0), (1, some 2)]) := by
    decide +kernel
  obtain ⟨s, hs, hlog⟩ := Option.map_eq_some_iff.mp hrun
  have hreach := System.reaches_of_runIf (M := system Nat) guarded_of_check ⟨4, rfl⟩ hs
  exact ⟨s, hreach, congrArg Prod.fst hlog, congrArg Prod.snd hlog, conserved_of_guarded hreach⟩

/-- A get is suspended between reading and writing `*get_head`; a head put is refused by
`try_lock` for its sake and goes on into the get buffer; the get then stores its stale link. -/
def losingRun : List (Label Nat) :=
  runCall 0 .put 4 ++ runCall 0 .put 4 ++ runCall 1 .get 9 ++ runCall 1 .get 4 ++
    runCall 2 .putHead 7 ++ List.replicate 2 (.step 1 none)

/-- The message of the head put is gone, and `*get_head` was changed by a thread that did not hold
`get_mutex`. -/
theorem headPut_loses_message : ∃ s, (system Nat).Reachable s ∧ ¬ Conserved s := by
  have hrun : ((system Nat).run (msgqueueCreate Nat 4) losingRun).map
      (fun s => (s.completed, s.taken, s.mem s.getHead, s.mem s.putHead)) =
        some ([0, 1, 2], [(1, 0), (1, 1)], none, none) := by
    decide +kernel
  obtain ⟨s, hs, hlog⟩ := Option.map_eq_some_iff.mp hrun
  simp only [Prod.mk.injEq] at hlog
  obtain ⟨hcompleted, htaken, hget, hput⟩ := hlog
  refine ⟨s, System.reachable_of_run ⟨4, rfl⟩ hs, fun hc => ?_⟩
  obtain ⟨gl, pl, hgl, hpl, honce⟩ := hc.once
  have hlost := honce 2 (by simp [hcompleted])
  rw [hgl.eq_nil hget, hpl.eq_nil hput, htaken] at hlost
  exact absurd hlost (by decide)

end WorkflowKernel.MsgQueue
