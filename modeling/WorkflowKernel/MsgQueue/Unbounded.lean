import WorkflowKernel.MsgQueue.Capacity

/-!
# A queue created with bound 0

`thrdpool_create` makes its queue with `maxlen` 0 and takes that for no bound. Both puts compare
`msg_cnt` with `msg_max` for equality, so a put into the empty put buffer finds it full: it waits
when the queue is blocking, and a head put waits when it is not. `Unhindered` is the condition that
no put tests its bound there.

## What is proved

- `unbounded_of_unhindered`: in every such run no put waits for room, each goes on unless it waits
  for `put_mutex`, comes nearer to its end with every step, and has its message stored.
- `freshQueue_blocks`: the first put into such a queue waits.
-/

namespace WorkflowKernel.MsgQueue

open WorkflowKernel.Transition

variable {Tid : Type} [DecidableEq Tid]

/-- No put tests the bound on an empty buffer with the flag that makes it wait. -/
def Unhindered (s : State Tid) (a : Label Tid) : Prop :=
  ∀ t woken msg, a = .step t woken →
    (s.pc t = .putBody msg → ¬ (s.msgCnt = 0 ∧ s.nonblock = false)) ∧
      (s.pc t = .headBody msg → ¬ (s.msgCnt = 0 ∧ s.nonblock = true))

/-- The same condition, as a check that runs. -/
def unhinderedB (s : State Tid) : Label Tid → Bool
  | .step t _ =>
    match s.pc t with
    | .putBody _ => !(s.msgCnt = 0 ∧ s.nonblock = false)
    | .headBody _ => !(s.msgCnt = 0 ∧ s.nonblock = true)
    | _ => true
  | _ => true

omit [DecidableEq Tid] in
theorem unhindered_of_check (s : State Tid) (a : Label Tid) (h : unhinderedB s a = true) :
    Unhindered s a := by
  rintro t woken msg rfl
  constructor
  · intro hpc
    simpa [unhinderedB, hpc, imp_iff_not_or] using h
  · intro hpc
    simpa [unhinderedB, hpc, imp_iff_not_or] using h

/-! ## How far a put has come -/

/-- In `msg_queue_put` or `msgqueue_put_head`. -/
def Pc.putting : Pc → Bool
  | .putLock _ | .putBody _ | .putParked _ | .putWake _ | .putUnlock _ | .putNotify _ => true
  | pc => pc.inHead

/-- About to lock `put_mutex`. -/
def Pc.locksPut : Pc → Bool
  | .putLock _ | .putWake _ | .headLock _ | .headWake _ => true
  | _ => false

/-- A head put that acquires `get_mutex` goes round its loop once more. -/
def State.retries (s : State Tid) (t : Tid) : Nat := if s.getMutex = some t then 0 else 2

/-- The steps that a put has at most before it, waiting apart. -/
def State.stepsLeft (s : State Tid) (t : Tid) : Nat :=
  match s.pc t with
  | .putLock _ | .putWake _ => 4
  | .putBody _ => 3
  | .putUnlock _ => 2
  | .putNotify _ => 1
  | .headLock _ | .headWake _ => 9
  | .headLoop _ => 6 + s.retries t
  | .headTry _ => 5 + s.retries t
  | .headUnlockPut _ => 4
  | .headRead _ | .headBody _ => 3
  | .headWrite _ | .headNotify _ => 2
  | .headUnlockGet _ | .headRelease _ => 1
  | _ => 0

section Progress

variable {s s' : State Tid} {t : Tid} {woken : Option Tid} {pc : Pc}

/-- Somebody can be notified, or nobody waits. -/
theorem notifyGet_enabled (s : State Tid) : ∃ woken s', s.notifyGet woken = some s' := by
  cases hwaits : s.getCond with
  | nil => exact ⟨none, s, if_pos hwaits⟩
  | cons w ws =>
    refine ⟨some w, _, if_pos ?_⟩
    rw [hwaits]
    exact List.mem_cons_self

/-- A put that is not parked has a next step, or waits for `put_mutex`. -/
theorem putting_goesOn (hput : (s.pc t).putting = true) (hawake : (s.pc t).parkedPut = false) :
    (∃ woken s', exec s t woken = some s') ∨
      ((s.pc t).locksPut = true ∧ s.putMutex ≠ none) := by
  by_cases hlocks : (s.pc t).locksPut = true ∧ s.putMutex ≠ none
  · exact .inr hlocks
  · left
    obtain ⟨w, s₁, hnotify⟩ := notifyGet_enabled s
    cases hpc : s.pc t with
    | putLock | putWake | headLock | headWake =>
      rw [hpc] at hlocks
      have hfree : s.putMutex = none := by
        by_contra hheld
        exact hlocks ⟨rfl, hheld⟩
      simp only [exec, hpc, msgQueuePut, msgqueuePutHead, Option.none_or, State.lockPut, hfree,
        if_true, Option.some_or]
      exact ⟨none, _, rfl⟩
    | putBody | headBody | headTry =>
      simp only [exec, hpc, msgQueuePut, msgqueuePutHead, Option.none_or]
      refine ⟨none, ?_⟩
      split
      · exact ⟨_, rfl⟩
      · exact ⟨_, rfl⟩
    | headLoop =>
      simp only [exec, hpc, msgQueuePut, msgqueuePutHead, Option.none_or]
      refine ⟨none, ?_⟩
      split
      · exact ⟨_, rfl⟩
      · exact ⟨_, rfl⟩
    | putNotify | headNotify =>
      refine ⟨w, ?_⟩
      simp only [exec, hpc, msgQueuePut, msgqueuePutHead, Option.none_or, hnotify,
        Option.bind_eq_bind, Option.bind_some, Option.some_or]
      exact ⟨_, rfl⟩
    | putUnlock | headUnlockPut | headRead | headWrite | headUnlockGet | headRelease =>
      simp only [exec, hpc, msgQueuePut, msgqueuePutHead, Option.none_or, Option.some_or]
      exact ⟨none, _, rfl⟩
    | putParked | headParked =>
      rw [hpc] at hawake
      cases hawake
    | _ =>
      rw [hpc] at hput
      cases hput

/-- A step of a put is one of the two functions'. -/
theorem exec_putting (hput : (s.pc t).putting = true) (h : exec s t woken = some s') :
    msgQueuePut s t woken (s.pc t) = some s' ∨ msgqueuePutHead s t woken (s.pc t) = some s' := by
  simp only [exec, Option.or_eq_some_iff] at h
  obtain h | ⟨-, h | ⟨-, h | ⟨-, h | ⟨-, h⟩⟩⟩⟩ := h
  · exact .inl h
  · exact .inr h
  · cases hpc : s.pc t with
    | swapLock | swapBody | swapWake | swapUnlock =>
      rw [hpc] at hput
      cases hput
    | _ =>
      rw [hpc] at h
      cases h
  · cases hpc : s.pc t with
    | getLock | getTest | getMsg | getNext | getWrite | getUnlock =>
      rw [hpc] at hput
      cases hput
    | _ =>
      rw [hpc] at h
      cases h
  · cases hpc : s.pc t with
    | nonblockStore | nonblockLock | nonblockNotify | nonblockUnlock | blockStore =>
      rw [hpc] at hput
      cases hput
    | _ =>
      rw [hpc] at h
      cases h

theorem retries_le (s : State Tid) (t : Tid) : s.retries t ≤ 2 := by
  unfold State.retries
  split
  · exact Nat.zero_le 2
  · exact Nat.le_refl 2

theorem stepsLeft_msgQueuePut (hpc : s.pc t = pc) (h : msgQueuePut s t woken pc = some s')
    (hawake : (s'.pc t).parkedPut = false) : s'.stepsLeft t < s.stepsLeft t := by
  cases pc with
  | putLock msg | putWake msg =>
    simp only [msgQueuePut, State.lockPut] at h
    split at h
    · cases h
      simp [State.stepsLeft, hpc, State.goto]
    · cases h
  | putBody msg =>
    simp only [msgQueuePut] at h
    split at h
    · cases h
      simp [State.unlockPut, State.goto, Pc.parkedPut] at hawake
    · cases h
      simp [State.stepsLeft, hpc, State.goto]
  | putUnlock msg =>
    cases h
    simp [State.stepsLeft, hpc, State.unlockPut, State.goto]
  | putNotify msg =>
    simp only [msgQueuePut, Option.bind_eq_bind, Option.bind_eq_some_iff] at h
    obtain ⟨s₁, hnotify, heq⟩ := h
    cases heq
    simp [State.stepsLeft, hpc, State.goto]
  | _ => cases h

theorem stepsLeft_msgqueuePutHead (hpc : s.pc t = pc)
    (h : msgqueuePutHead s t woken pc = some s') (hawake : (s'.pc t).parkedPut = false) :
    s'.stepsLeft t < s.stepsLeft t := by
  have hretries := retries_le s' t
  cases pc with
  | headLock msg =>
    simp only [msgqueuePutHead, State.lockPut] at h
    split at h
    · cases h
      simp only [State.stepsLeft, hpc, State.goto, Function.update_self] at hretries ⊢
      omega
    · cases h
  | headWake msg =>
    simp only [msgqueuePutHead, State.lockPut] at h
    split at h
    · cases h
      simp [State.stepsLeft, hpc, State.goto]
    · cases h
  | headLoop msg =>
    simp only [msgqueuePutHead] at h
    split at h
    · cases h
      have hsame : (s.goto t (.headTry msg)).retries t = s.retries t := rfl
      simp only [State.stepsLeft, hpc, hsame]
      simp [State.goto]
    · cases h
      simp only [State.stepsLeft, hpc, State.goto, Function.update_self]
      omega
  | headTry msg =>
    simp only [msgqueuePutHead] at h
    split at h
    · next hfree =>
      -- round the loop again, with `get_mutex`
      cases h
      simp [State.stepsLeft, State.retries, hpc, hfree, State.goto]
    · cases h
      simp only [State.stepsLeft, hpc, State.goto, Function.update_self]
      omega
  | headUnlockPut msg | headRead msg | headWrite msg | headUnlockGet msg | headRelease msg =>
    cases h
    simp [State.stepsLeft, hpc, State.unlockPut, State.goto]
  | headBody msg =>
    simp only [msgqueuePutHead] at h
    split at h
    · cases h
      simp [State.unlockPut, State.goto, Pc.parkedPut] at hawake
    · cases h
      simp [State.stepsLeft, hpc, State.goto]
  | headNotify msg =>
    simp only [msgqueuePutHead, Option.bind_eq_bind, Option.bind_eq_some_iff] at h
    obtain ⟨s₁, hnotify, heq⟩ := h
    cases heq
    simp [State.stepsLeft, hpc, State.goto]
  | _ => cases h

/-- Each step of a put that does not park brings it nearer to its end. -/
theorem stepsLeft_lt (hput : (s.pc t).putting = true) (h : exec s t woken = some s')
    (hawake : (s'.pc t).parkedPut = false) : s'.stepsLeft t < s.stepsLeft t := by
  obtain h | h := exec_putting hput h
  · exact stepsLeft_msgQueuePut rfl h hawake
  · exact stepsLeft_msgqueuePutHead rfl h hawake

end Progress

/-! ## What is stored -/

/-- The step of `t` completes a put only whose message was stored, and has it stored by then. -/
structure Stores (s s' : State Tid) (t : Tid) (new : List Msg) : Prop where
  inserted : ∀ m, (s'.pc t).inserted = some m → (s.pc t).inserted = some m ∨ m ∈ new
  completed : ∀ m ∈ s'.completed, m ∈ s.completed ∨ (s.pc t).inserted = some m

section Stored

variable {s s' : State Tid} {t : Tid} {woken : Option Tid} {a : Label Tid} {pc : Pc}
variable {new : List Msg}

theorem inserted_wake (pc : Pc) : pc.wake.inserted = pc.inserted := by
  cases pc <;> rfl

omit [DecidableEq Tid] in
/-- A step that has nothing to do with a stored message. -/
theorem Stores.of_none (hpc : (s'.pc t).inserted = none) (hcompleted : s'.completed = s.completed) :
    Stores s s' t new where
  inserted := by
    intro m hm
    rw [hpc] at hm
    cases hm
  completed := by
    intro m hm
    rw [hcompleted] at hm
    exact .inl hm

omit [DecidableEq Tid] in
/-- The message of the thread stays stored. -/
theorem Stores.of_same (hpc : (s'.pc t).inserted = (s.pc t).inserted)
    (hcompleted : s'.completed = s.completed) : Stores s s' t new where
  inserted := by
    intro m hm
    rw [hpc] at hm
    exact .inl hm
  completed := by
    intro m hm
    rw [hcompleted] at hm
    exact .inl hm

omit [DecidableEq Tid] in
/-- A message is stored. -/
theorem Stores.of_stored {m : Msg} (hpc : (s'.pc t).inserted = some m) (hnew : m ∈ new)
    (hcompleted : s'.completed = s.completed) : Stores s s' t new where
  inserted := by
    intro x hx
    rw [hpc] at hx
    obtain rfl := Option.some.inj hx
    exact .inr hnew
  completed := by
    intro x hx
    rw [hcompleted] at hx
    exact .inl hx

omit [DecidableEq Tid] in
/-- A put whose message was stored returns. -/
theorem Stores.of_completed {m : Msg} (hpc : (s'.pc t).inserted = none)
    (hm : (s.pc t).inserted = some m) (hcompleted : s'.completed = s.completed ++ [m]) :
    Stores s s' t new where
  inserted := by
    intro x hx
    rw [hpc] at hx
    cases hx
  completed := by
    intro x hx
    rw [hcompleted] at hx
    obtain hx | hx := List.mem_append.mp hx
    · exact .inl hx
    · rw [List.mem_singleton.mp hx]
      exact .inr hm

theorem completed_notifyGet (h : s.notifyGet woken = some s') : s'.completed = s.completed := by
  cases woken with
  | none =>
    simp only [State.notifyGet] at h
    split at h
    · cases h
      rfl
    · cases h
  | some w =>
    simp only [State.notifyGet] at h
    split at h
    · cases h
      rfl
    · cases h

theorem completed_notifyFull (s : State Tid) : s.notifyFull.completed = s.completed := by
  unfold State.notifyFull
  split
  · rfl
  · rfl

/-- Locking `put_mutex` has nothing to do with a stored message. -/
theorem stores_lockPut (h : s.lockPut t pc = some s') (hpc : pc.inserted = none) :
    Stores s s' t new := by
  simp only [State.lockPut] at h
  split at h
  · cases h
    refine .of_none ?_ rfl
    rw [State.goto_pc, hpc]
  · cases h

theorem stores_msgQueuePut (hpc : s.pc t = pc) (h : msgQueuePut s t woken pc = some s') :
    Stores s s' t (stored s s' (.step t woken)) := by
  cases pc with
  | putLock msg | putWake msg => exact stores_lockPut h rfl
  | putBody msg =>
    simp only [msgQueuePut] at h
    split at h
    · cases h
      exact .of_none (by rw [State.unlockPut, State.goto_pc]; rfl) rfl
    · cases h
      refine .of_stored (m := msg) (by rw [State.goto_pc]; rfl) ?_ rfl
      simp [stored, hpc]
  | putUnlock msg =>
    cases h
    exact .of_same (by rw [State.unlockPut, State.goto_pc, hpc]; rfl) rfl
  | putNotify msg =>
    simp only [msgQueuePut, Option.bind_eq_bind, Option.bind_eq_some_iff] at h
    obtain ⟨s₁, hnotify, heq⟩ := h
    cases heq
    refine .of_completed (m := msg) (by rw [State.goto_pc]; rfl) (by rw [hpc]; rfl) ?_
    show s₁.completed ++ [msg] = _
    rw [completed_notifyGet hnotify]
  | _ => cases h

theorem stores_msgqueuePutHead (hpc : s.pc t = pc) (h : msgqueuePutHead s t woken pc = some s') :
    Stores s s' t (stored s s' (.step t woken)) := by
  cases pc with
  | headLock msg | headWake msg => exact stores_lockPut h rfl
  | headLoop msg | headTry msg =>
    simp only [msgqueuePutHead] at h
    split at h
    all_goals
      cases h
      exact .of_none (by rw [State.goto_pc]; rfl) rfl
  | headUnlockPut msg =>
    cases h
    exact .of_none (by rw [State.unlockPut, State.goto_pc]; rfl) rfl
  | headRead msg =>
    cases h
    exact .of_none (by rw [State.goto_pc]; rfl) rfl
  | headWrite msg =>
    cases h
    refine .of_stored (m := msg) (by rw [State.goto_pc]; rfl) ?_ rfl
    simp [stored, hpc]
  | headUnlockGet msg =>
    cases h
    exact .of_completed (m := msg) (by rw [State.goto_pc]; rfl) (by rw [hpc]; rfl) rfl
  | headBody msg =>
    simp only [msgqueuePutHead] at h
    split at h
    · cases h
      exact .of_none (by rw [State.unlockPut, State.goto_pc]; rfl) rfl
    · cases h
      refine .of_stored (m := msg) (by rw [State.goto_pc]; rfl) ?_ rfl
      simp [stored, hpc]
  | headNotify msg =>
    simp only [msgqueuePutHead, Option.bind_eq_bind, Option.bind_eq_some_iff] at h
    obtain ⟨s₁, hnotify, heq⟩ := h
    cases heq
    refine .of_same (by rw [State.goto_pc, hpc]; rfl) ?_
    show s₁.completed = s.completed
    exact completed_notifyGet hnotify
  | headRelease msg =>
    cases h
    exact .of_completed (m := msg) (by rw [State.unlockPut, State.goto_pc]; rfl)
      (by rw [hpc]; rfl) rfl
  | _ => cases h

/-- The swap starts from a state in which the producers may have been notified. -/
theorem swapBody_cases {getHead : Addr} (h : msgqueueSwap s t (.swapBody getHead) = some s') :
    s' = { s with getCond := s.getCond ++ [t] }.unlockPut t (.swapParked getHead) ∨
      ∃ s₁ : State Tid, s₁.completed = s.completed ∧ s' = { s₁.logHead t with
        getHead := s.putHead
        putHead := getHead
        putTail := getHead
        msgCnt := 0 }.goto t (.swapUnlock s.msgCnt) := by
  simp only [msgqueueSwap] at h
  split at h
  · exact .inl (Option.some.inj h).symm
  · exact .inr ⟨s.notifyFull, completed_notifyFull s, (Option.some.inj h).symm⟩

theorem stores_msgqueueSwap (h : msgqueueSwap s t pc = some s') : Stores s s' t new := by
  cases pc with
  | swapLock | swapWake => exact stores_lockPut h rfl
  | swapBody =>
    obtain rfl | ⟨s₁, hcompleted, rfl⟩ := swapBody_cases h
    · exact .of_none (by rw [State.unlockPut, State.goto_pc]; rfl) rfl
    · exact .of_none (by rw [State.goto_pc]; rfl) hcompleted
  | swapUnlock cnt =>
    cases h
    refine .of_none ?_ rfl
    rw [State.unlockPut, State.goto_pc]
    split
    · rfl
    · rfl
  | _ => cases h

theorem stores_msgqueueGet (h : msgqueueGet s t pc = some s') : Stores s s' t new := by
  cases pc with
  | getLock =>
    simp only [msgqueueGet] at h
    split at h
    · cases h
      exact .of_none (by rw [State.goto_pc]; rfl) rfl
    · cases h
  | getTest | getMsg | getNext =>
    simp only [msgqueueGet] at h
    split at h
    all_goals
      cases h
      exact .of_none (by rw [State.goto_pc]; rfl) rfl
  | getWrite | getUnlock =>
    cases h
    exact .of_none (by rw [State.goto_pc]; rfl) rfl
  | _ => cases h

theorem stores_msgqueueSetNonblock (h : msgqueueSetNonblock s t woken pc = some s') :
    Stores s s' t new := by
  cases pc with
  | nonblockStore | blockStore =>
    cases h
    exact .of_none (by rw [State.goto_pc]; rfl) rfl
  | nonblockUnlock =>
    cases h
    exact .of_none (by rw [State.unlockPut, State.goto_pc]; rfl) rfl
  | nonblockLock => exact stores_lockPut h rfl
  | nonblockNotify =>
    simp only [msgqueueSetNonblock, Option.bind_eq_bind, Option.bind_eq_some_iff] at h
    obtain ⟨s₁, hnotify, heq⟩ := h
    cases heq
    refine .of_none (by rw [State.goto_pc]; rfl) ?_
    show s₁.completed = s.completed
    exact completed_notifyGet hnotify
  | _ => cases h

/-- Each step completes only what is stored. -/
theorem stores_step (h : step s a = some s') : Stores s s' a.thread (stored s s' a) := by
  cases a with
  | call t call =>
    simp only [step] at h
    split at h
    · cases h
      cases call <;> exact .of_none (by simp [enter, Label.thread, Pc.inserted]) rfl
    · cases h
  | step t woken =>
    simp only [step, exec, Option.or_eq_some_iff] at h
    obtain h | ⟨-, h | ⟨-, h | ⟨-, h | ⟨-, h⟩⟩⟩⟩ := h
    · exact stores_msgQueuePut rfl h
    · exact stores_msgqueuePutHead rfl h
    · exact stores_msgqueueSwap h
    · exact stores_msgqueueGet h
    · exact stores_msgqueueSetNonblock h
  | spurious t =>
    refine .of_same ?_ ?_
    · show (s'.pc t).inserted = (s.pc t).inserted
      rw [wakeSpuriously_pc h, inserted_wake]
    · simp only [step, wakeSpuriously] at h
      split at h
      · cases h
        rfl
      · split at h
        · cases h
          rfl
        · cases h

end Stored

/-! ## The law -/

/-- Puts do not wait for room, go on to their end, and store what they were given. -/
structure Unbounded (r : Traced Tid) : Prop where
  neverWaits : ∀ t, (r.queue.pc t).parkedPut = false
  goesOn : ∀ t, (r.queue.pc t).putting = true →
    (∃ woken s', exec r.queue t woken = some s') ∨
      ((r.queue.pc t).locksPut = true ∧ r.queue.putMutex ≠ none)
  nearer : ∀ t woken s', (r.queue.pc t).putting = true → exec r.queue t woken = some s' →
    Unhindered r.queue (.step t woken) → s'.stepsLeft t < r.queue.stepsLeft t
  stored : ∀ t m, (r.queue.pc t).inserted = some m → m ∈ r.enqueued
  completed : ∀ m ∈ r.queue.completed, m ∈ r.enqueued

/-- The invariant behind it. -/
structure Unwaited (r : Traced Tid) : Prop where
  zero : r.queue.msgMax = 0
  waits : Waits r.queue.control
  neverWaits : ∀ t, (r.queue.pc t).parkedPut = false
  stored : ∀ t m, (r.queue.pc t).inserted = some m → m ∈ r.enqueued
  completed : ∀ m ∈ r.queue.completed, m ∈ r.enqueued

section Runs

variable {r : Traced Tid} {s : State Tid} {a : Label Tid}

/-- Under the condition no step parks on `put_cond`. -/
theorem neverWaits_step (hzero : r.queue.msgMax = 0) (hw : Waits r.queue.control)
    (h : ∀ t, (r.queue.pc t).parkedPut = false) (hok : Unhindered r.queue a)
    (hstep : step r.queue a = some s) (u : Tid) : (s.pc u).parkedPut = false := by
  rw [Bool.eq_false_iff]
  intro hu
  have hlabel : ∀ {pc : Pc}, r.queue.pc a.thread = pc → pc ≠ .idle → ¬ pc.Parked →
      ∃ woken, a = .step a.thread woken := by
    intro pc hpc hbusy hawake
    obtain ha | hidle | hparked := awake_label hw hstep
    · exact ha
    · exact absurd (hpc.symm.trans hidle) hbusy
    · rw [hpc] at hparked
      exact absurd hparked hawake
  obtain hold | ⟨-, ⟨msg, here, full, blocks⟩ | ⟨msg, here, full, blocks⟩⟩ :=
    (effect_of_step hstep).parkedPut hu
  · change (r.queue.pc u).parkedPut = true at hold
    rw [h u] at hold
    cases hold
  · obtain ⟨woken, ha⟩ := hlabel here (by simp) (not_parked ⟨rfl, rfl⟩)
    exact (hok _ woken msg ha).1 here ⟨full.trans hzero, blocks⟩
  · obtain ⟨woken, ha⟩ := hlabel here (by simp) (not_parked ⟨rfl, rfl⟩)
    exact (hok _ woken msg ha).2 here ⟨full.trans hzero, blocks⟩

theorem Unwaited.step (h : Unwaited r) (hok : Unhindered r.queue a)
    (hstep : step r.queue a = some s) : Unwaited (r.log s a) where
  zero := (effect_of_step hstep).msgMax_eq.trans h.zero
  waits := h.waits.step (effect_of_step hstep)
  neverWaits := neverWaits_step h.zero h.waits h.neverWaits hok hstep
  stored := by
    intro t m hm
    show m ∈ r.enqueued ++ MsgQueue.stored r.queue s a
    rw [List.mem_append]
    by_cases ht : t = a.thread
    · subst ht
      exact ((stores_step hstep).inserted m hm).imp_left (h.stored _ m)
    · left
      have hpc : s.pc t = r.queue.pc t ∨ s.pc t = (r.queue.pc t).wake :=
        (effect_of_step hstep).others ht
      apply h.stored t m
      change (s.pc t).inserted = some m at hm
      obtain hsame | hwoken := hpc
      · rwa [hsame] at hm
      · rwa [hwoken, inserted_wake] at hm
  completed := by
    intro m hm
    apply List.mem_append_left
    obtain hold | hnew := (stores_step hstep).completed m hm
    · exact h.completed m hold
    · exact h.stored _ m hnew

end Runs

theorem inductive_unwaited :
    InductiveInvariant (traced Tid (· = 0)) (fun r a => Unhindered r.queue a) Unwaited where
  init := by
    rintro r ⟨maxlen, rfl, rfl⟩
    refine ⟨rfl, waits_create 0, fun t => rfl, ?_, ?_⟩
    · intro t m hm
      cases hm
    · intro m hm
      cases hm
  step := by
    rintro r a r' h hok hstep
    obtain ⟨s, hs, rfl⟩ := Traced.step_eq hstep
    exact h.step hok hs

/-- In every run in which no put tests the bound on an empty put buffer with the flag that makes it
wait, a queue created with bound 0 is unbounded. -/
theorem unbounded_of_unhindered {r : Traced Tid}
    (h : (traced Tid (· = 0)).Reaches (fun r a => Unhindered r.queue a) r) : Unbounded r := by
  have hinv := inductive_unwaited.holds h
  refine ⟨hinv.neverWaits, ?_, ?_, hinv.stored, hinv.completed⟩
  · exact fun t hput => putting_goesOn hput (hinv.neverWaits t)
  · intro t woken s' hput hexec hok
    exact stepsLeft_lt hput hexec (neverWaits_step hinv.zero hinv.waits hinv.neverWaits hok hexec t)

/-! ## Runs -/

/-- Puts into a queue that was made non-blocking, the second of them on a non-empty buffer. -/
theorem unbounded_of_unhindered_run : ∃ r, (traced Nat (· = 0)).Reaches
    (fun r a => Unhindered r.queue a) r ∧ r.queue.completed = [0, 1] ∧ Unbounded r := by
  have hrun : ((traced Nat (· = 0)).runIf (fun r a => unhinderedB r.queue a) (.create Nat 0)
      (runCall 0 .setNonblock 4 ++ runCall 0 .put 4 ++ runCall 1 .putHead 5)).map
        (fun r => r.queue.completed) = some [0, 1] := by
    decide +kernel
  obtain ⟨r, hr, hlog⟩ := Option.map_eq_some_iff.mp hrun
  have hreach := System.reaches_of_runIf (M := traced Nat (· = 0))
    (fun r a => unhindered_of_check r.queue a) ⟨0, rfl, rfl⟩ hr
  exact ⟨r, hreach, hlog, unbounded_of_unhindered hreach⟩

/-- The first put into a queue created with bound 0 waits. -/
theorem freshQueue_blocks : ∃ r, (traced Nat (· = 0)).Reachable r ∧ ¬ Unbounded r := by
  have hrun : ((traced Nat (· = 0)).run (.create Nat 0) (runCall 0 .put 2)).map
      (fun r => (r.queue.pc 0).parkedPut) = some true := by
    decide +kernel
  obtain ⟨r, hr, hparked⟩ := Option.map_eq_some_iff.mp hrun
  refine ⟨r, System.reachable_of_run ⟨0, rfl, rfl⟩ hr, fun h => ?_⟩
  rw [h.neverWaits 0] at hparked
  cases hparked

end WorkflowKernel.MsgQueue
