import WorkflowKernel.MsgQueue.Fifo
import WorkflowKernel.MsgQueue.Control
import WorkflowKernel.Lib.Deque

/-!
# The two buffers are a double-ended queue

A put is a push at the back and a head put one at the front: it goes into the get buffer if that
holds anything, and otherwise into the put buffer, whose messages are the next ones then. Only a head
put that has waited does not look again, and may insert its message between the two buffers.
`Prompt` is the condition that no head put waits, and that none is refused its `try_lock` for the
sake of another thread.

`event` is the step at which an operation takes effect: the store of a put, the unlinking of a get,
and the swap of a get that finds nothing.

## What is proved

- `change_step`: a step does to the contents what its event does to a double-ended queue.
- `linearizable`: in every run of prompt steps the operations take effect as those of one
  double-ended queue, each between its call and its return.
- `wokenHead_behind`: a head put that has waited, and whose message is not the next one.
-/

namespace WorkflowKernel.MsgQueue

open WorkflowKernel.Transition
open WorkflowKernel.Lib
open WorkflowKernel.Lib.Deque (Op Linearizes replay replayFrom)

variable {Tid : Type}

/-- No head put waits or is refused its `try_lock` for the sake of another thread. -/
def Prompt [DecidableEq Tid] (s : State Tid) (a : Label Tid) : Prop :=
  Guarded s a ∧ ∀ t woken msg, a = .step t woken → s.pc t = .headBody msg →
    ¬(s.msgCnt = s.msgMax ∧ s.nonblock = true)

/-- The same condition, as a check that runs. -/
def promptB [DecidableEq Tid] (s : State Tid) (a : Label Tid) : Bool :=
  guardedB s a && match a with
  | .step t _ =>
    match s.pc t with
    | .headBody _ => !(s.msgCnt = s.msgMax ∧ s.nonblock = true)
    | _ => true
  | _ => true

/-- The check decides the condition. -/
theorem prompt_of_check [DecidableEq Tid] (s : State Tid) (a : Label Tid)
    (h : promptB s a = true) : Prompt s a := by
  obtain ⟨hguarded, hbody⟩ := Bool.and_eq_true_iff.mp h
  refine ⟨guarded_of_check s a hguarded, ?_⟩
  rintro t woken msg rfl hpc
  simpa [hpc, imp_iff_not_or] using hbody

/-- What a head put knows of the get buffer. -/
def HeadLocal (s : State Tid) (gl : List Msg) (t : Tid) : Pc → Prop
  | .headBody _ => gl = []
  | .headTry _ => s.getMutex = some t → gl ≠ []
  | .headUnlockPut _ | .headRead _ | .headWrite _ => gl ≠ []
  | .headParked _ | .headWake _ => False
  | _ => True

/-- The step at which an operation of `t` takes effect. -/
def event (s s' : State Tid) : Label Tid → List (Op Tid Msg)
  | .step t _ =>
    match s.pc t, s'.pc t with
    | .putBody msg, .putUnlock _ => [.pushBack t msg]
    | .headWrite msg, _ | .headBody msg, .headNotify _ => [.pushFront t msg]
    | .getWrite msg _, _ => [.popFront t msg]
    | .swapBody _, .swapUnlock 0 => [.empty t]
    | _, _ => []
  | _ => []

/-- The return of an operation. -/
def outcome (s : State Tid) : Label Tid → List (Op Tid Msg)
  | .step t _ =>
    match s.pc t with
    | .putNotify msg => [.pushBack t msg]
    | .headUnlockGet msg | .headRelease msg => [.pushFront t msg]
    | .getUnlock (some msg) => [.popFront t msg]
    | .getUnlock none => [.empty t]
    | _ => []
  | _ => []

/-- The operation of `t` that has taken effect and not returned. -/
def Pc.effective (t : Tid) : Pc → List (Op Tid Msg)
  | .putUnlock msg | .putNotify msg => [.pushBack t msg]
  | .headUnlockGet msg | .headNotify msg | .headRelease msg => [.pushFront t msg]
  | .getUnlock (some msg) => [.popFront t msg]
  | .getUnlock none | .swapUnlock 0 => [.empty t]
  | _ => []

/-- The queue with the effects and the returns of its operations. -/
structure Recorded (Tid : Type) where
  queue : State Tid
  events : List (Op Tid Msg)
  outcomes : List (Op Tid Msg)

variable [DecidableEq Tid]

def Recorded.step (r : Recorded Tid) (a : Label Tid) : Option (Recorded Tid) :=
  (MsgQueue.step r.queue a).map fun s =>
    { queue := s
      events := r.events ++ event r.queue s a
      outcomes := r.outcomes ++ outcome r.queue a }

def recorded (Tid : Type) [DecidableEq Tid] : System (Recorded Tid) (Label Tid) where
  Init r := ∃ maxlen, r = { queue := msgqueueCreate Tid maxlen, events := [], outcomes := [] }
  step := Recorded.step

/-! ## What a step does to the contents -/

section Contents

variable {s s' : State Tid} {gl pl gl' pl' : List Msg} {t u : Tid} {woken : Option Tid} {pc : Pc}

omit [DecidableEq Tid] in
/-- What a head put knows of the get buffer it knows by one of the mutexes. -/
theorem HeadLocal.frame {all : List Msg} (h : HeadLocal s gl u pc) (hu : ThreadOk s gl all u pc)
    (body : s.putMutex = some u → gl = [] → gl' = [])
    (behind : s.getMutex = some u → gl ≠ [] → gl' ≠ [])
    (get : s'.getMutex = some u → s.getMutex = some u) : HeadLocal s' gl' u pc := by
  cases pc with
  | headBody msg => exact body (hu.put rfl) h
  | headTry msg => exact fun hheld => behind (get hheld) (h (get hheld))
  | headUnlockPut msg | headRead msg | headWrite msg => exact behind (hu.get rfl) h
  | headParked msg | headWake msg => exact h
  | _ => trivial

omit [DecidableEq Tid] in
/-- A head put knows the same when it was woken. -/
theorem HeadLocal.wake (h : HeadLocal s gl u pc) : HeadLocal s gl u pc.wake := by
  cases pc with
  | headParked msg => exact h.elim
  | _ => exact h

/-- A step of `t` at `pc` from the buffers `gl` and `pl`: its effect is `ops`, and it returns
`outs`. -/
structure Change (s s' : State Tid) (t : Tid) (pc : Pc) (gl pl : List Msg)
    (ops outs : List (Op Tid Msg)) (gl' pl' : List Msg) : Prop where
  inv : Inv s' gl' pl'
  here : HeadLocal s' gl' t (s'.pc t)
  body : ∀ u, u ≠ t → s.putMutex = some u → gl = [] → gl' = []
  behind : ∀ u, u ≠ t → s.getMutex = some u → gl ≠ [] → gl' ≠ []
  contents : replayFrom (gl ++ pl) ops = some (gl' ++ pl')
  effective : pc.effective t ++ ops = outs ++ (s'.pc t).effective t

omit [DecidableEq Tid] in
/-- A step that leaves the buffers alone. -/
theorem Change.same {outs : List (Op Tid Msg)} {pc' : Pc} (inv : Inv s' gl pl)
    (after : s'.pc t = pc') (here : HeadLocal s' gl t pc') (effective : pc.effective t = outs ++ pc'.effective t) :
    Change s s' t pc gl pl [] outs gl pl where
  inv := inv
  here := after ▸ here
  body _ _ _ := id
  behind _ _ _ := id
  contents := rfl
  effective := by rw [List.append_nil, after, effective]

omit [DecidableEq Tid] in
/-- A step that leaves the buffers alone keeps their sequences. -/
theorem Inv.kept (hi : Inv s gl pl) (hi' : ∃ gl' pl', Inv s' gl' pl') (same : SameData s s') :
    Inv s' gl pl := by
  obtain ⟨gl', pl', hi'⟩ := hi'
  have hbuffers := hi.buffers.congr same.mem same.getHead same.putHead same.putTail same.msgCnt
  obtain ⟨rfl, rfl⟩ := hi'.unique hbuffers.getChain hbuffers.putChain
  exact hi'

omit [DecidableEq Tid] in
/-- Waking is no effect. -/
theorem effective_wake (t : Tid) (pc : Pc) : pc.wake.effective t = pc.effective t := by
  cases pc <;> rfl

/-- A put appends its message, -/
theorem change_msgQueuePut (hi : Inv s gl pl) (hpc : s.pc t = pc)
    (h : msgQueuePut s t woken pc = some s') :
    ∃ gl' pl', Change s s' t pc gl pl (event s s' (.step t woken))
      (outcome s (.step t woken)) gl' pl' := by
  have hi' : ∃ gl' pl', Inv s' gl' pl' := ⟨gl, inv_msgQueuePut hi hpc h⟩
  cases pc with
  | putLock msg | putWake msg =>
    simp only [event, outcome, hpc]
    exact ⟨gl, pl, .same (hi.kept hi' (sameData_lockPut h)) (State.lockPut_pc h) trivial rfl⟩
  | putBody msg =>
    simp only [msgQueuePut] at h
    split at h
    · cases h
      simp only [event, outcome, hpc, State.unlockPut, State.goto_pc]
      exact ⟨gl, pl, .same (hi.kept hi' (by constructor <;> rfl)) (State.goto_pc ..) trivial rfl⟩
    · cases h
      simp only [event, outcome, hpc, State.goto_pc]
      obtain ⟨gl', pl', hi'⟩ := hi'
      have ht := hi.threads t
      rw [hpc] at ht
      have hnd : (gl ++ pl).Nodup := (List.nodup_append.mp hi.nodup).1
      have hout : msg ∉ gl ++ pl := fun hm => (ht.pending msg rfl).2 (List.mem_append_left _ hm)
      have happend := hi.buffers.append hnd hout ht.here
      obtain ⟨rfl, rfl⟩ := hi'.unique happend.getChain happend.putChain
      refine ⟨gl', pl ++ [msg], hi', ?_, fun _ _ _ => id, fun _ _ _ => id,
        congrArg some (List.append_assoc ..), ?_⟩
      · rw [State.goto_pc]
        trivial
      · rw [State.goto_pc]
        rfl
  | putUnlock msg =>
    cases h
    simp only [event, outcome, hpc]
    exact ⟨gl, pl, .same (hi.kept hi' (by constructor <;> rfl)) (State.goto_pc ..) trivial rfl⟩
  | putNotify msg =>
    simp only [event, outcome, hpc]
    simp only [msgQueuePut, Option.bind_eq_bind, Option.bind_eq_some_iff] at h
    obtain ⟨s₁, hnotify, heq⟩ := h
    cases heq
    have hsame := sameData_notifyGet hnotify
    exact ⟨gl, pl, .same (hi.kept hi' ⟨hsame.mem, hsame.getHead, hsame.putHead, hsame.putTail,
      hsame.msgCnt, hsame.fresh, hsame.taken, hsame.headWrites⟩) (State.goto_pc ..) trivial rfl⟩
  | _ => cases h

/-- an exchange of the buffers leaves the sequence as it is, -/
theorem change_msgqueueSwap (hi : Inv s gl pl) (hpc : s.pc t = pc)
    (h : msgqueueSwap s t pc = some s') :
    ∃ gl' pl', Change s s' t pc gl pl (event s s' (.step t woken))
      (outcome s (.step t woken)) gl' pl' := by
  have hi' := inv_msgqueueSwap hi hpc h
  cases pc with
  | swapLock getHead | swapWake getHead =>
    simp only [event, outcome, hpc]
    exact ⟨gl, pl, .same (hi.kept hi' (sameData_lockPut h)) (State.lockPut_pc h) trivial rfl⟩
  | swapBody getHead =>
    simp only [msgqueueSwap] at h
    split at h
    · cases h
      simp only [event, outcome, hpc, State.unlockPut, State.goto_pc]
      exact ⟨gl, pl, .same (hi.kept hi' (by constructor <;> rfl)) (State.goto_pc ..) trivial rfl⟩
    · cases h
      simp only [event, outcome, hpc, State.goto_pc]
      have ht := hi.threads t
      rw [hpc] at ht
      obtain ⟨rfl, rfl⟩ := ht.here
      have hput := ht.put rfl
      have hget := ht.get rfl
      obtain ⟨hgetHead, hputHead, hcnt, hget', hput'⟩ := notifyFull_fields s
      have hswap := hi.notifyFull.swap (hput'.trans hput) (hget'.trans hget)
      rw [hgetHead, hputHead, hcnt] at hswap
      refine ⟨pl, [], hswap, ?_, fun u hu hheld => ?_, fun u hu hheld => ?_, ?_, ?_⟩
      · rw [State.goto_pc]
        trivial
      · exact absurd (Option.some.inj (hput.symm.trans hheld)).symm hu
      · exact absurd (Option.some.inj (hget.symm.trans hheld)).symm hu
      · have hlen := hi.buffers.cnt
        cases hc : s.msgCnt with
        | zero =>
          rw [hc] at hlen
          obtain rfl := List.eq_nil_of_length_eq_zero hlen.symm
          rfl
        | succ n =>
          rw [List.append_nil]
          rfl
      · rw [State.goto_pc]
        cases s.msgCnt <;> rfl
  | swapUnlock cnt =>
    cases h
    simp only [event, outcome, hpc]
    refine ⟨gl, pl, .same (hi.kept hi' (by constructor <;> rfl)) (State.goto_pc ..) ?_ ?_⟩
    · split <;> trivial
    · cases cnt <;> rfl
  | _ => cases h

/-- a get takes the first message, -/
theorem change_msgqueueGet (hi : Inv s gl pl) (hpc : s.pc t = pc) (h : msgqueueGet s t pc = some s') :
    ∃ gl' pl', Change s s' t pc gl pl (event s s' (.step t woken))
      (outcome s (.step t woken)) gl' pl' := by
  have hi' : ∃ gl' pl', Inv s' gl' pl' := by
    obtain ⟨gl', hget⟩ := inv_msgqueueGet hi hpc h
    exact ⟨gl', pl, hget⟩
  cases pc with
  | getLock =>
    simp only [msgqueueGet] at h
    split at h
    · cases h
      simp only [event, outcome, hpc]
      exact ⟨gl, pl, .same (hi.kept hi' (by constructor <;> rfl)) (State.goto_pc ..) trivial rfl⟩
    · cases h
  | getTest | getMsg | getNext msg =>
    simp only [event, outcome, hpc]
    simp only [msgqueueGet] at h
    split at h
    all_goals
      cases h
      exact ⟨gl, pl, .same (hi.kept hi' (by constructor <;> rfl)) (State.goto_pc ..) trivial rfl⟩
  | getWrite msg next =>
    cases h
    simp only [event, outcome, hpc]
    obtain ⟨gl', pl', hi'⟩ := hi'
    have ht := hi.threads t
    rw [hpc] at ht
    have hget := ht.get rfl
    obtain ⟨hfirst, rfl⟩ := ht.here
    obtain ⟨rest, rfl⟩ := List.head?_eq_some_iff.mp hfirst
    have hpop := hi.buffers.pop
    obtain ⟨rfl, rfl⟩ := hi'.unique hpop.getChain hpop.putChain
    refine ⟨gl', pl', hi', ?_, fun _ _ _ hnil => ?_, fun u hu hheld => ?_, ?_, ?_⟩
    · rw [State.goto_pc]
      trivial
    · cases hnil
    · exact absurd (Option.some.inj (hget.symm.trans hheld)).symm hu
    · simp [replayFrom, Deque.apply]
    · rw [State.goto_pc]
      rfl
  | getUnlock msg =>
    cases h
    cases msg
    all_goals
      simp only [event, outcome, hpc]
      exact ⟨gl, pl, .same (hi.kept hi' (by constructor <;> rfl)) (State.goto_pc ..) trivial rfl⟩
  | _ => cases h

/-- and the setters change nothing. -/
theorem change_msgqueueSetNonblock (hi : Inv s gl pl) (hpc : s.pc t = pc)
    (h : msgqueueSetNonblock s t woken pc = some s') :
    ∃ gl' pl', Change s s' t pc gl pl (event s s' (.step t woken))
      (outcome s (.step t woken)) gl' pl' := by
  have hi' := inv_msgqueueSetNonblock hi hpc h
  cases pc with
  | nonblockStore | blockStore =>
    cases h
    simp only [event, outcome, hpc]
    exact ⟨gl, pl, .same hi' (State.goto_pc ..) trivial rfl⟩
  | nonblockUnlock =>
    cases h
    simp only [event, outcome, hpc]
    exact ⟨gl, pl, .same hi' (State.goto_pc ..) trivial rfl⟩
  | nonblockLock =>
    simp only [event, outcome, hpc]
    exact ⟨gl, pl, .same hi' (State.lockPut_pc h) trivial rfl⟩
  | nonblockNotify =>
    simp only [event, outcome, hpc]
    simp only [msgqueueSetNonblock, Option.bind_eq_bind, Option.bind_eq_some_iff] at h
    obtain ⟨s₁, hnotify, heq⟩ := h
    cases heq
    exact ⟨gl, pl, .same hi' (State.goto_pc ..) trivial rfl⟩
  | _ => cases h

/-- A head put pushes at the front: into the get buffer if there is something in it, and otherwise
into the put buffer. -/
theorem change_msgqueuePutHead (hi : Inv s gl pl) (hhead : HeadLocal s gl t pc)
    (hpc : s.pc t = pc) (prompt : Prompt s (.step t woken))
    (h : msgqueuePutHead s t woken pc = some s') :
    ∃ gl' pl', Change s s' t pc gl pl (event s s' (.step t woken))
      (outcome s (.step t woken)) gl' pl' := by
  have hguarded : ∀ msg, pc = .headTry msg → s.getMutex = none ∨ s.getMutex = some t :=
    fun msg hmsg => prompt.1 msg (hpc.trans hmsg)
  have hi' := inv_msgqueuePutHead hi hpc hguarded h
  have ht := hi.threads t
  rw [hpc] at ht
  have hfirst : s.mem s.getHead = gl.head? := hi.buffers.getChain.head?
  cases pc with
  | headLock msg =>
    simp only [event, outcome, hpc]
    exact ⟨gl, pl, .same (hi.kept hi' (sameData_lockPut h)) (State.lockPut_pc h) trivial rfl⟩
  | headLoop msg =>
    simp only [event, outcome, hpc]
    simp only [msgqueuePutHead] at h
    split at h
    · next first hsome =>
      cases h
      exact ⟨gl, pl, .same (hi.kept hi' (by constructor <;> rfl)) (State.goto_pc ..)
        (fun _ => hi.buffers.getChain.ne_nil hsome) rfl⟩
    · next hnull =>
      cases h
      exact ⟨gl, pl, .same (hi.kept hi' (by constructor <;> rfl)) (State.goto_pc ..)
        (hi.buffers.getChain.eq_nil hnull) rfl⟩
  | headTry msg =>
    simp only [event, outcome, hpc]
    simp only [msgqueuePutHead] at h
    split at h
    · cases h
      exact ⟨gl, pl, .same (hi.kept hi' (by constructor <;> rfl)) (State.goto_pc ..) trivial rfl⟩
    · next hbusy =>
      cases h
      exact ⟨gl, pl, .same (hi.kept hi' (by constructor <;> rfl)) (State.goto_pc ..)
        (hhead ((hguarded msg rfl).resolve_left hbusy)) rfl⟩
  | headUnlockPut msg =>
    cases h
    simp only [event, outcome, hpc]
    exact ⟨gl, pl, .same (hi.kept hi' (by constructor <;> rfl)) (State.goto_pc ..) hhead rfl⟩
  | headRead msg =>
    cases h
    simp only [event, outcome, hpc]
    have hstore := hi.storeLink (t := t) (m := msg) (v := s.mem s.getHead) (by rw [hpc]; rfl)
      (by rw [hpc]; trivial)
    obtain ⟨gl', pl', hi'⟩ := hi'
    obtain ⟨rfl, rfl⟩ := hi'.unique hstore.buffers.getChain hstore.buffers.putChain
    exact ⟨gl', pl', .same hi' (State.goto_pc ..) hhead rfl⟩
  | headWrite msg =>
    cases h
    simp only [event, outcome, hpc]
    obtain ⟨gl', pl', hi'⟩ := hi'
    have hpush := hi.buffers.pushGet ht.here
    obtain ⟨rfl, rfl⟩ := hi'.unique hpush.getChain hpush.putChain
    refine ⟨msg :: gl, pl', hi', ?_, fun _ _ _ hnil => absurd hnil hhead,
      fun _ _ _ _ => List.cons_ne_nil _ _, rfl, ?_⟩
    · rw [State.goto_pc]
      trivial
    · rw [State.goto_pc]
      rfl
  | headUnlockGet msg =>
    cases h
    simp only [event, outcome, hpc]
    exact ⟨gl, pl, .same (hi.kept hi' (by constructor <;> rfl)) (State.goto_pc ..) trivial rfl⟩
  | headBody msg =>
    obtain rfl : gl = [] := hhead
    simp only [msgqueuePutHead] at h
    rw [if_neg (prompt.2 t woken msg rfl hpc)] at h
    cases h
    simp only [event, outcome, hpc, State.goto_pc]
    obtain ⟨gl', pl', hi'⟩ := hi'
    have hout := (ht.pending msg rfl).2
    simp only [State.all, List.mem_append, not_or] at hout
    have hlink := hi.buffers.storeLink (v := s.mem s.putHead) hout.1.1 hout.1.2
    have hpush := hlink.pushPut (m := msg)
      ((Function.update_self ..).trans hi.buffers.putChain.head?)
    obtain ⟨rfl, rfl⟩ := hi'.unique hpush.getChain hpush.putChain
    refine ⟨[], msg :: pl, hi', ?_, fun _ _ _ => id, fun _ _ _ => id, rfl, ?_⟩
    · rw [State.goto_pc]
      trivial
    · rw [State.goto_pc]
      rfl
  | headNotify msg =>
    simp only [event, outcome, hpc]
    simp only [msgqueuePutHead, Option.bind_eq_bind, Option.bind_eq_some_iff] at h
    obtain ⟨s₁, hnotify, heq⟩ := h
    cases heq
    have hsame := sameData_notifyGet hnotify
    exact ⟨gl, pl, .same (hi.kept hi' ⟨hsame.mem, hsame.getHead, hsame.putHead, hsame.putTail,
      hsame.msgCnt, hsame.fresh, hsame.taken, hsame.headWrites⟩) (State.goto_pc ..) trivial rfl⟩
  | headRelease msg =>
    cases h
    simp only [event, outcome, hpc]
    exact ⟨gl, pl, .same (hi.kept hi' (by constructor <;> rfl)) (State.goto_pc ..) trivial rfl⟩
  | headWake msg => exact hhead.elim
  | _ => cases h

/-- Every prompt step does what its event says. -/
theorem change_step {a : Label Tid} (hi : Inv s gl pl) (hhead : ∀ u, HeadLocal s gl u (s.pc u))
    (prompt : Prompt s a) (h : step s a = some s') :
    ∃ gl' pl', Change s s' a.thread (s.pc a.thread) gl pl (event s s' a) (outcome s a) gl' pl' := by
  cases a with
  | call t c =>
    simp only [step] at h
    split at h
    · next hidle =>
      cases h
      have hinv := inv_enter hi hidle c
      simp only [Label.thread, hidle]
      cases c <;> exact ⟨gl, pl, .same hinv (State.goto_pc ..) trivial rfl⟩
    · cases h
  | step t woken =>
    simp only [step, exec, Option.or_eq_some_iff] at h
    obtain hput | ⟨-, hput | ⟨-, hswap | ⟨-, hget | ⟨-, hset⟩⟩⟩⟩ := h
    · exact change_msgQueuePut hi rfl hput
    · exact change_msgqueuePutHead hi (hhead t) rfl prompt hput
    · exact change_msgqueueSwap hi rfl hswap
    · exact change_msgqueueGet hi rfl hget
    · exact change_msgqueueSetNonblock hi rfl hset
  | spurious t =>
    obtain ⟨hwake, hget, hsame⟩ : s'.pc t = (s.pc t).wake ∧ s'.getMutex = s.getMutex ∧
        SameData s s' := by
      simp only [step, wakeSpuriously] at h
      split at h
      · cases h
        exact ⟨Function.update_self .., rfl, by constructor <;> rfl⟩
      · split at h
        · cases h
          exact ⟨Function.update_self .., rfl, by constructor <;> rfl⟩
        · cases h
    have hlocal : HeadLocal s' gl t (s.pc t) := (hhead t).frame (hi.threads t) (fun _ => id)
      (fun _ => id) fun hheld => hget.symm.trans hheld
    exact ⟨gl, pl, .same (hi.kept (inv_step hi prompt.1 h) hsame) hwake hlocal.wake
      (effective_wake t (s.pc t)).symm⟩

theorem lockPut_getMutex (h : s.lockPut t pc = some s') : s'.getMutex = s.getMutex := by
  simp only [State.lockPut] at h
  split at h
  · cases h
    rfl
  · cases h

theorem notifyGet_getMutex (h : s.notifyGet woken = some s') : s'.getMutex = s.getMutex := by
  cases woken <;> simp only [State.notifyGet] at h <;> split at h <;> cases h <;> rfl

theorem getMutex_swap (s : State Tid) (t : Tid) (getHead putHead : Addr) (cnt : Nat) :
    ({ s.logHead t with
      getHead := getHead
      putHead := putHead
      putTail := putHead
      msgCnt := 0 }.goto t (.swapUnlock cnt)).getMutex = s.getMutex := rfl

/-- A thread leaves `get_mutex` as it is, takes it or frees it. -/
def MovesGetMutex (s s' : State Tid) (t : Tid) : Prop :=
  s'.getMutex = s.getMutex ∨ s'.getMutex = some t ∨ s'.getMutex = none

theorem movesGetMutex_msgQueuePut (h : msgQueuePut s t woken pc = some s') :
    MovesGetMutex s s' t := by
  cases pc with
  | putLock msg | putWake msg => exact .inl (lockPut_getMutex h)
  | putBody msg =>
    simp only [msgQueuePut] at h
    split at h <;> cases h <;> exact .inl rfl
  | putUnlock msg =>
    cases h
    exact .inl rfl
  | putNotify msg =>
    simp only [msgQueuePut, Option.bind_eq_bind, Option.bind_eq_some_iff] at h
    obtain ⟨s₁, hnotify, heq⟩ := h
    cases heq
    have hget := notifyGet_getMutex hnotify
    exact .inl hget
  | _ => cases h

/-- A head put tries to take it, and frees it behind the get list. -/
theorem movesGetMutex_msgqueuePutHead (h : msgqueuePutHead s t woken pc = some s') :
    MovesGetMutex s s' t := by
  cases pc with
  | headLock msg | headWake msg => exact .inl (lockPut_getMutex h)
  | headLoop msg | headBody msg =>
    simp only [msgqueuePutHead] at h
    split at h <;> cases h <;> exact .inl rfl
  | headTry msg =>
    simp only [msgqueuePutHead] at h
    split at h
    · cases h
      exact .inr (.inl rfl)
    · cases h
      exact .inl rfl
  | headUnlockPut msg | headRead msg | headWrite msg | headRelease msg =>
    cases h
    exact .inl rfl
  | headUnlockGet msg =>
    cases h
    exact .inr (.inr rfl)
  | headNotify msg =>
    simp only [msgqueuePutHead, Option.bind_eq_bind, Option.bind_eq_some_iff] at h
    obtain ⟨s₁, hnotify, heq⟩ := h
    cases heq
    have hget := notifyGet_getMutex hnotify
    exact .inl hget
  | _ => cases h

theorem movesGetMutex_msgqueueSwap (h : msgqueueSwap s t pc = some s') : MovesGetMutex s s' t := by
  cases pc with
  | swapLock getHead | swapWake getHead => exact .inl (lockPut_getMutex h)
  | swapBody getHead =>
    simp only [msgqueueSwap] at h
    split at h
    · cases h
      exact .inl rfl
    · cases h
      obtain ⟨-, -, -, hget, -⟩ := notifyFull_fields s
      exact .inl ((getMutex_swap ..).trans hget)
  | swapUnlock cnt =>
    cases h
    exact .inl rfl
  | _ => cases h

/-- A get takes it and frees it. -/
theorem movesGetMutex_msgqueueGet (h : msgqueueGet s t pc = some s') : MovesGetMutex s s' t := by
  cases pc with
  | getLock =>
    simp only [msgqueueGet] at h
    split at h
    · cases h
      exact .inr (.inl rfl)
    · cases h
  | getTest | getMsg | getNext msg =>
    simp only [msgqueueGet] at h
    split at h <;> cases h <;> exact .inl rfl
  | getWrite msg next =>
    cases h
    exact .inl rfl
  | getUnlock msg =>
    cases h
    exact .inr (.inr rfl)
  | _ => cases h

theorem movesGetMutex_msgqueueSetNonblock (h : msgqueueSetNonblock s t woken pc = some s') :
    MovesGetMutex s s' t := by
  cases pc with
  | nonblockStore | nonblockUnlock | blockStore =>
    cases h
    exact .inl rfl
  | nonblockLock => exact .inl (lockPut_getMutex h)
  | nonblockNotify =>
    simp only [msgqueueSetNonblock, Option.bind_eq_bind, Option.bind_eq_some_iff] at h
    obtain ⟨s₁, hnotify, heq⟩ := h
    cases heq
    have hget := notifyGet_getMutex hnotify
    exact .inl hget
  | _ => cases h

/-- Only the thread of a step takes `get_mutex`. -/
theorem movesGetMutex_exec (h : exec s t woken = some s') : MovesGetMutex s s' t := by
  simp only [exec, Option.or_eq_some_iff] at h
  obtain hput | ⟨-, hput | ⟨-, hswap | ⟨-, hget | ⟨-, hset⟩⟩⟩⟩ := h
  · exact movesGetMutex_msgQueuePut hput
  · exact movesGetMutex_msgqueuePutHead hput
  · exact movesGetMutex_msgqueueSwap hswap
  · exact movesGetMutex_msgqueueGet hget
  · exact movesGetMutex_msgqueueSetNonblock hset

/-- No thread takes `get_mutex` for another. -/
theorem getMutex_of_step {a : Label Tid} (h : step s a = some s') (hu : u ≠ a.thread)
    (hheld : s'.getMutex = some u) : s.getMutex = some u := by
  have hcases : MovesGetMutex s s' a.thread := by
    cases a with
    | call t c =>
      simp only [step] at h
      split at h
      · cases h
        cases c <;> exact .inl rfl
      · cases h
    | step t woken => exact movesGetMutex_exec h
    | spurious t =>
      simp only [step, wakeSpuriously] at h
      split at h
      · cases h
        exact .inl rfl
      · split at h
        · cases h
          exact .inl rfl
        · cases h
  obtain hsame | htaken | hfree := hcases
  · exact hsame.symm.trans hheld
  · exact absurd (Option.some.inj (htaken.symm.trans hheld)).symm hu
  · cases hfree.symm.trans hheld

end Contents

/-! ## Every run -/

section Runs

variable {s s' : State Tid} {gl pl : List Msg} {a : Label Tid}

omit [DecidableEq Tid] in
/-- The event of a step is of its thread, -/
theorem event_thread : ∀ op ∈ event s s' a, op.thread = a.thread := by
  cases a with
  | step t woken =>
    intro op hop
    simp only [event] at hop
    split at hop <;> simp_all [Op.thread, Label.thread]
  | _ => exact fun op hop => absurd hop List.not_mem_nil

omit [DecidableEq Tid] in
/-- and what it returns from is. -/
theorem outcome_thread : ∀ op ∈ outcome s a, op.thread = a.thread := by
  cases a with
  | step t woken =>
    intro op hop
    simp only [outcome] at hop
    split at hop <;> simp_all [Op.thread, Label.thread]
  | _ => exact fun op hop => absurd hop List.not_mem_nil

/-- The other threads are woken at most, and keep the effects they have had. -/
theorem effective_others (h : step s a = some s') {u : Tid} (hu : u ≠ a.thread) :
    (s'.pc u).effective u = (s.pc u).effective u := by
  have hpc : s'.pc u = s.pc u ∨ s'.pc u = (s.pc u).wake := (effect_of_step h).others hu
  obtain hsame | hwoken := hpc
  · rw [hsame]
  · rw [hwoken, effective_wake]

/-- What another head put knows stays true. -/
theorem headLocal_others {gl' : List Msg} (hi : Inv s gl pl) (h : step s a = some s') {u : Tid}
    (hu : u ≠ a.thread) (hhead : HeadLocal s gl u (s.pc u))
    (body : s.putMutex = some u → gl = [] → gl' = [])
    (behind : s.getMutex = some u → gl ≠ [] → gl' ≠ []) : HeadLocal s' gl' u (s'.pc u) := by
  have hlocal : HeadLocal s' gl' u (s.pc u) :=
    hhead.frame (hi.threads u) body behind (getMutex_of_step h hu)
  have hpc : s'.pc u = s.pc u ∨ s'.pc u = (s.pc u).wake := (effect_of_step h).others hu
  obtain hsame | hwoken := hpc
  · rw [hsame]
    exact hlocal
  · rw [hwoken]
    exact hlocal.wake

/-- The buffers hold what the operations that have taken effect left, and each thread has had the
effects of the operations it has returned from and of the one at hand. -/
structure Linear (r : Recorded Tid) (gl pl : List Msg) : Prop where
  inv : Inv r.queue gl pl
  heads : ∀ u, HeadLocal r.queue gl u (r.queue.pc u)
  contents : replay r.events = some (gl ++ pl)
  order : Linearizes r.events r.outcomes fun t => (r.queue.pc t).effective t

/-- A recorded step is one of the queue, with its event. -/
theorem Recorded.step_eq {r r' : Recorded Tid} (h : r.step a = some r') :
    ∃ s, MsgQueue.step r.queue a = some s ∧ r' =
      { queue := s
        events := r.events ++ event r.queue s a
        outcomes := r.outcomes ++ outcome r.queue a } := by
  obtain ⟨s, hs, rfl⟩ := Option.map_eq_some_iff.mp h
  exact ⟨s, hs, rfl⟩

/-- A prompt step does to the contents what its event does to a double-ended queue. -/
theorem Linear.step {r r' : Recorded Tid} (h : Linear r gl pl) (prompt : Prompt r.queue a)
    (hstep : r.step a = some r') : ∃ gl' pl', Linear r' gl' pl' := by
  obtain ⟨s, hs, rfl⟩ := Recorded.step_eq hstep
  obtain ⟨gl', pl', hchange⟩ := change_step h.inv h.heads prompt hs
  refine ⟨gl', pl', hchange.inv, fun u => ?_, ?_, ?_⟩
  · by_cases hu : u = a.thread
    · subst hu
      exact hchange.here
    · exact headLocal_others h.inv hs hu (h.heads u) (hchange.body u hu) (hchange.behind u hu)
  · exact (Lib.Deque.replay_append h.contents).trans hchange.contents
  · exact h.order.step event_thread outcome_thread hchange.effective fun u hu =>
      effective_others hs hu

/-- In every prompt run the events replay to the buffers. -/
theorem inductive_linear : InductiveInvariant (recorded Tid) (fun r a => Prompt r.queue a)
    fun r => ∃ gl pl, Linear r gl pl where
  init := by
    rintro r ⟨maxlen, rfl⟩
    exact ⟨[], [], inv_create maxlen, fun _ => trivial, rfl, fun _ => rfl⟩
  step := by
    rintro r a r' ⟨gl, pl, h⟩ prompt hstep
    exact h.step prompt hstep

/-- The queue is one double-ended queue to its threads: what the memory holds is what the operations
leave when they are made one at a time, in an order in which each takes effect between its call and
its return. -/
theorem linearizable {r : Recorded Tid}
    (h : (recorded Tid).Reaches (fun r a => Prompt r.queue a) r) :
    (∃ gl pl, Chain Addr.link r.queue.mem r.queue.getHead gl ∧
      Chain Addr.link r.queue.mem r.queue.putHead pl ∧ replay r.events = some (gl ++ pl)) ∧
    Linearizes r.events r.outcomes fun t => (r.queue.pc t).effective t := by
  obtain ⟨gl, pl, hlinear⟩ := inductive_linear.holds h
  exact ⟨⟨gl, pl, hlinear.inv.buffers.getChain, hlinear.inv.buffers.putChain, hlinear.contents⟩,
    hlinear.order⟩

end Runs

/-- Two puts, a get that swaps, a head put on the get buffer, two gets of what is there, a put, and a
head put on the put buffer. -/
def bothEndsRun : List (Label Nat) :=
  guardedRun ++ runCall 1 .get 6 ++ runCall 0 .put 4 ++ runCall 2 .putHead 5

theorem linearizable_bothEndsRun : ∃ r, (recorded Nat).Reaches (fun r a => Prompt r.queue a) r ∧
    r.events = [.pushBack 0 0, .pushBack 0 1, .popFront 1 0, .pushFront 2 2, .popFront 1 2,
      .popFront 1 1, .pushBack 0 3, .pushFront 2 4] ∧
    (∃ gl pl, Chain Addr.link r.queue.mem r.queue.getHead gl ∧
      Chain Addr.link r.queue.mem r.queue.putHead pl ∧ replay r.events = some (gl ++ pl)) ∧
    Linearizes r.events r.outcomes fun t => (r.queue.pc t).effective t := by
  have hrun : ((recorded Nat).runIf (fun r a => promptB r.queue a)
      { queue := msgqueueCreate Nat 4, events := [], outcomes := [] } bothEndsRun).map
      Recorded.events = some [.pushBack 0 0, .pushBack 0 1, .popFront 1 0, .pushFront 2 2,
        .popFront 1 2, .popFront 1 1, .pushBack 0 3, .pushFront 2 4] := by
    decide +kernel
  obtain ⟨r, hr, hevents⟩ := Option.map_eq_some_iff.mp hrun
  have hreach := System.reaches_of_runIf (M := recorded Nat)
    (fun r a => prompt_of_check r.queue a) ⟨4, rfl⟩ hr
  exact ⟨r, hreach, hevents, linearizable hreach⟩

/-- A head put waits for room in a non-blocking queue; the get that makes the room swaps, and leaves
a message in the get buffer; the head put goes on into the put buffer. -/
def wokenRun : List (Label Nat) :=
  runCall 0 .put 4 ++ runCall 0 .put 4 ++ runCall 3 .setNonblock 4 ++ runCall 2 .putHead 3 ++
    runCall 1 .get 9 ++ List.replicate 4 (.step 2 none) ++ runCall 1 .get 6

/-- Its message is not the next one: a get that begins when it has returned gets another. -/
theorem wokenHead_behind : ∃ r, (recorded Nat).Reachable r ∧
    r.outcomes = [.pushBack 0 0, .pushBack 0 1, .popFront 1 0, .pushFront 2 2, .popFront 1 1] ∧
    replay r.events = none := by
  have hrun : ((recorded Nat).run { queue := msgqueueCreate Nat 2, events := [], outcomes := [] }
      wokenRun).map (fun r => (r.outcomes, replay r.events)) =
        some ([.pushBack 0 0, .pushBack 0 1, .popFront 1 0, .pushFront 2 2, .popFront 1 1],
          none) := by
    decide +kernel
  obtain ⟨r, hr, hlog⟩ := Option.map_eq_some_iff.mp hrun
  simp only [Prod.mk.injEq] at hlog
  exact ⟨r, System.reachable_of_run ⟨2, rfl⟩ hr, hlog.1, hlog.2⟩

end WorkflowKernel.MsgQueue
