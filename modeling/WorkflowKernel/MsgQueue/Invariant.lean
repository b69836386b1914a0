import WorkflowKernel.MsgQueue.Model
import Mathlib.Data.List.Nodup
import Mathlib.Data.List.Perm.Basic

/-!
# The two buffers under the two mutexes

`Inv s gl pl` says that the get buffer is the chain `gl`, the put buffer the chain `pl`, and that
the messages of the two buffers and of the gets that took theirs are one duplicate-free collection
that the messages still on their way in are not part of. The mutexes carry it: what a thread knows
of the get buffer in the middle of an operation (`Local`) it knows while it holds `get_mutex`, and
`Local.frame` says that no other thread can take that knowledge away.

The invariant is kept by every step but one. A `try_lock` of `msgqueue_put_head` that fails because
another thread holds `get_mutex` sends the head put into the branch that the lock was to guard;
`Guarded` is the condition that this does not happen, and `inv_step` is the invariant under it.
-/

namespace WorkflowKernel.MsgQueue

open WorkflowKernel.Transition
open WorkflowKernel.Lib

variable {Tid : Type}

theorem link_injective : Function.Injective Addr.link := fun _ _ h => Addr.link.inj h

/-! ## What a program counter says -/

/-- The message of a put that has not stored it in a buffer yet. -/
def Pc.pending : Pc → Option Msg
  | .putLock msg | .putBody msg | .putParked msg | .putWake msg | .headLock msg | .headLoop msg
  | .headTry msg | .headUnlockPut msg | .headRead msg | .headWrite msg | .headBody msg
  | .headParked msg | .headWake msg => some msg
  | _ => none

/-- The message of a put that has stored it and not returned yet. -/
def Pc.inserted : Pc → Option Msg
  | .putUnlock msg | .putNotify msg | .headUnlockGet msg | .headNotify msg | .headRelease msg =>
    some msg
  | _ => none

def Pc.holdsPut : Pc → Bool
  | .putBody _ | .putUnlock _ | .headLoop _ | .headTry _ | .headUnlockPut _ | .headBody _
  | .headNotify _ | .headRelease _ | .swapBody _ | .swapUnlock _ | .nonblockNotify
  | .nonblockUnlock => true
  | _ => false

def Pc.holdsGet : Pc → Bool
  | .headUnlockPut _ | .headRead _ | .headWrite _ | .headUnlockGet _ | .getTest | .swapLock _
  | .swapBody _ | .swapParked _ | .swapWake _ | .swapUnlock _ | .getMsg | .getNext _
  | .getWrite _ _ | .getUnlock _ => true
  | _ => false

/-- What a thread in the middle of an operation knows of its message's link word and of the get
buffer `gl`. -/
def Local (s : State Tid) (gl : List Msg) : Pc → Prop
  | .putLock msg | .putBody msg | .putParked msg | .putWake msg => s.mem (.link msg) = none
  | .headWrite msg => s.mem (.link msg) = gl.head?
  | .swapLock getHead | .swapBody getHead | .swapParked getHead | .swapWake getHead =>
    getHead = s.getHead ∧ gl = []
  | .swapUnlock cnt => cnt = gl.length
  | .getMsg => gl ≠ []
  | .getNext msg => gl.head? = some msg
  | .getWrite msg next => gl.head? = some msg ∧ next = gl.tail.head?
  | .crashed => False
  | _ => True

/-- What holds of the thread `t` at `pc`, `all` being the messages in a buffer or taken. -/
structure ThreadOk (s : State Tid) (gl all : List Msg) (t : Tid) (pc : Pc) : Prop where
  pending : ∀ m, pc.pending = some m → m < s.fresh ∧ m ∉ all
  inserted : ∀ m, pc.inserted = some m → m ∈ all
  put : pc.holdsPut = true → s.putMutex = some t
  get : pc.holdsGet = true → s.getMutex = some t
  here : Local s gl pc

/-- The messages in a buffer or taken by a get. -/
def State.all (s : State Tid) (gl pl : List Msg) : List Msg := gl ++ pl ++ s.taken.map Prod.snd

/-- The memory holds the get buffer `gl` and the put buffer `pl`. -/
structure Buffers (s : State Tid) (gl pl : List Msg) : Prop where
  heads : s.getHead ≠ s.putHead
  getCell : ∀ m, s.getHead ≠ .link m
  putCell : ∀ m, s.putHead ≠ .link m
  getChain : Chain Addr.link s.mem s.getHead gl
  putChain : Chain Addr.link s.mem s.putHead pl
  tail : s.putTail = endCell Addr.link s.putHead pl
  cnt : s.msgCnt = pl.length

structure Inv (s : State Tid) (gl pl : List Msg) : Prop where
  buffers : Buffers s gl pl
  nodup : (s.all gl pl).Nodup
  old : ∀ m ∈ s.all gl pl, m < s.fresh
  completed : ∀ m ∈ s.completed, m ∈ s.all gl pl
  guarded : ∀ w ∈ s.headWrites, w.2 = some w.1
  threads : ∀ t, ThreadOk s gl (s.all gl pl) t (s.pc t)
  apart : ∀ t u m, (s.pc t).pending = some m → (s.pc u).pending = some m → t = u

theorem inv_create (maxlen : Nat) : Inv (msgqueueCreate Tid maxlen) [] [] where
  buffers := ⟨by simp [msgqueueCreate], by simp [msgqueueCreate], by simp [msgqueueCreate],
    rfl, rfl, rfl, rfl⟩
  nodup := List.nodup_nil
  old := by simp [State.all, msgqueueCreate]
  completed := by simp [msgqueueCreate]
  guarded := by simp [msgqueueCreate]
  threads := fun t => by
    constructor <;> simp [msgqueueCreate, Pc.pending, Pc.inserted, Pc.holdsPut, Pc.holdsGet, Local]
  apart := by simp [msgqueueCreate, Pc.pending]

/-! ## Frames -/

/-- A thread keeps what it knows across a step that leaves its pending message's link word alone
and, if it holds `get_mutex`, the get buffer. -/
theorem Local.frame {s s' : State Tid} {gl gl' : List Msg} {pc : Pc} (h : Local s gl pc)
    (hmem : ∀ m, pc.pending = some m → s'.mem (.link m) = s.mem (.link m))
    (hget : pc.holdsGet = true → s'.getHead = s.getHead ∧ gl' = gl) : Local s' gl' pc := by
  cases pc <;> simp only [Local, Pc.pending, Pc.holdsGet, Option.some.injEq, forall_eq',
    reduceCtorEq, false_implies, implies_true, true_implies] at h hmem hget ⊢
  case headWrite => rw [hmem, hget.2]; exact h
  case swapUnlock | getMsg | getNext | getWrite => rw [hget.2]; exact h
  case swapLock | swapBody | swapParked | swapWake => rw [hget.1, hget.2]; exact h
  all_goals rw [hmem]; exact h

/-- Waking a thread changes nothing that is said of it. -/
theorem ThreadOk.wake {s : State Tid} {gl all : List Msg} {t : Tid} {pc : Pc}
    (h : ThreadOk s gl all t pc) : ThreadOk s gl all t pc.wake := by
  cases pc with
  | putParked | headParked | swapParked => exact ⟨h.1, h.2, by simp [Pc.wake, Pc.holdsPut], h.4, h.5⟩
  | _ => exact h

theorem pending_wake (pc : Pc) : pc.wake.pending = pc.pending := by cases pc <;> rfl

/-- The data every step but an insertion, a swap and a pop leaves alone. -/
structure SameData (s s' : State Tid) : Prop where
  mem : s'.mem = s.mem
  getHead : s'.getHead = s.getHead
  putHead : s'.putHead = s.putHead
  putTail : s'.putTail = s.putTail
  msgCnt : s'.msgCnt = s.msgCnt
  fresh : s'.fresh = s.fresh
  taken : s'.taken = s.taken
  headWrites : s'.headWrites = s.headWrites

theorem SameData.all {s s' : State Tid} (same : SameData s s') (gl pl : List Msg) :
    s'.all gl pl = s.all gl pl := by
  simp only [State.all, same.taken]

theorem Buffers.congr {s s' : State Tid} {gl pl : List Msg} (hb : Buffers s gl pl)
    (mem : s'.mem = s.mem) (getHead : s'.getHead = s.getHead) (putHead : s'.putHead = s.putHead)
    (putTail : s'.putTail = s.putTail) (msgCnt : s'.msgCnt = s.msgCnt) : Buffers s' gl pl where
  heads := by rw [getHead, putHead]; exact hb.heads
  getCell := by rw [getHead]; exact hb.getCell
  putCell := by rw [putHead]; exact hb.putCell
  getChain := by rw [mem, getHead]; exact hb.getChain
  putChain := by rw [mem, putHead]; exact hb.putChain
  tail := by rw [putTail, putHead]; exact hb.tail
  cnt := by rw [msgCnt]; exact hb.cnt

/-- The part of the invariant that only reads the data. -/
theorem Inv.of_sameData {s s' : State Tid} {gl pl : List Msg} (hi : Inv s gl pl)
    (same : SameData s s') (completed : ∀ m ∈ s'.completed, m ∈ s.all gl pl)
    (threads : ∀ t, ThreadOk s' gl (s.all gl pl) t (s'.pc t))
    (apart : ∀ t u m, (s'.pc t).pending = some m → (s'.pc u).pending = some m → t = u) :
    Inv s' gl pl where
  buffers := hi.buffers.congr same.mem same.getHead same.putHead same.putTail same.msgCnt
  nodup := by rw [same.all]; exact hi.nodup
  old := by rw [same.all, same.fresh]; exact hi.old
  completed := by rw [same.all]; exact completed
  guarded := by rw [same.headWrites]; exact hi.guarded
  threads := by rw [same.all]; exact threads
  apart := apart

/-- What is said of a thread is kept when the data stay and it keeps its mutexes. -/
theorem ThreadOk.of_sameData {s s' : State Tid} {gl all : List Msg} {t : Tid} {pc : Pc}
    (h : ThreadOk s gl all t pc) (same : SameData s s')
    (put : s.putMutex = some t → s'.putMutex = some t)
    (get : s.getMutex = some t → s'.getMutex = some t) : ThreadOk s' gl all t pc where
  pending := by rw [same.fresh]; exact h.pending
  inserted := h.inserted
  put := fun hp => put (h.put hp)
  get := fun hg => get (h.get hg)
  here := h.here.frame (fun _ _ => by rw [same.mem]) fun _ => ⟨same.getHead, rfl⟩

/-- A step of `t` that leaves the data alone: what remains is what the step makes true of `t`. -/
theorem Inv.control [DecidableEq Tid] {s s' : State Tid} {gl pl : List Msg} {t : Tid} {pc : Pc}
    (hi : Inv s gl pl) (same : SameData s s') (hpc : s'.pc = Function.update s.pc t pc)
    (completed : ∀ m ∈ s'.completed, m ∈ s.completed ∨ (s.pc t).inserted = some m)
    (pending : ∀ m, pc.pending = some m → (s.pc t).pending = some m)
    (put : ∀ u, u ≠ t → s.putMutex = some u → s'.putMutex = some u)
    (get : ∀ u, u ≠ t → s.getMutex = some u → s'.getMutex = some u)
    (inserted : ∀ m, pc.inserted = some m → (s.pc t).inserted = some m)
    (holdsPut : pc.holdsPut = true → s'.putMutex = some t)
    (holdsGet : pc.holdsGet = true → s'.getMutex = some t)
    (here : Local s' gl pc) : Inv s' gl pl := by
  have hold : ∀ u m, (s'.pc u).pending = some m → (s.pc u).pending = some m := by
    intro u m hm
    by_cases hu : u = t
    · subst hu
      rw [hpc, Function.update_self] at hm
      exact pending m hm
    · rwa [hpc, Function.update_of_ne hu] at hm
  refine hi.of_sameData same ?_ ?_ ?_
  · intro m hm
    rcases completed m hm with hm | hm
    · exact hi.completed m hm
    · exact (hi.threads t).inserted m hm
  · intro u
    by_cases hu : u = t
    · subst hu
      rw [hpc, Function.update_self]
      exact ⟨fun m hm => by rw [same.fresh]; exact (hi.threads u).pending m (pending m hm),
        fun m hm => (hi.threads u).inserted m (inserted m hm), holdsPut, holdsGet, here⟩
    · rw [hpc, Function.update_of_ne hu]
      exact (hi.threads u).of_sameData same (put u hu) (get u hu)
  · intro u v m hu hv
    exact hi.apart u v m (hold u m hu) (hold v m hv)

/-- Waking threads keeps the invariant. -/
theorem Inv.woken {s s' : State Tid} {gl pl : List Msg} (hi : Inv s gl pl) (same : SameData s s')
    (completed : s'.completed = s.completed) (put : s'.putMutex = s.putMutex)
    (get : s'.getMutex = s.getMutex)
    (hpc : ∀ u, s'.pc u = s.pc u ∨ s'.pc u = (s.pc u).wake) : Inv s' gl pl := by
  have hpending : ∀ u, (s'.pc u).pending = (s.pc u).pending := by
    intro u
    rcases hpc u with h | h
    · rw [h]
    · rw [h, pending_wake]
  refine hi.of_sameData same (by rw [completed]; exact hi.completed) ?_ ?_
  · intro u
    have hu : ThreadOk s' gl (s.all gl pl) u (s.pc u) :=
      (hi.threads u).of_sameData same (by rw [put]; exact id) (by rw [get]; exact id)
    rcases hpc u with h | h <;> rw [h]
    · exact hu
    · exact hu.wake
  · intro u v m hu hv
    rw [hpending] at hu hv
    exact hi.apart u v m hu hv

theorem Inv.notifyGet [DecidableEq Tid] {s s' : State Tid} {gl pl : List Msg} {woken : Option Tid}
    (hi : Inv s gl pl) (h : s.notifyGet woken = some s') : Inv s' gl pl := by
  cases woken with
  | none =>
    simp only [State.notifyGet] at h
    split at h
    · cases h; exact hi
    · cases h
  | some w =>
    simp only [State.notifyGet] at h
    split at h
    · cases h
      refine hi.woken (by constructor <;> rfl) rfl rfl rfl fun u => ?_
      by_cases hu : u = w
      · subst hu; exact .inr (Function.update_self ..)
      · exact .inl (Function.update_of_ne hu ..)
    · cases h

theorem Inv.notifyAllPut [DecidableEq Tid] {s : State Tid} {gl pl : List Msg} (hi : Inv s gl pl) :
    Inv s.notifyAllPut gl pl := by
  refine hi.woken (by constructor <;> rfl) rfl rfl rfl fun u => ?_
  simp only [State.notifyAllPut]
  split
  · exact .inr rfl
  · exact .inl rfl

theorem Inv.notifyFull [DecidableEq Tid] {s : State Tid} {gl pl : List Msg} (hi : Inv s gl pl) :
    Inv s.notifyFull gl pl := by
  unfold State.notifyFull
  split
  · exact hi.notifyAllPut
  · exact hi

/-- A notification changes no field but the wait list and the program counters. -/
theorem notifyFull_fields [DecidableEq Tid] (s : State Tid) :
    s.notifyFull.getHead = s.getHead ∧ s.notifyFull.putHead = s.putHead ∧
      s.notifyFull.msgCnt = s.msgCnt ∧ s.notifyFull.getMutex = s.getMutex ∧
      s.notifyFull.putMutex = s.putMutex := by
  unfold State.notifyFull
  split <;> exact ⟨rfl, rfl, rfl, rfl, rfl⟩

end WorkflowKernel.MsgQueue
