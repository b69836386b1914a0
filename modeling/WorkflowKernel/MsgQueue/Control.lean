import Mathlib.Data.List.Nodup
import WorkflowKernel.MsgQueue.Model

/-!
# What a step does to the counter, the flag and the wait lists

Waiting and waking look at `msg_cnt`, `nonblock` and the two wait lists, and not at the buffers.
`Control` is this part of a queue and `Effect` says all that a step of a thread can do to it;
`effect_of_step` reads it off the operations once.

## What is proved

- `effect_of_step`: every step of the queue is an `Effect`.
- `Waits.step`: the wait lists hold exactly the parked threads, each once.
-/

namespace WorkflowKernel.MsgQueue

open WorkflowKernel.Transition

variable {Tid : Type} [DecidableEq Tid]

/-! ## Program counters -/

/-- Waiting on `get_cond`. -/
def Pc.parkedGet : Pc → Bool
  | .swapParked _ => true
  | _ => false

/-- Waiting on `put_cond`. -/
def Pc.parkedPut : Pc → Bool
  | .putParked _ | .headParked _ => true
  | _ => false

/-- Has stored a message and will notify `get_cond`. -/
def Pc.notifying : Pc → Bool
  | .putUnlock _ | .putNotify _ | .headNotify _ => true
  | _ => false

/-- Has set the flag and will notify both conditions. -/
def Pc.setting : Pc → Bool
  | .nonblockLock | .nonblockNotify => true
  | _ => false

/-- In `msgqueue_put_head`. -/
def Pc.inHead : Pc → Bool
  | .headLock _ | .headLoop _ | .headTry _ | .headUnlockPut _ | .headRead _ | .headWrite _
  | .headUnlockGet _ | .headBody _ | .headParked _ | .headWake _ | .headNotify _
  | .headRelease _ => true
  | _ => false

/-- Where an operation starts. -/
def Call.start (fresh : Msg) : Call → Pc
  | .put => .putLock fresh
  | .putHead => .headLock fresh
  | .get => .getLock
  | .setNonblock => .nonblockStore
  | .setBlock => .blockStore

/-- A move that neither parks nor wakes, and that drops no notification. -/
structure Calm (before after : Pc) : Prop where
  awake : before.parkedGet = false ∧ before.parkedPut = false
  stays : after.parkedGet = false ∧ after.parkedPut = false
  notifying : before.notifying = true → after.notifying = true
  setting : before.setting = true → after.setting = true
  inHead : after.inHead = true → before.inHead = true
  flag : before ≠ .nonblockStore ∧ before ≠ .blockStore ∧ after ≠ .nonblockUnlock ∧
    after ≠ .nonblockStore
  null : after ≠ .swapUnlock 0 ∧ (after = .getUnlock none → before = .swapUnlock 0)

/-! ## The control of a queue -/

structure Control (Tid : Type) where
  msgMax : Nat
  msgCnt : Nat
  nonblock : Bool
  getCond : List Tid
  putCond : List Tid
  pc : Tid → Pc

def State.control (s : State Tid) : Control Tid where
  msgMax := s.msgMax
  msgCnt := s.msgCnt
  nonblock := s.nonblock
  getCond := s.getCond
  putCond := s.putCond
  pc := s.pc

def Control.goto (c : Control Tid) (t : Tid) (pc : Pc) : Control Tid :=
  { c with pc := Function.update c.pc t pc }

def Control.setCnt (c : Control Tid) (n : Nat) : Control Tid := { c with msgCnt := n }

/-- A thread leaves the wait list of `get_cond`. -/
def Control.wakeGet (c : Control Tid) (t : Tid) : Control Tid :=
  { c with getCond := c.getCond.erase t, pc := Function.update c.pc t (c.pc t).wake }

/-- A thread leaves the wait list of `put_cond`. -/
def Control.wakePut (c : Control Tid) (t : Tid) : Control Tid :=
  { c with putCond := c.putCond.erase t, pc := Function.update c.pc t (c.pc t).wake }

/-- Everyone leaves the wait list of `put_cond`. -/
def Control.wakeAllPut (c : Control Tid) : Control Tid :=
  { c with putCond := [], pc := fun t => if t ∈ c.putCond then (c.pc t).wake else c.pc t }

/-- `get_cond.notify_one()`. -/
inductive Notified (c : Control Tid) : Control Tid → Prop
  | nobody (empty : c.getCond = []) : Notified c c
  | one (w : Tid) (waits : w ∈ c.getCond) : Notified c (c.wakeGet w)

/-- What a step of the thread `t` does. -/
inductive Effect (c : Control Tid) (t : Tid) : Control Tid → Prop
  | enters (call : Call) (fresh : Msg) (idle : c.pc t = .idle) :
    Effect c t (c.goto t (call.start fresh))
  | goes (pc : Pc) (calm : Calm (c.pc t) pc) : Effect c t (c.goto t pc)
  | inserts (msg : Msg) (here : c.pc t = .putBody msg)
      (room : ¬ (c.msgCnt = c.msgMax ∧ c.nonblock = false)) :
    Effect c t ((c.setCnt (c.msgCnt + 1)).goto t (.putUnlock msg))
  | parksPut (msg : Msg) (here : c.pc t = .putBody msg)
      (full : c.msgCnt = c.msgMax ∧ c.nonblock = false) :
    Effect c t ({ c with putCond := c.putCond ++ [t] }.goto t (.putParked msg))
  | insertsHead (msg : Msg) (here : c.pc t = .headBody msg)
      (room : ¬ (c.msgCnt = c.msgMax ∧ c.nonblock = true)) :
    Effect c t ((c.setCnt (c.msgCnt + 1)).goto t (.headNotify msg))
  | parksHead (msg : Msg) (here : c.pc t = .headBody msg)
      (full : c.msgCnt = c.msgMax ∧ c.nonblock = true) :
    Effect c t ({ c with putCond := c.putCond ++ [t] }.goto t (.headParked msg))
  | parksGet (getHead : Addr) (here : c.pc t = .swapBody getHead)
      (empty : c.msgCnt = 0 ∧ c.nonblock = false) :
    Effect c t ({ c with getCond := c.getCond ++ [t] }.goto t (.swapParked getHead))
  | swaps (getHead : Addr) (here : c.pc t = .swapBody getHead)
      (found : ¬ (c.msgCnt = 0 ∧ c.nonblock = false)) (room : c.msgCnt ≤ sizePred c.msgMax) :
    Effect c t ((c.setCnt 0).goto t (.swapUnlock c.msgCnt))
  | swapsFull (getHead : Addr) (here : c.pc t = .swapBody getHead)
      (found : ¬ (c.msgCnt = 0 ∧ c.nonblock = false)) :
    Effect c t ((c.wakeAllPut.setCnt 0).goto t (.swapUnlock c.msgCnt))
  | notifies (pc : Pc) {c' : Control Tid} (here : (c.pc t).notifying = true)
      (stays : pc.parkedGet = false ∧ pc.parkedPut = false)
      (notified : Notified c c') (after : pc = .idle ∨ ∃ msg, pc = .headRelease msg)
      (head : pc.inHead = true → (c.pc t).inHead = true) :
    Effect c t (c'.goto t pc)
  | sets {c' : Control Tid} (here : c.pc t = .nonblockNotify) (notified : Notified c c') :
    Effect c t (c'.wakeAllPut.goto t .nonblockUnlock)
  | stores (here : c.pc t = .nonblockStore) :
    Effect c t ({ c with nonblock := true }.goto t .nonblockLock)
  | clears (here : c.pc t = .blockStore) :
    Effect c t ({ c with nonblock := false }.goto t .idle)
  | wakesGet (waits : t ∈ c.getCond) : Effect c t (c.wakeGet t)
  | wakesPut (waits : t ∈ c.putCond) : Effect c t (c.wakePut t)

/-- The thread that a label is about. -/
def Label.thread : Label Tid → Tid
  | .call t _ | .step t _ | .spurious t => t

@[simp] theorem State.goto_pc (s : State Tid) (t : Tid) (pc : Pc) : (s.goto t pc).pc t = pc :=
  Function.update_self ..

section Effects

attribute [local simp] Pc.parkedGet Pc.parkedPut Pc.notifying Pc.setting Pc.inHead

variable {s s' : State Tid} {t : Tid} {woken : Option Tid} {pc : Pc}

theorem State.lockPut_pc (h : s.lockPut t pc = some s') : s'.pc t = pc := by
  simp only [State.lockPut] at h
  split at h
  · cases h
    exact State.goto_pc ..
  · cases h

/-- A notification wakes one waiting getter, if there is one. -/
theorem notified_of_notifyGet (h : s.notifyGet woken = some s') :
    Notified s.control s'.control := by
  cases woken with
  | none =>
    simp only [State.notifyGet] at h
    split at h
    · next hempty =>
      cases h
      exact .nobody hempty
    · cases h
  | some w =>
    simp only [State.notifyGet] at h
    split at h
    · next hwaits =>
      cases h
      exact .one w hwaits
    · cases h

/-- Taking the mutex is a calm move, -/
theorem effect_of_lockPut (h : s.lockPut t pc = some s') (calm : Calm (s.pc t) pc) :
    Effect s.control t s'.control := by
  simp only [State.lockPut] at h
  split at h
  · cases h
    exact .goes pc calm
  · cases h

/-- so is a call. -/
theorem effect_enter (hidle : s.pc t = .idle) (call : Call) :
    Effect s.control t (enter s t call).control := by
  cases call with
  | put => exact .enters .put s.fresh hidle
  | putHead => exact .enters .putHead s.fresh hidle
  | get => exact .enters .get s.fresh hidle
  | setNonblock => exact .enters .setNonblock s.fresh hidle
  | setBlock => exact .enters .setBlock s.fresh hidle

/-- A put moves calmly, parks, or inserts and notifies, -/
theorem effect_msgQueuePut (hpc : s.pc t = pc) (h : msgQueuePut s t woken pc = some s') :
    Effect s.control t s'.control := by
  cases pc with
  | putLock msg | putWake msg =>
    apply effect_of_lockPut h
    rw [hpc]
    constructor <;> simp
  | putBody msg =>
    simp only [msgQueuePut] at h
    split at h
    · next hfull =>
      cases h
      exact .parksPut msg hpc hfull
    · next hroom =>
      cases h
      exact .inserts msg hpc hroom
  | putUnlock msg =>
    cases h
    apply Effect.goes (.putNotify msg)
    change Calm (s.pc t) _
    rw [hpc]
    constructor <;> simp
  | putNotify msg =>
    simp only [msgQueuePut, Option.bind_eq_bind, Option.bind_eq_some_iff] at h
    obtain ⟨s₁, hnotify, heq⟩ := h
    cases heq
    apply Effect.notifies .idle _ ⟨rfl, rfl⟩ (notified_of_notifyGet hnotify) (.inl rfl)
    · simp
    · show (s.pc t).notifying = true
      rw [hpc]
      rfl
  | _ => cases h

/-- a head put likewise, -/
theorem effect_msgqueuePutHead (hpc : s.pc t = pc) (h : msgqueuePutHead s t woken pc = some s') :
    Effect s.control t s'.control := by
  have hgoes : ∀ {next : Pc}, Calm pc next → Calm (s.control.pc t) next := by
    intro next hcalm
    show Calm (s.pc t) next
    rw [hpc]
    exact hcalm
  cases pc with
  | headLock msg | headWake msg =>
    apply effect_of_lockPut h
    rw [hpc]
    constructor <;> simp
  | headLoop msg | headTry msg =>
    simp only [msgqueuePutHead] at h
    split at h
    all_goals
      cases h
      refine .goes _ (hgoes ?_)
      constructor <;> simp
  | headUnlockPut msg | headRead msg | headWrite msg | headUnlockGet msg | headRelease msg =>
    cases h
    refine .goes _ (hgoes ?_)
    constructor <;> simp
  | headBody msg =>
    simp only [msgqueuePutHead] at h
    split at h
    · next hfull =>
      cases h
      exact .parksHead msg hpc hfull
    · next hroom =>
      cases h
      exact .insertsHead msg hpc hroom
  | headNotify msg =>
    simp only [msgqueuePutHead, Option.bind_eq_bind, Option.bind_eq_some_iff] at h
    obtain ⟨s₁, hnotify, heq⟩ := h
    cases heq
    apply Effect.notifies (.headRelease msg) _ ⟨rfl, rfl⟩ (notified_of_notifyGet hnotify)
      (.inr ⟨msg, rfl⟩)
    · intro _
      show (s.pc t).inHead = true
      rw [hpc]
      rfl
    · show (s.pc t).notifying = true
      rw [hpc]
      rfl
  | _ => cases h

/-- `__msgqueue_swap` parks or exchanges, -/
theorem effect_msgqueueSwap (hpc : s.pc t = pc) (h : msgqueueSwap s t pc = some s') :
    Effect s.control t s'.control := by
  cases pc with
  | swapLock getHead | swapWake getHead =>
    apply effect_of_lockPut h
    rw [hpc]
    constructor <;> simp
  | swapBody getHead =>
    simp only [msgqueueSwap] at h
    split at h
    · next hempty =>
      cases h
      exact .parksGet getHead hpc hempty
    · next hfound =>
      cases h
      by_cases hfull : sizePred s.msgMax < s.msgCnt
      · simp only [State.notifyFull, hfull, if_true]
        exact .swapsFull getHead hpc hfound
      · simp only [State.notifyFull, hfull, if_false]
        exact .swaps getHead hpc hfound (Nat.not_lt.mp hfull)
  | swapUnlock cnt =>
    cases h
    apply Effect.goes
    change Calm (s.pc t) _
    rw [hpc]
    split
    · constructor <;> simp
    · next hzero =>
      obtain rfl : cnt = 0 := Nat.eq_zero_of_not_pos hzero
      constructor <;> simp
  | _ => cases h

/-- a get moves calmly, -/
theorem effect_msgqueueGet (hpc : s.pc t = pc) (h : msgqueueGet s t pc = some s') :
    Effect s.control t s'.control := by
  have hgoes : ∀ {next : Pc}, Calm pc next → Calm (s.control.pc t) next := by
    intro next hcalm
    show Calm (s.pc t) next
    rw [hpc]
    exact hcalm
  cases pc with
  | getLock =>
    simp only [msgqueueGet] at h
    split at h
    · cases h
      refine .goes _ (hgoes ?_)
      constructor <;> simp
    · cases h
  | getTest | getMsg | getNext msg =>
    simp only [msgqueueGet] at h
    split at h
    all_goals
      cases h
      refine .goes _ (hgoes ?_)
      constructor <;> simp
  | getWrite msg next | getUnlock msg =>
    cases h
    refine .goes _ (hgoes ?_)
    constructor <;> simp
  | _ => cases h

/-- the setters write the flag and wake, -/
theorem effect_msgqueueSetNonblock (hpc : s.pc t = pc)
    (h : msgqueueSetNonblock s t woken pc = some s') : Effect s.control t s'.control := by
  cases pc with
  | nonblockStore =>
    cases h
    exact .stores hpc
  | nonblockLock =>
    apply effect_of_lockPut h
    rw [hpc]
    constructor <;> simp
  | nonblockNotify =>
    simp only [msgqueueSetNonblock, Option.bind_eq_bind, Option.bind_eq_some_iff] at h
    obtain ⟨s₁, hnotify, heq⟩ := h
    cases heq
    exact .sets hpc (notified_of_notifyGet hnotify)
  | nonblockUnlock =>
    cases h
    apply Effect.goes .idle
    change Calm (s.pc t) _
    rw [hpc]
    constructor <;> simp
  | blockStore =>
    cases h
    exact .clears hpc
  | _ => cases h

/-- and a spurious wake-up takes its thread off the list. -/
theorem effect_wakeSpuriously (h : wakeSpuriously s t = some s') :
    Effect s.control t s'.control := by
  simp only [wakeSpuriously] at h
  split at h
  · next hget =>
    cases h
    exact .wakesGet hget
  · split at h
    · next hput =>
      cases h
      exact .wakesPut hput
    · cases h

/-- Every step is one of the effects. -/
theorem effect_of_step {a : Label Tid} (h : step s a = some s') :
    Effect s.control a.thread s'.control := by
  cases a with
  | call t call =>
    simp only [step] at h
    split at h
    · next hidle =>
      cases h
      exact effect_enter hidle call
    · cases h
  | step t woken =>
    simp only [step, exec, Option.or_eq_some_iff] at h
    obtain h | ⟨-, h | ⟨-, h | ⟨-, h | ⟨-, h⟩⟩⟩⟩ := h
    · exact effect_msgQueuePut rfl h
    · exact effect_msgqueuePutHead rfl h
    · exact effect_msgqueueSwap rfl h
    · exact effect_msgqueueGet rfl h
    · exact effect_msgqueueSetNonblock rfl h
  | spurious t => exact effect_wakeSpuriously h

/-- A spurious wake-up sends the thread back for the mutex. -/
theorem wakeSpuriously_pc (h : wakeSpuriously s t = some s') : s'.pc t = (s.pc t).wake := by
  simp only [wakeSpuriously] at h
  split at h
  · cases h
    exact Function.update_self ..
  · split at h
    · cases h
      exact Function.update_self ..
    · cases h

/-- Outside every operation a thread has no next step. -/
theorem exec_idle (h : s.pc t = .idle) : exec s t woken = none := by
  unfold exec
  rw [h]
  rfl

/-- A thread outside every operation enters one by a call, or stays outside. -/
theorem step_of_idle {a : Label Tid} (h : step s a = some s') (idle : s.pc a.thread = .idle) :
    (∃ call, a = .call a.thread call ∧ s'.pc a.thread = call.start s.fresh) ∨
      s'.pc a.thread = .idle := by
  cases a with
  | call t call =>
    simp only [step] at h
    split at h
    · cases h
      left
      refine ⟨call, rfl, ?_⟩
      cases call <;> exact Function.update_self ..
    · cases h
  | step t woken =>
    have hnone : exec s t woken = none := exec_idle idle
    rw [step, hnone] at h
    cases h
  | spurious t =>
    right
    have hwake := wakeSpuriously_pc h
    rw [show s.pc t = .idle from idle] at hwake
    exact hwake

end Effects

/-! ## Waking -/

theorem wake_wake (pc : Pc) : pc.wake.wake = pc.wake := by
  cases pc <;> rfl

section Woken

variable {c c' : Control Tid} {t : Tid} {pc : Pc}

/-- Threads were woken, and nothing else. -/
def Woken (c c' : Control Tid) : Prop := ∀ u, c'.pc u = c.pc u ∨ c'.pc u = (c.pc u).wake

theorem woken_wakeGet (c : Control Tid) (w : Tid) : Woken c (c.wakeGet w) := by
  intro u
  by_cases hu : u = w
  · subst hu
    exact .inr (Function.update_self ..)
  · exact .inl (Function.update_of_ne hu ..)

theorem woken_wakePut (c : Control Tid) (w : Tid) : Woken c (c.wakePut w) := by
  intro u
  by_cases hu : u = w
  · subst hu
    exact .inr (Function.update_self ..)
  · exact .inl (Function.update_of_ne hu ..)

/-- Waking all putters moves no thread elsewhere. -/
theorem woken_wakeAllPut (c : Control Tid) : Woken c c.wakeAllPut := by
  intro u
  simp only [Control.wakeAllPut]
  split
  · exact .inr rfl
  · exact .inl rfl

theorem Notified.woken (h : Notified c c') : Woken c c' := by
  cases h with
  | nobody => exact fun u => .inl rfl
  | one w => exact woken_wakeGet c w

/-- A notification leaves the counter, its bound and the flag. -/
theorem Notified.counts (h : Notified c c') :
    c'.msgMax = c.msgMax ∧ c'.msgCnt = c.msgCnt ∧ c'.nonblock = c.nonblock := by
  cases h with
  | nobody => exact ⟨rfl, rfl, rfl⟩
  | one w => exact ⟨rfl, rfl, rfl⟩

/-- Only the thread of the step moves; the others may be woken. -/
theorem Effect.others {u : Tid} (he : Effect c t c') (hu : u ≠ t) :
    c'.pc u = c.pc u ∨ c'.pc u = (c.pc u).wake := by
  have hgoto : ∀ (d : Control Tid) (pc : Pc), (d.goto t pc).pc u = d.pc u :=
    fun d pc => Function.update_of_ne hu ..
  cases he with
  | swapsFull getHead here =>
    rw [hgoto]
    exact woken_wakeAllPut c u
  | notifies pc here stays notified =>
    rw [hgoto]
    exact notified.woken u
  | @sets c₁ here notified =>
    rw [hgoto]
    -- a getter is woken or a putter is, and waking twice is waking
    obtain hsame | hwoken := notified.woken u
    · rw [← hsame]
      exact woken_wakeAllPut c₁ u
    · right
      obtain hsame' | hwoken' := woken_wakeAllPut c₁ u
      · rw [hsame', hwoken]
      · rw [hwoken', hwoken, wake_wake]
  | wakesGet => exact woken_wakeGet c t u
  | wakesPut => exact woken_wakePut c t u
  | _ =>
    rw [hgoto]
    exact .inl rfl

end Woken

/-! ## The wait lists -/

/-- The wait lists hold exactly the parked threads, each once. -/
structure Waits (c : Control Tid) : Prop where
  get : ∀ t, t ∈ c.getCond ↔ (c.pc t).parkedGet = true
  put : ∀ t, t ∈ c.putCond ↔ (c.pc t).parkedPut = true
  nodupGet : c.getCond.Nodup
  nodupPut : c.putCond.Nodup

section Waiting

variable {c c' : Control Tid} {t : Tid} {pc : Pc}

omit [DecidableEq Tid] in
/-- Nobody waits at a new queue. -/
theorem waits_create (maxlen : Nat) : Waits (msgqueueCreate Tid maxlen).control := by
  constructor <;> simp [msgqueueCreate, State.control, Pc.parkedGet, Pc.parkedPut]

@[simp] theorem parkedGet_wake (pc : Pc) : pc.wake.parkedGet = false := by
  cases pc <;> rfl

@[simp] theorem parkedPut_wake (pc : Pc) : pc.wake.parkedPut = false := by
  cases pc <;> rfl

/-- Only the thread of the step moves, from awake to awake. -/
theorem Waits.move (h : Waits c) (getCond : c'.getCond = c.getCond)
    (putCond : c'.putCond = c.putCond) (hpc : c'.pc = Function.update c.pc t pc)
    (awake : (c.pc t).parkedGet = false ∧ (c.pc t).parkedPut = false)
    (stays : pc.parkedGet = false ∧ pc.parkedPut = false) : Waits c' := by
  refine ⟨fun u => ?_, fun u => ?_, ?_, ?_⟩
  · rw [getCond, hpc]
    by_cases hu : u = t
    · subst hu
      rw [Function.update_self, h.get, awake.1, stays.1]
    · rw [Function.update_of_ne hu, h.get]
  · rw [putCond, hpc]
    by_cases hu : u = t
    · subst hu
      rw [Function.update_self, h.put, awake.2, stays.2]
    · rw [Function.update_of_ne hu, h.put]
  · rw [getCond]
    exact h.nodupGet
  · rw [putCond]
    exact h.nodupPut

/-- A thread that parks joins the list of its condition, -/
theorem Waits.parkPut (h : Waits c) (awake : (c.pc t).parkedGet = false ∧
    (c.pc t).parkedPut = false) (parks : pc.parkedGet = false ∧ pc.parkedPut = true) :
    Waits ({ c with putCond := c.putCond ++ [t] }.goto t pc) := by
  have hnot : t ∉ c.putCond := by
    rw [h.put, awake.2]
    exact Bool.false_ne_true
  refine ⟨fun u => ?_, fun u => ?_, h.nodupGet, List.nodup_append'.mpr ⟨h.nodupPut, ?_, ?_⟩⟩
  · by_cases hu : u = t
    · subst hu
      simp [Control.goto, h.get, awake.1, parks.1]
    · simp [Control.goto, Function.update_of_ne hu, h.get]
  · by_cases hu : u = t
    · subst hu
      simp [Control.goto, parks.2]
    · simp [Control.goto, h.put, hu]
  · exact List.nodup_singleton t
  · exact List.disjoint_singleton.mpr hnot

/-- of either. -/
theorem Waits.parkGet (h : Waits c) (awake : (c.pc t).parkedGet = false ∧
    (c.pc t).parkedPut = false) (parks : pc.parkedGet = true ∧ pc.parkedPut = false) :
    Waits ({ c with getCond := c.getCond ++ [t] }.goto t pc) := by
  have hnot : t ∉ c.getCond := by
    rw [h.get, awake.1]
    exact Bool.false_ne_true
  refine ⟨fun u => ?_, fun u => ?_, List.nodup_append'.mpr ⟨h.nodupGet, ?_, ?_⟩, h.nodupPut⟩
  · by_cases hu : u = t
    · subst hu
      simp [Control.goto, parks.1]
    · simp [Control.goto, h.get, hu]
  · by_cases hu : u = t
    · subst hu
      simp [Control.goto, h.put, awake.2, parks.2]
    · simp [Control.goto, Function.update_of_ne hu, h.put]
  · exact List.nodup_singleton t
  · exact List.disjoint_singleton.mpr hnot

/-- A parked getter is not a parked putter. -/
theorem parkedPut_of_parkedGet (h : pc.parkedGet = true) : pc.parkedPut = false := by
  cases pc with
  | putParked | headParked => cases h
  | _ => rfl

/-- Nobody waits at both conditions. -/
theorem parkedGet_of_parkedPut (h : pc.parkedPut = true) : pc.parkedGet = false := by
  rw [Bool.eq_false_iff]
  intro hget
  rw [parkedPut_of_parkedGet hget] at h
  cases h

/-- A thread about to notify is not parked. -/
theorem awake_of_notifying (h : pc.notifying = true) :
    pc.parkedGet = false ∧ pc.parkedPut = false := by
  cases pc with
  | putUnlock | putNotify | headNotify => exact ⟨rfl, rfl⟩
  | _ => cases h

/-- One that is woken leaves it, -/
theorem Waits.wakeGet (h : Waits c) (waits : t ∈ c.getCond) : Waits (c.wakeGet t) := by
  have hparked := parkedPut_of_parkedGet ((h.get t).mp waits)
  refine ⟨fun u => ?_, fun u => ?_, h.nodupGet.erase t, h.nodupPut⟩
  · by_cases hu : u = t
    · subst hu
      simp [Control.wakeGet, h.nodupGet.mem_erase_iff]
    · simp [Control.wakeGet, h.nodupGet.mem_erase_iff, hu, h.get]
  · by_cases hu : u = t
    · subst hu
      simp [Control.wakeGet, h.put, hparked]
    · simp [Control.wakeGet, Function.update_of_ne hu, h.put]

/-- either, -/
theorem Waits.wakePut (h : Waits c) (waits : t ∈ c.putCond) : Waits (c.wakePut t) := by
  have hparked := parkedGet_of_parkedPut ((h.put t).mp waits)
  refine ⟨fun u => ?_, fun u => ?_, h.nodupGet, h.nodupPut.erase t⟩
  · by_cases hu : u = t
    · subst hu
      simp [Control.wakePut, h.get, hparked]
    · simp [Control.wakePut, Function.update_of_ne hu, h.get]
  · by_cases hu : u = t
    · subst hu
      simp [Control.wakePut, h.nodupPut.mem_erase_iff]
    · simp [Control.wakePut, h.nodupPut.mem_erase_iff, hu, h.put]

/-- or all putters leave, -/
theorem Waits.wakeAllPut (h : Waits c) : Waits c.wakeAllPut := by
  refine ⟨fun u => ?_, fun u => ?_, h.nodupGet, List.nodup_nil⟩
  · simp only [Control.wakeAllPut, h.get]
    split
    · next hu => rw [parkedGet_wake, parkedGet_of_parkedPut ((h.put u).mp hu)]
    · rfl
  · simp only [Control.wakeAllPut, List.not_mem_nil, false_iff]
    split
    · simp
    · next hu =>
      rw [h.put] at hu
      exact hu

/-- or whom a notification wakes. -/
theorem Waits.notified (h : Waits c) (hn : Notified c c') : Waits c' := by
  cases hn with
  | nobody => exact h
  | one w waits => exact h.wakeGet waits

/-- Only the parked are woken. -/
theorem Control.wakeAllPut_pc (c : Control Tid) (h : t ∉ c.putCond) : c.wakeAllPut.pc t = c.pc t :=
  if_neg h

/-- A notification leaves a thread alone that is not parked. -/
theorem Notified.pc_eq (h : Notified c c') (ht : (c.pc t).parkedGet = false) (hw : Waits c) :
    c'.pc t = c.pc t := by
  cases h with
  | nobody => rfl
  | one w waits =>
    apply Function.update_of_ne
    rintro rfl
    rw [hw.get, ht] at waits
    cases waits

end Waiting

/-- A step keeps the wait lists. -/
theorem Waits.step {c c' : Control Tid} {t : Tid} (h : Waits c) (he : Effect c t c') :
    Waits c' := by
  have awake : ∀ {pc : Pc}, c.pc t = pc → pc.parkedGet = false ∧ pc.parkedPut = false →
      (c.pc t).parkedGet = false ∧ (c.pc t).parkedPut = false := by
    intro pc here hpc
    rw [here]
    exact hpc
  cases he with
  | enters call fresh idle =>
    refine h.move rfl rfl rfl (awake idle ⟨rfl, rfl⟩) ?_
    cases call <;> exact ⟨rfl, rfl⟩
  | goes pc calm => exact h.move rfl rfl rfl calm.awake calm.stays
  | inserts msg here => exact h.move rfl rfl rfl (awake here ⟨rfl, rfl⟩) ⟨rfl, rfl⟩
  | insertsHead msg here => exact h.move rfl rfl rfl (awake here ⟨rfl, rfl⟩) ⟨rfl, rfl⟩
  | parksPut msg here => exact h.parkPut (awake here ⟨rfl, rfl⟩) ⟨rfl, rfl⟩
  | parksHead msg here => exact h.parkPut (awake here ⟨rfl, rfl⟩) ⟨rfl, rfl⟩
  | parksGet getHead here => exact h.parkGet (awake here ⟨rfl, rfl⟩) ⟨rfl, rfl⟩
  | swaps getHead here => exact h.move rfl rfl rfl (awake here ⟨rfl, rfl⟩) ⟨rfl, rfl⟩
  | swapsFull getHead here =>
    have hpc : c.wakeAllPut.pc t = c.pc t := by
      apply c.wakeAllPut_pc
      rw [h.put, here]
      exact Bool.false_ne_true
    refine h.wakeAllPut.move rfl rfl rfl ?_ ⟨rfl, rfl⟩
    rw [hpc]
    exact awake here ⟨rfl, rfl⟩
  | @notifies pc c' here stays notified =>
    have hawake := awake_of_notifying here
    refine (h.notified notified).move rfl rfl rfl ?_ stays
    rw [notified.pc_eq hawake.1 h]
    exact hawake
  | @sets c' here notified =>
    have hnotified := h.notified notified
    have hpc : c'.pc t = .nonblockNotify := by
      rw [notified.pc_eq (awake here ⟨rfl, rfl⟩).1 h, here]
    have hpc' : c'.wakeAllPut.pc t = .nonblockNotify := by
      rw [c'.wakeAllPut_pc, hpc]
      rw [hnotified.put, hpc]
      exact Bool.false_ne_true
    refine hnotified.wakeAllPut.move rfl rfl rfl ?_ ⟨rfl, rfl⟩
    rw [hpc']
    exact ⟨rfl, rfl⟩
  | stores here => exact h.move rfl rfl rfl (awake here ⟨rfl, rfl⟩) ⟨rfl, rfl⟩
  | clears here => exact h.move rfl rfl rfl (awake here ⟨rfl, rfl⟩) ⟨rfl, rfl⟩
  | wakesGet waits => exact h.wakeGet waits
  | wakesPut waits => exact h.wakePut waits

/-! ## Who parks, and what becomes of the counter and the flag -/

/-- Waiting on one of the conditions. -/
def Pc.Parked (pc : Pc) : Prop := pc.parkedGet = true ∨ pc.parkedPut = true

/-- At the bound a put waits while the flag is clear, and a head put while it is set. -/
inductive ParksPut (c : Control Tid) (t : Tid) : Prop
  | put (msg : Msg) (here : c.pc t = .putBody msg) (full : c.msgCnt = c.msgMax)
      (blocks : c.nonblock = false)
  | head (msg : Msg) (here : c.pc t = .headBody msg) (full : c.msgCnt = c.msgMax)
      (blocks : c.nonblock = true)

/-- A swap waits for a message while the flag is clear. -/
inductive ParksGet (c : Control Tid) (t : Tid) : Prop
  | get (getHead : Addr) (here : c.pc t = .swapBody getHead) (empty : c.msgCnt = 0)
      (blocks : c.nonblock = false)

section Changes

variable {c c' : Control Tid} {t u : Tid}

/-- A thread waits for room because it did, or because it has just found none. -/
theorem Effect.parkedPut (he : Effect c t c') (hu : (c'.pc u).parkedPut = true) :
    (c.pc u).parkedPut = true ∨ (u = t ∧ ParksPut c t) := by
  by_cases hut : u = t
  · subst hut
    have hself : ∀ (d : Control Tid) (pc : Pc), ((d.goto u pc).pc u).parkedPut = true →
        pc.parkedPut = true := by
      intro d pc hpc
      simpa only [Control.goto, Function.update_self] using hpc
    cases he with
    | enters call fresh idle =>
      have hstart := hself _ _ hu
      cases call <;> cases hstart
    | goes pc calm =>
      have hafter := hself _ _ hu
      rw [calm.stays.2] at hafter
      cases hafter
    | parksPut msg here full => exact .inr ⟨rfl, .put msg here full.1 full.2⟩
    | parksHead msg here full => exact .inr ⟨rfl, .head msg here full.1 full.2⟩
    | notifies pc here stays =>
      have hafter := hself _ _ hu
      rw [stays.2] at hafter
      cases hafter
    | wakesGet =>
      simp only [Control.wakeGet, Function.update_self, parkedPut_wake, Bool.false_eq_true] at hu
    | wakesPut =>
      simp only [Control.wakePut, Function.update_self, parkedPut_wake, Bool.false_eq_true] at hu
    | _ => cases hself _ _ hu
  · left
    obtain hsame | hwoken := he.others hut
    · rwa [hsame] at hu
    · rw [hwoken, parkedPut_wake] at hu
      cases hu

/-- A thread waits for a message because it did, or because it has just found none. -/
theorem Effect.parkedGet (he : Effect c t c') (hu : (c'.pc u).parkedGet = true) :
    (c.pc u).parkedGet = true ∨ (u = t ∧ ParksGet c t) := by
  by_cases hut : u = t
  · subst hut
    have hself : ∀ (d : Control Tid) (pc : Pc), ((d.goto u pc).pc u).parkedGet = true →
        pc.parkedGet = true := by
      intro d pc hpc
      simpa only [Control.goto, Function.update_self] using hpc
    cases he with
    | enters call fresh idle =>
      have hstart := hself _ _ hu
      cases call <;> cases hstart
    | goes pc calm =>
      have hafter := hself _ _ hu
      rw [calm.stays.1] at hafter
      cases hafter
    | parksGet getHead here empty => exact .inr ⟨rfl, .get getHead here empty.1 empty.2⟩
    | notifies pc here stays =>
      have hafter := hself _ _ hu
      rw [stays.1] at hafter
      cases hafter
    | wakesGet =>
      simp only [Control.wakeGet, Function.update_self, parkedGet_wake, Bool.false_eq_true] at hu
    | wakesPut =>
      simp only [Control.wakePut, Function.update_self, parkedGet_wake, Bool.false_eq_true] at hu
    | _ => cases hself _ _ hu
  · left
    obtain hsame | hwoken := he.others hut
    · rwa [hsame] at hu
    · rw [hwoken, parkedGet_wake] at hu
      cases hu

/-- The bound of a queue stays. -/
theorem Effect.msgMax_eq (he : Effect c t c') : c'.msgMax = c.msgMax := by
  cases he with
  | notifies pc here stays notified => exact notified.counts.1
  | sets here notified => exact notified.counts.1
  | _ => rfl

/-- The flag is set by its store only. -/
theorem Effect.blocks (he : Effect c t c') (hstore : c.pc t ≠ .nonblockStore)
    (h : c.nonblock = false) : c'.nonblock = false := by
  cases he with
  | notifies pc here stays notified => exact notified.counts.2.2.trans h
  | sets here notified => exact notified.counts.2.2.trans h
  | stores here => exact absurd here hstore
  | clears here => rfl
  | _ => exact h

/-- The flag is cleared by its store only. -/
theorem Effect.keepsFlag (he : Effect c t c') (hclear : c.pc t ≠ .blockStore)
    (h : c.nonblock = true) : c'.nonblock = true := by
  cases he with
  | notifies pc here stays notified => exact notified.counts.2.2.trans h
  | sets here notified => exact notified.counts.2.2.trans h
  | stores here => rfl
  | clears here => exact absurd here hclear
  | _ => exact h

/-- The counter grows by the two insertions. -/
theorem Effect.msgCnt_cases (he : Effect c t c') : c'.msgCnt ≤ c.msgCnt ∨
    (c'.msgCnt = c.msgCnt + 1 ∧
      ((∃ msg, c.pc t = .putBody msg ∧ ¬ (c.msgCnt = c.msgMax ∧ c.nonblock = false)) ∨
        ∃ msg, c.pc t = .headBody msg)) := by
  cases he with
  | inserts msg here room => exact .inr ⟨rfl, .inl ⟨msg, here, room⟩⟩
  | insertsHead msg here room => exact .inr ⟨rfl, .inr ⟨msg, here⟩⟩
  | notifies pc here stays notified => exact .inl (Nat.le_of_eq notified.counts.2.1)
  | sets here notified => exact .inl (Nat.le_of_eq notified.counts.2.1)
  | swaps => exact .inl (Nat.zero_le _)
  | swapsFull => exact .inl (Nat.zero_le _)
  | _ => exact .inl (Nat.le_refl _)

end Changes

end WorkflowKernel.MsgQueue
