import WorkflowKernel.MsgQueue.Control
import WorkflowKernel.MsgQueue.Laws

/-!
# No wake-up is lost

A thread that waits although it need not is owed a notification: a parked getter by a put that has
stored its message and not notified yet, anyone parked by a `msgqueue_set_nonblock` that has stored
the flag and not notified yet. `Owed` says so, and each effect keeps it. One notification is enough
for the getters, because the one that waits holds `get_mutex` and there is no second.

## What is proved

- `Awaited.step`: every effect outside `msgqueue_put_head` keeps the debts.
- `no_lost_wakeup`: when nothing is left to run, a parked getter faces an empty blocking queue and
  a parked putter a full one.
-/

namespace WorkflowKernel.MsgQueue

open WorkflowKernel.Transition

variable {Tid : Type} [DecidableEq Tid]

/-- `msgqueue_put_head` is not called. -/
def HeadFree (_ : State Tid) : Label Tid → Prop
  | .call _ .putHead => False
  | _ => True

/-- The same condition, as a check that runs. -/
def headFreeB (_ : State Tid) : Label Tid → Bool
  | .call _ .putHead => false
  | _ => true

omit [DecidableEq Tid] in
theorem headFree_of_check (s : State Tid) (a : Label Tid) (h : headFreeB s a = true) :
    HeadFree s a := by
  cases a with
  | call t call =>
    cases call with
    | putHead => cases h
    | _ => trivial
  | step t woken => trivial
  | spurious t => trivial

/-! ## Debts -/

/-- Where a thread is parked in spite of `cause`, some thread is still to keep its promise. -/
def Owed (c : Control Tid) (parked : Pc → Bool) (cause : Prop) (promise : Pc → Bool) : Prop :=
  ∀ t, parked (c.pc t) = true → cause → ∃ u, promise (c.pc u) = true

section Debts

variable {c c' : Control Tid} {parked promise : Pc → Bool} {cause cause' : Prop} {t : Tid} {pc : Pc}

omit [DecidableEq Tid] in
theorem Owed.of_not (h : ¬ cause) : Owed c parked cause promise :=
  fun _ _ hcause => absurd hcause h

omit [DecidableEq Tid] in
theorem Owed.of_nobody (h : ∀ u, parked (c.pc u) = false) : Owed c parked cause promise := by
  intro u hu
  rw [h u] at hu
  cases hu

/-- One thread moves, and keeps its promise or gives a new one. -/
theorem Owed.move (h : Owed c parked cause promise) (hpc : c'.pc = Function.update c.pc t pc)
    (stays : parked pc = false)
    (keeps : cause' → (cause ∧ (promise (c.pc t) = true → promise pc = true)) ∨
      promise pc = true) : Owed c' parked cause' promise := by
  intro u hu hcause
  have hself : c'.pc t = pc := by rw [hpc, Function.update_self]
  have hne : u ≠ t := by
    rintro rfl
    rw [hself, stays] at hu
    cases hu
  rw [hpc, Function.update_of_ne hne] at hu
  obtain ⟨hold, hkeep⟩ | hnew := keeps hcause
  · obtain ⟨w, hw⟩ := h u hu hold
    by_cases hwt : w = t
    · subst hwt
      exact ⟨w, by rw [hself]; exact hkeep hw⟩
    · exact ⟨w, by rw [hpc, Function.update_of_ne hwt]; exact hw⟩
  · exact ⟨t, by rw [hself]; exact hnew⟩

omit [DecidableEq Tid] in
/-- Waking threads lifts debts and breaks no promise. -/
theorem Owed.wake (h : Owed c parked cause promise) (awake : ∀ pc : Pc, parked pc.wake = false)
    (same : ∀ pc : Pc, promise pc.wake = promise pc)
    (hpc : ∀ u, c'.pc u = c.pc u ∨ c'.pc u = (c.pc u).wake) : Owed c' parked cause promise := by
  intro u hu hcause
  have hold : c'.pc u = c.pc u := by
    obtain hsame | hwoken := hpc u
    · exact hsame
    · rw [hwoken, awake] at hu
      cases hu
  rw [hold] at hu
  obtain ⟨w, hw⟩ := h u hu hcause
  refine ⟨w, ?_⟩
  obtain hsame | hwoken := hpc w
  · rw [hsame]
    exact hw
  · rw [hwoken, same]
    exact hw

end Debts

theorem notifying_wake (pc : Pc) : pc.wake.notifying = pc.notifying := by
  cases pc <;> rfl

theorem setting_wake (pc : Pc) : pc.wake.setting = pc.setting := by
  cases pc <;> rfl

theorem inHead_wake (pc : Pc) : pc.wake.inHead = pc.inHead := by
  cases pc <;> rfl

section Getters

variable {c c' : Control Tid} {t : Tid} {pc : Pc}

/-- At most one thread waits on `get_cond`. -/
def OneGetter (c : Control Tid) : Prop :=
  ∀ t u, (c.pc t).parkedGet = true → (c.pc u).parkedGet = true → t = u

/-- One notification wakes the getter that waits. -/
theorem Notified.nobodyLeft (h : Notified c c') (hw : Waits c) (hone : OneGetter c) (u : Tid) :
    (c'.pc u).parkedGet = false := by
  rw [Bool.eq_false_iff]
  intro hu
  cases h with
  | nobody hempty =>
    rw [← hw.get, hempty] at hu
    cases hu
  | one w waits =>
    have hparked := (hw.get w).mp waits
    by_cases huw : u = w
    · subst huw
      simp [Control.wakeGet] at hu
    · simp only [Control.wakeGet, Function.update_of_ne huw] at hu
      exact huw (hone u w hu hparked)

/-- Notifying everyone leaves nobody on `put_cond`. -/
theorem wakeAllPut_nobody (hw : Waits c) (u : Tid) : (c.wakeAllPut.pc u).parkedPut = false := by
  have hwaits := hw.wakeAllPut.put u
  rw [Bool.eq_false_iff]
  intro hu
  rw [hu] at hwaits
  exact absurd (hwaits.mpr rfl) List.not_mem_nil

end Getters

/-! ## The invariant -/

/-- Whoever is parked is parked rightly or owed a notification. -/
structure Awaited (c : Control Tid) : Prop where
  waits : Waits c
  noHead : ∀ t, (c.pc t).inHead = false
  getCnt : Owed c Pc.parkedGet (0 < c.msgCnt) Pc.notifying
  getFlag : Owed c Pc.parkedGet (c.nonblock = true) Pc.setting
  putCnt : 1 ≤ c.msgMax → ∀ t, (c.pc t).parkedPut = true → c.msgMax ≤ c.msgCnt
  putFlag : Owed c Pc.parkedPut (c.nonblock = true) Pc.setting

omit [DecidableEq Tid] in
theorem awaited_create (maxlen : Nat) : Awaited (msgqueueCreate Tid maxlen).control where
  waits := waits_create maxlen
  noHead _ := rfl
  getCnt := Owed.of_nobody fun _ => rfl
  getFlag := Owed.of_nobody fun _ => rfl
  putCnt := by
    intro _ t ht
    cases ht
  putFlag := Owed.of_nobody fun _ => rfl

theorem sizePred_lt {n : Nat} (h : 1 ≤ n) : sizePred n < n := by
  obtain ⟨k, rfl⟩ := Nat.exists_eq_add_of_le h
  have hsum : 1 + k + (UInt64.size - 1) = k + UInt64.size := by
    simp only [UInt64.size]
    omega
  rw [sizePred, hsum, Nat.add_mod_right]
  have hle := Nat.mod_le k UInt64.size
  omega

section Step

variable {c c' : Control Tid} {t : Tid} {pc : Pc}

theorem noHead_update (h : ∀ u, (c.pc u).inHead = false) (hpc : c'.pc = Function.update c.pc t pc)
    (hhead : pc.inHead = false) (u : Tid) : (c'.pc u).inHead = false := by
  rw [hpc]
  by_cases hu : u = t
  · subst hu
    rw [Function.update_self, hhead]
  · rw [Function.update_of_ne hu, h]

omit [DecidableEq Tid] in
theorem noHead_woken (h : ∀ u, (c.pc u).inHead = false) (hw : Woken c c') (u : Tid) :
    (c'.pc u).inHead = false := by
  obtain hsame | hwoken := hw u
  · rw [hsame, h]
  · rw [hwoken, inHead_wake, h]

/-- A putter that is parked after a move was parked before. -/
theorem parkedPut_update (hpc : c'.pc = Function.update c.pc t pc) (stays : pc.parkedPut = false)
    {u : Tid} (hu : (c'.pc u).parkedPut = true) : (c.pc u).parkedPut = true := by
  rw [hpc] at hu
  by_cases hut : u = t
  · subst hut
    rw [Function.update_self, stays] at hu
    cases hu
  · rwa [Function.update_of_ne hut] at hu

/-- A move that keeps the counter and the flag. -/
theorem Awaited.move (h : Awaited c) (hw : Waits c') (hpc : c'.pc = Function.update c.pc t pc)
    (msgMax : c'.msgMax = c.msgMax) (msgCnt : c'.msgCnt = c.msgCnt)
    (nonblock : c'.nonblock = c.nonblock) (stays : pc.parkedGet = false ∧ pc.parkedPut = false)
    (hhead : pc.inHead = false) (notifying : (c.pc t).notifying = true → pc.notifying = true)
    (setting : (c.pc t).setting = true → pc.setting = true) : Awaited c' where
  waits := hw
  noHead := noHead_update h.noHead hpc hhead
  getCnt := by
    rw [msgCnt]
    exact h.getCnt.move hpc stays.1 fun hcause => .inl ⟨hcause, notifying⟩
  getFlag := by
    rw [nonblock]
    exact h.getFlag.move hpc stays.1 fun hcause => .inl ⟨hcause, setting⟩
  putCnt := by
    rw [msgMax, msgCnt]
    exact fun hmax u hu => h.putCnt hmax u (parkedPut_update hpc stays.2 hu)
  putFlag := by
    rw [nonblock]
    exact h.putFlag.move hpc stays.2 fun hcause => .inl ⟨hcause, setting⟩

omit [DecidableEq Tid] in
/-- Waking threads. -/
theorem Awaited.wake (h : Awaited c) (hw : Waits c') (woken : Woken c c')
    (msgMax : c'.msgMax = c.msgMax) (msgCnt : c'.msgCnt = c.msgCnt)
    (nonblock : c'.nonblock = c.nonblock) : Awaited c' where
  waits := hw
  noHead := noHead_woken h.noHead woken
  getCnt := by
    rw [msgCnt]
    exact h.getCnt.wake parkedGet_wake notifying_wake woken
  getFlag := by
    rw [nonblock]
    exact h.getFlag.wake parkedGet_wake setting_wake woken
  putCnt := by
    rw [msgMax, msgCnt]
    intro hmax u hu
    obtain hsame | hwoken := woken u
    · rw [hsame] at hu
      exact h.putCnt hmax u hu
    · rw [hwoken, parkedPut_wake] at hu
      cases hu
  putFlag := by
    rw [nonblock]
    exact h.putFlag.wake parkedPut_wake setting_wake woken

/-- A thread enters an operation other than `msgqueue_put_head`. -/
theorem Awaited.enters (h : Awaited c) {call : Call} {fresh : Msg} (idle : c.pc t = .idle)
    (hfree : (call.start fresh).inHead = false)
    (hw : Waits (c.goto t (call.start fresh))) :
    Awaited (c.goto t (call.start fresh)) := by
  refine h.move hw rfl rfl rfl rfl ?_ hfree ?_ ?_
  · cases call <;> exact ⟨rfl, rfl⟩
  · rw [idle]
    intro hfalse
    cases hfalse
  · rw [idle]
    intro hfalse
    cases hfalse

/-- A move to a place that owes as much. -/
theorem Awaited.goes (h : Awaited c) (calm : Calm (c.pc t) pc)
    (hw : Waits (c.goto t pc)) :
    Awaited (c.goto t pc) := by
  have hhead : pc.inHead = false := by
    rw [Bool.eq_false_iff]
    intro hpc
    have hin := calm.inHead hpc
    rw [h.noHead] at hin
    cases hin
  exact h.move hw rfl rfl rfl rfl calm.stays hhead calm.notifying calm.setting

/-- A put stores its message and is now to notify. -/
theorem Awaited.inserts (h : Awaited c) {msg : Msg} (here : c.pc t = .putBody msg)
    (hw : Waits ((c.setCnt (c.msgCnt + 1)).goto t (.putUnlock msg))) :
    Awaited ((c.setCnt (c.msgCnt + 1)).goto t (.putUnlock msg)) := by
  refine ⟨hw, noHead_update h.noHead rfl rfl, ?_, ?_, ?_, ?_⟩
  · exact h.getCnt.move rfl rfl fun _ => .inr rfl
  · refine h.getFlag.move rfl rfl fun hcause => .inl ⟨hcause, ?_⟩
    rw [here]
    exact id
  · intro hmax u hu
    exact Nat.le_succ_of_le (h.putCnt hmax u (parkedPut_update rfl rfl hu))
  · refine h.putFlag.move rfl rfl fun hcause => .inl ⟨hcause, ?_⟩
    rw [here]
    exact id

/-- A put parks at a full queue. -/
theorem Awaited.parksPut (h : Awaited c) {msg : Msg} (here : c.pc t = .putBody msg)
    (full : c.msgCnt = c.msgMax ∧ c.nonblock = false)
    (hw : Waits ({ c with putCond := c.putCond ++ [t] }.goto t (.putParked msg))) :
    Awaited ({ c with putCond := c.putCond ++ [t] }.goto t (.putParked msg)) := by
  refine ⟨hw, noHead_update h.noHead rfl rfl, ?_, ?_, ?_, ?_⟩
  · refine h.getCnt.move rfl rfl fun hcause => .inl ⟨hcause, ?_⟩
    rw [here]
    exact id
  · exact Owed.of_not (by rw [full.2]; exact Bool.false_ne_true)
  · intro _ _ _
    exact Nat.le_of_eq full.1.symm
  · exact Owed.of_not (by rw [full.2]; exact Bool.false_ne_true)

/-- A get parks at an empty queue. -/
theorem Awaited.parksGet (h : Awaited c) {getHead : Addr} (empty : c.msgCnt = 0 ∧ c.nonblock = false)
    (hw : Waits ({ c with getCond := c.getCond ++ [t] }.goto t (.swapParked getHead))) :
    Awaited ({ c with getCond := c.getCond ++ [t] }.goto t (.swapParked getHead)) := by
  refine ⟨hw, noHead_update h.noHead rfl rfl, ?_, ?_, ?_, ?_⟩
  · exact Owed.of_not (by rw [empty.1]; exact Nat.lt_irrefl 0)
  · exact Owed.of_not (by rw [empty.2]; exact Bool.false_ne_true)
  · exact fun hmax u hu => h.putCnt hmax u (parkedPut_update rfl rfl hu)
  · exact Owed.of_not (by rw [empty.2]; exact Bool.false_ne_true)

/-- A swap that finds room has nobody to notify. -/
theorem Awaited.swaps (h : Awaited c) {getHead : Addr} (here : c.pc t = .swapBody getHead)
    (room : c.msgCnt ≤ sizePred c.msgMax)
    (hw : Waits ((c.setCnt 0).goto t (.swapUnlock c.msgCnt))) :
    Awaited ((c.setCnt 0).goto t (.swapUnlock c.msgCnt)) := by
  refine ⟨hw, noHead_update h.noHead rfl rfl, ?_, ?_, ?_, ?_⟩
  · exact Owed.of_not (Nat.lt_irrefl 0)
  · refine h.getFlag.move rfl rfl fun hcause => .inl ⟨hcause, ?_⟩
    rw [here]
    exact id
  · -- the buffer was not full, so nobody waits for room
    intro hmax u hu
    have hfull := h.putCnt hmax u (parkedPut_update rfl rfl hu)
    exact absurd (Nat.le_trans hfull room) (Nat.not_le.mpr (sizePred_lt hmax))
  · refine h.putFlag.move rfl rfl fun hcause => .inl ⟨hcause, ?_⟩
    rw [here]
    exact id

/-- A swap of a full queue wakes all putters. -/
theorem Awaited.swapsFull (h : Awaited c) {getHead : Addr} (here : c.pc t = .swapBody getHead)
    (hw : Waits ((c.wakeAllPut.setCnt 0).goto t (.swapUnlock c.msgCnt))) :
    Awaited ((c.wakeAllPut.setCnt 0).goto t (.swapUnlock c.msgCnt)) := by
  have hnobody : ∀ u, (((c.wakeAllPut.setCnt 0).goto t (.swapUnlock c.msgCnt)).pc u).parkedPut =
      false := by
    intro u
    rw [Bool.eq_false_iff]
    intro hu
    have hold := parkedPut_update (c := c.wakeAllPut) rfl rfl hu
    rw [wakeAllPut_nobody h.waits] at hold
    cases hold
  have hwoken := woken_wakeAllPut c
  have hpc : c.wakeAllPut.pc t = .swapBody getHead := by
    rw [c.wakeAllPut_pc, here]
    rw [h.waits.put, here]
    exact Bool.false_ne_true
  refine ⟨hw, noHead_update (noHead_woken h.noHead hwoken) rfl rfl, ?_, ?_, ?_, ?_⟩
  · exact Owed.of_not (Nat.lt_irrefl 0)
  · refine (h.getFlag.wake parkedGet_wake setting_wake hwoken).move rfl rfl
      fun hcause => .inl ⟨hcause, ?_⟩
    rw [hpc]
    exact id
  · intro _ u hu
    rw [hnobody u] at hu
    cases hu
  · exact Owed.of_nobody hnobody

/-- A put keeps its promise to the getter, who is the only one. -/
theorem Awaited.notifies (h : Awaited c) (hone : OneGetter c)
    (here : (c.pc t).notifying = true) (stays : pc.parkedGet = false ∧ pc.parkedPut = false)
    (notified : Notified c c') (head : pc.inHead = true → (c.pc t).inHead = true)
    (hw : Waits (c'.goto t pc)) :
    Awaited (c'.goto t pc) := by
  obtain ⟨hmax', hcnt', hflag'⟩ := notified.counts
  have hleft := notified.nobodyLeft h.waits hone
  have hpc := notified.pc_eq (awake_of_notifying here).1 h.waits
  have hwoken := h.wake (h.waits.notified notified) notified.woken hmax' hcnt' hflag'
  have hhead : pc.inHead = false := by
    rw [Bool.eq_false_iff]
    intro hin
    have hold := head hin
    rw [h.noHead] at hold
    cases hold
  have hset : (c'.pc t).setting = true → pc.setting = true := by
    rw [hpc]
    intro hsetting
    cases hct : c.pc t with
    | nonblockLock | nonblockNotify =>
      rw [hct] at here
      cases here
    | _ =>
      rw [hct] at hsetting
      cases hsetting
  refine ⟨hw, noHead_update hwoken.noHead rfl hhead, ?_, ?_, ?_, ?_⟩
  · apply Owed.of_nobody
    intro u
    by_cases hu : u = t
    · subst hu
      simp only [Control.goto, Function.update_self, stays.1]
    · simp only [Control.goto, Function.update_of_ne hu, hleft]
  · exact hwoken.getFlag.move rfl stays.1 fun hcause => .inl ⟨hcause, hset⟩
  · exact fun hmax u hu => hwoken.putCnt hmax u (parkedPut_update rfl stays.2 hu)
  · exact hwoken.putFlag.move rfl stays.2 fun hcause => .inl ⟨hcause, hset⟩

/-- `msgqueue_set_nonblock` keeps its promise to everyone. -/
theorem Awaited.sets (h : Awaited c) (hone : OneGetter c) (notified : Notified c c')
    (hw : Waits (c'.wakeAllPut.goto t .nonblockUnlock)) :
    Awaited (c'.wakeAllPut.goto t .nonblockUnlock) := by
  have hwaits := h.waits.notified notified
  have hget : ∀ u, ((c'.wakeAllPut.goto t .nonblockUnlock).pc u).parkedGet = false := by
    intro u
    by_cases hu : u = t
    · subst hu
      simp only [Control.goto, Function.update_self, Pc.parkedGet]
    · simp only [Control.goto, Function.update_of_ne hu]
      obtain hsame | hwoken := woken_wakeAllPut c' u
      · rw [hsame, notified.nobodyLeft h.waits hone]
      · rw [hwoken, parkedGet_wake]
  have hput : ∀ u, ((c'.wakeAllPut.goto t .nonblockUnlock).pc u).parkedPut = false := by
    intro u
    rw [Bool.eq_false_iff]
    intro hu
    have hold := parkedPut_update (c := c'.wakeAllPut) rfl rfl hu
    rw [wakeAllPut_nobody hwaits] at hold
    cases hold
  refine ⟨hw, ?_, Owed.of_nobody hget, Owed.of_nobody hget, ?_, Owed.of_nobody hput⟩
  · exact noHead_update (noHead_woken (noHead_woken h.noHead notified.woken)
      (woken_wakeAllPut c')) rfl rfl
  · intro _ u hu
    rw [hput u] at hu
    cases hu

/-- The flag is stored, and its thread is to notify. -/
theorem Awaited.stores (h : Awaited c) (here : c.pc t = .nonblockStore)
    (hw : Waits ({ c with nonblock := true }.goto t .nonblockLock)) :
    Awaited ({ c with nonblock := true }.goto t .nonblockLock) := by
  refine ⟨hw, noHead_update h.noHead rfl rfl, ?_, ?_, ?_, ?_⟩
  · refine h.getCnt.move rfl rfl fun hcause => .inl ⟨hcause, ?_⟩
    rw [here]
    exact id
  · exact h.getFlag.move rfl rfl fun _ => .inr rfl
  · exact fun hmax u hu => h.putCnt hmax u (parkedPut_update rfl rfl hu)
  · exact h.putFlag.move rfl rfl fun _ => .inr rfl

/-- The flag is cleared. -/
theorem Awaited.clears (h : Awaited c) (here : c.pc t = .blockStore)
    (hw : Waits ({ c with nonblock := false }.goto t .idle)) :
    Awaited ({ c with nonblock := false }.goto t .idle) := by
  refine ⟨hw, noHead_update h.noHead rfl rfl, ?_, ?_, ?_, ?_⟩
  · refine h.getCnt.move rfl rfl fun hcause => .inl ⟨hcause, ?_⟩
    rw [here]
    exact id
  · exact Owed.of_not Bool.false_ne_true
  · exact fun hmax u hu => h.putCnt hmax u (parkedPut_update rfl rfl hu)
  · exact Owed.of_not Bool.false_ne_true

/-- Each effect outside `msgqueue_put_head` keeps the debts. -/
theorem Awaited.step (h : Awaited c) (hone : OneGetter c) (he : Effect c t c')
    (hfree : c.pc t = .idle → (c'.pc t).inHead = false) : Awaited c' := by
  have hw := h.waits.step he
  have hnot : ∀ {msg : Msg}, c.pc t ≠ .headBody msg := fun here => by
    have hin := h.noHead t
    rw [here] at hin
    cases hin
  cases he with
  | enters call fresh idle =>
    have hin := hfree idle
    simp only [Control.goto, Function.update_self] at hin
    exact h.enters idle hin hw
  | goes pc calm => exact h.goes calm hw
  | inserts msg here room => exact h.inserts here hw
  | parksPut msg here full => exact h.parksPut here full hw
  | insertsHead msg here room => exact absurd here hnot
  | parksHead msg here full => exact absurd here hnot
  | parksGet getHead here empty => exact h.parksGet empty hw
  | swaps getHead here found room => exact h.swaps here room hw
  | swapsFull getHead here => exact h.swapsFull here hw
  | notifies pc here stays notified after head => exact h.notifies hone here stays notified head hw
  | sets here notified => exact h.sets hone notified hw
  | stores here => exact h.stores here hw
  | clears here => exact h.clears here hw
  | wakesGet waits => exact h.wake hw (woken_wakeGet c t) rfl rfl rfl
  | wakesPut waits => exact h.wake hw (woken_wakePut c t) rfl rfl rfl

end Step

/-! ## Every run -/

section Runs

variable {s s' : State Tid}

/-- Only a call of `msgqueue_put_head` brings a thread into it. -/
theorem inHead_of_idle {a : Label Tid} (hfree : HeadFree s a) (h : step s a = some s')
    (idle : s.pc a.thread = .idle) : (s'.pc a.thread).inHead = false := by
  obtain ⟨call, ha, hpc⟩ | hpc := step_of_idle h idle
  · rw [hpc]
    cases call with
    | putHead =>
      rw [ha] at hfree
      exact hfree.elim
    | _ => rfl
  · rw [hpc]
    rfl

omit [DecidableEq Tid] in
/-- The parked getter holds `get_mutex`. -/
theorem Inv.oneGetter {gl pl : List Msg} (hi : Inv s gl pl) : OneGetter s.control := by
  have hheld : ∀ t, (s.pc t).parkedGet = true → s.getMutex = some t := by
    intro t ht
    apply (hi.threads t).get
    cases hpc : s.pc t with
    | swapParked getHead => rfl
    | _ =>
      rw [hpc] at ht
      cases ht
  intro t u ht hu
  exact Option.some.inj ((hheld t ht).symm.trans (hheld u hu))

omit [DecidableEq Tid] in
/-- Without head puts no `try_lock` is made. -/
theorem guarded_of_noHead {a : Label Tid} (h : ∀ t, (s.pc t).inHead = false) : Guarded s a := by
  cases a with
  | step t woken =>
    intro msg hpc
    have hin := h t
    rw [hpc] at hin
    cases hin
  | call | spurious => trivial

theorem inductive_awaited : InductiveInvariant (system Tid) HeadFree
    fun s => Awaited s.control ∧ ∃ gl pl, Inv s gl pl where
  init := by
    rintro s ⟨maxlen, rfl⟩
    exact ⟨awaited_create maxlen, [], [], inv_create maxlen⟩
  step := by
    rintro s a s' ⟨hawaited, gl, pl, hi⟩ hfree hstep
    have hguarded : Guarded s a := guarded_of_noHead hawaited.noHead
    refine ⟨?_, inv_step hi hguarded hstep⟩
    exact hawaited.step hi.oneGetter (effect_of_step hstep) (inHead_of_idle hfree hstep)

end Runs

/-! ## The law -/

omit [DecidableEq Tid] in
/-- Nothing is left to run: each thread is outside the operations, parked, or waiting for the
`get_mutex` of a parked getter. -/
def Settled (s : State Tid) : Prop :=
  ∀ t, s.pc t = .idle ∨ (s.pc t).parkedGet = true ∨ (s.pc t).parkedPut = true ∨
    (s.pc t = .getLock ∧ s.getMutex.any fun u => (s.pc u).parkedGet)

instance {n : Nat} (s : State (Fin n)) : Decidable (Settled s) :=
  Nat.decidableForallFin _

omit [DecidableEq Tid] in
/-- In a settled state nobody is about to notify. -/
theorem Settled.noPromise {s : State Tid} (h : Settled s) (t : Tid) :
    (s.pc t).notifying = false ∧ (s.pc t).setting = false := by
  obtain hpc | hpc | hpc | ⟨hpc, -⟩ := h t
  · rw [hpc]
    exact ⟨rfl, rfl⟩
  · cases hst : s.pc t with
    | swapParked => exact ⟨rfl, rfl⟩
    | _ =>
      rw [hst] at hpc
      cases hpc
  · cases hst : s.pc t with
    | putParked | headParked => exact ⟨rfl, rfl⟩
    | _ =>
      rw [hst] at hpc
      cases hpc
  · rw [hpc]
    exact ⟨rfl, rfl⟩

/-- When nothing is left to run, whoever is parked is parked rightly. `msg_max` is the bound that
the queue was created with. -/
theorem no_lost_wakeup {s : State Tid} (h : (system Tid).Reaches HeadFree s) (hmax : 1 ≤ s.msgMax)
    (hsettled : Settled s) :
    (∀ t, (s.pc t).parkedGet = true → s.msgCnt = 0 ∧ s.nonblock = false) ∧
      ∀ t, (s.pc t).parkedPut = true → s.msgMax ≤ s.msgCnt ∧ s.nonblock = false := by
  obtain ⟨hawaited, -⟩ := inductive_awaited.holds h
  have hflag : ∀ {parked : Pc → Bool} {t : Tid}, parked (s.pc t) = true →
      Owed s.control parked (s.nonblock = true) Pc.setting → s.nonblock = false := by
    intro parked t ht howed
    rw [← Bool.not_eq_true]
    intro hset
    obtain ⟨u, hu⟩ := howed t ht hset
    have hnone := (hsettled.noPromise u).2
    change (s.pc u).setting = true at hu
    rw [hnone] at hu
    cases hu
  constructor
  · intro t ht
    refine ⟨Nat.eq_zero_of_not_pos ?_, hflag ht hawaited.getFlag⟩
    intro hcnt
    obtain ⟨u, hu⟩ := hawaited.getCnt t ht hcnt
    have hnone := (hsettled.noPromise u).1
    change (s.pc u).notifying = true at hu
    rw [hnone] at hu
    cases hu
  · intro t ht
    exact ⟨hawaited.putCnt hmax t ht, hflag ht hawaited.putFlag⟩

/-- One getter waits in an empty queue, and a second one for its mutex; the flag was set and cleared
again before. -/
def parkedGetterRun : List (Label (Fin 2)) :=
  [.call 0 .setNonblock] ++ List.replicate 4 (.step 0 none) ++ [.call 0 .setBlock, .step 0 none,
    .call 0 .get] ++ List.replicate 4 (.step 0 none) ++ [.call 1 .get]

/-- The flag was set and cleared as well; one put fills the queue and the other waits, although it
was woken once without a notification. -/
def parkedPutterRun : List (Label (Fin 2)) :=
  [.call 0 .setNonblock] ++ List.replicate 4 (.step 0 none) ++ [.call 0 .setBlock, .step 0 none,
    .call 0 .put] ++ List.replicate 4 (.step 0 none) ++ [.call 1 .put] ++
    List.replicate 2 (.step 1 none) ++ [.spurious 1] ++ List.replicate 2 (.step 1 none)

theorem no_lost_wakeup_run :
    (∃ s, (system (Fin 2)).Reaches HeadFree s ∧
      (s.pc 0).parkedGet = true ∧ s.msgCnt = 0 ∧ s.nonblock = false) ∧
    ∃ s, (system (Fin 2)).Reaches HeadFree s ∧
      (s.pc 1).parkedPut = true ∧ s.msgMax ≤ s.msgCnt ∧ s.nonblock = false := by
  have hget : ((system (Fin 2)).runIf headFreeB (msgqueueCreate (Fin 2) 4) parkedGetterRun).map
      (fun s => (s.msgMax, (s.pc 0).parkedGet, decide (Settled s))) = some (4, true, true) := by
    decide +kernel
  have hput : ((system (Fin 2)).runIf headFreeB (msgqueueCreate (Fin 2) 1) parkedPutterRun).map
      (fun s => (s.msgMax, (s.pc 1).parkedPut, decide (Settled s))) = some (1, true, true) := by
    decide +kernel
  obtain ⟨s, hs, hlog⟩ := Option.map_eq_some_iff.mp hget
  obtain ⟨u, hu, hlog'⟩ := Option.map_eq_some_iff.mp hput
  simp only [Prod.mk.injEq, decide_eq_true_eq] at hlog hlog'
  obtain ⟨hmax, hparked, hsettled⟩ := hlog
  obtain ⟨hmax', hparked', hsettled'⟩ := hlog'
  have hreach := System.reaches_of_runIf (M := system (Fin 2)) headFree_of_check ⟨4, rfl⟩ hs
  have hreach' := System.reaches_of_runIf (M := system (Fin 2)) headFree_of_check ⟨1, rfl⟩ hu
  have hlaw := no_lost_wakeup hreach (by omega) hsettled
  have hlaw' := no_lost_wakeup hreach' (by omega) hsettled'
  exact ⟨⟨s, hreach, hparked, hlaw.1 0 hparked⟩, u, hreach', hparked', hlaw'.2 1 hparked'⟩

end WorkflowKernel.MsgQueue
