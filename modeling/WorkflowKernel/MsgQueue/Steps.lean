import WorkflowKernel.MsgQueue.Invariant

/-!
# The steps of the queue keep the invariant

The edits of the two buffers first, then one lemma for each function of the source.
-/

namespace WorkflowKernel.MsgQueue

open WorkflowKernel.Transition
open WorkflowKernel.Lib

variable {Tid : Type}

/-! ## The edits -/

/-- A buffered message's link is no store target of a thread whose message is outside. -/
theorem Buffers.storeLink {s : State Tid} {gl pl : List Msg} {m : Msg} {v : Option Msg}
    (hb : Buffers s gl pl) (hg : m ∉ gl) (hp : m ∉ pl) :
    Buffers { s with mem := Function.update s.mem (.link m) v } gl pl where
  heads := hb.heads
  getCell := hb.getCell
  putCell := hb.putCell
  getChain := hb.getChain.frame (hb.getCell m) fun _ hx he => hg (link_injective he ▸ hx)
  putChain := hb.putChain.frame (hb.putCell m) fun _ hx he => hp (link_injective he ▸ hx)
  tail := hb.tail
  cnt := hb.cnt

/-- The end of the put buffer is not a cell of the get buffer. -/
theorem Buffers.tail_ne {s : State Tid} {gl pl : List Msg} (hb : Buffers s gl pl)
    (hnd : (gl ++ pl).Nodup) :
    s.getHead ≠ s.putTail ∧ ∀ x ∈ gl, Addr.link x ≠ s.putTail := by
  rw [hb.tail]
  rcases endCell_mem Addr.link s.putHead pl with he | ⟨y, hy, he⟩
  · rw [he]
    exact ⟨hb.heads, fun x _ h => hb.putCell x h.symm⟩
  · rw [he]
    refine ⟨hb.getCell y, fun x hx h => ?_⟩
    exact (List.disjoint_of_nodup_append hnd) hx (link_injective h ▸ hy)

/-- `msg_queue_put` appends. -/
theorem Buffers.append {s : State Tid} {gl pl : List Msg} {m : Msg} (hb : Buffers s gl pl)
    (hnd : (gl ++ pl).Nodup) (hm : m ∉ gl ++ pl) (hnull : s.mem (.link m) = none) :
    Buffers { s with
      mem := Function.update s.mem s.putTail (some m)
      putTail := .link m
      msgCnt := s.msgCnt + 1 } gl (pl ++ [m]) where
  heads := hb.heads
  getCell := hb.getCell
  putCell := hb.putCell
  getChain := hb.getChain.frame (hb.tail_ne hnd).1 (hb.tail_ne hnd).2
  putChain := by
    simp only [hb.tail]
    exact hb.putChain.push_back link_injective hnull (fun h => hm (List.mem_append_right _ h))
      (List.Nodup.of_append_right hnd) fun y _ => hb.putCell y
  tail := by simp only [endCell_append]
  cnt := by simp [hb.cnt]

/-- `msgqueue_put_head` prepends to the get buffer. -/
theorem Buffers.pushGet {s : State Tid} {gl pl : List Msg} {m : Msg} (hb : Buffers s gl pl)
    (hlink : s.mem (.link m) = gl.head?) :
    Buffers { s with mem := Function.update s.mem s.getHead (some m) } (m :: gl) pl where
  heads := hb.heads
  getCell := hb.getCell
  putCell := hb.putCell
  getChain := hb.getChain.push_front hlink (hb.getCell m).symm fun y _ => (hb.getCell y).symm
  putChain := hb.putChain.frame hb.heads.symm fun y _ => (hb.getCell y).symm
  tail := hb.tail
  cnt := hb.cnt

/-- `msgqueue_put_head` prepends to the put buffer, and moves the tail when that was empty. -/
theorem Buffers.pushPut {s : State Tid} {gl pl : List Msg} {m : Msg} (hb : Buffers s gl pl)
    (hlink : s.mem (.link m) = pl.head?) :
    Buffers { s with
      putTail := if s.mem (.link m) = none then .link m else s.putTail
      mem := Function.update s.mem s.putHead (some m)
      msgCnt := s.msgCnt + 1 } gl (m :: pl) where
  heads := hb.heads
  getCell := hb.getCell
  putCell := hb.putCell
  getChain := hb.getChain.frame hb.heads fun y _ => (hb.putCell y).symm
  putChain := hb.putChain.push_front hlink (hb.putCell m).symm fun y _ => (hb.putCell y).symm
  tail := by
    rw [hlink, hb.tail]
    cases pl <;> simp [endCell]
  cnt := by simp [hb.cnt]

/-- `__msgqueue_swap` exchanges the buffers when the get buffer is empty. -/
theorem Buffers.swap {s : State Tid} {pl : List Msg} (hb : Buffers s [] pl) :
    Buffers { s with
      getHead := s.putHead
      putHead := s.getHead
      putTail := s.getHead
      msgCnt := 0 } pl [] where
  heads := hb.heads.symm
  getCell := hb.putCell
  putCell := hb.getCell
  getChain := hb.putChain
  putChain := hb.getChain
  tail := rfl
  cnt := rfl

/-- `msgqueue_get` pops. -/
theorem Buffers.pop {s : State Tid} {gl pl : List Msg} {m : Msg} (hb : Buffers s (m :: gl) pl) :
    Buffers { s with mem := Function.update s.mem s.getHead gl.head? } gl pl where
  heads := hb.heads
  getCell := hb.getCell
  putCell := hb.putCell
  getChain := hb.getChain.pop fun y _ => (hb.getCell y).symm
  putChain := hb.putChain.frame hb.heads.symm fun y _ => (hb.getCell y).symm
  tail := hb.tail
  cnt := hb.cnt

/-- A step of `t` that puts the message in `new`, if any, in a buffer and moves the others among
the buffers and the gets. What the other threads know is given by `others`. -/
theorem Inv.data [DecidableEq Tid] {s s' : State Tid} {gl pl gl' pl' : List Msg}
    (hi : Inv s gl pl) (t : Tid) (new : List Msg) (pc : Pc) (buffers : Buffers s' gl' pl')
    (perm : (s'.all gl' pl').Perm (new ++ s.all gl pl))
    (single : new.Nodup) (mine : ∀ m ∈ new, (s.pc t).pending = some m)
    (fresh : s'.fresh = s.fresh) (done : s'.completed = s.completed)
    (put : s'.putMutex = s.putMutex) (get : s'.getMutex = s.getMutex)
    (guarded : ∀ w ∈ s'.headWrites, w ∈ s.headWrites ∨ w = (t, s.getMutex) ∧ s.getMutex = some t)
    (hpc : s'.pc = Function.update s.pc t pc) (settled : pc.pending = none)
    (inserted : ∀ m, pc.inserted = some m → m ∈ new)
    (holdsPut : pc.holdsPut = true → s.putMutex = some t)
    (holdsGet : pc.holdsGet = true → s.getMutex = some t)
    (here : Local s' gl' pc)
    (others : ∀ u, u ≠ t → Local s gl (s.pc u) → Local s' gl' (s.pc u)) : Inv s' gl' pl' := by
  have hmem : ∀ m, m ∈ s'.all gl' pl' ↔ m ∈ new ∨ m ∈ s.all gl pl := fun m => by
    rw [perm.mem_iff, List.mem_append]
  have hnew : ∀ m ∈ new, m < s.fresh ∧ m ∉ s.all gl pl := fun m hm =>
    (hi.threads t).pending m (mine m hm)
  have hold : ∀ u m, (s'.pc u).pending = some m → u ≠ t ∧ (s.pc u).pending = some m := by
    intro u m hm
    by_cases hu : u = t
    · subst hu
      rw [hpc, Function.update_self, settled] at hm
      cases hm
    · rw [hpc, Function.update_of_ne hu] at hm
      exact ⟨hu, hm⟩
  constructor
  · exact buffers
  · refine perm.nodup_iff.mpr (List.nodup_append'.mpr ⟨single, hi.nodup, fun m hm => ?_⟩)
    exact (hnew m hm).2
  · intro m hm
    rw [fresh]
    rcases (hmem m).mp hm with hm | hm
    · exact (hnew m hm).1
    · exact hi.old m hm
  · intro m hm
    rw [done] at hm
    exact (hmem m).mpr (.inr (hi.completed m hm))
  · intro w hw
    rcases guarded w hw with hw | ⟨rfl, howner⟩
    · exact hi.guarded w hw
    · exact howner
  · intro u
    by_cases hu : u = t
    · subst hu
      rw [hpc, Function.update_self]
      refine ⟨fun m hm => absurd (settled.symm.trans hm) (by simp),
        fun m hm => (hmem m).mpr (.inl (inserted m hm)), ?_, ?_, here⟩
      · rw [put]; exact holdsPut
      · rw [get]; exact holdsGet
    · rw [hpc, Function.update_of_ne hu]
      have hthread := hi.threads u
      refine ⟨fun m hm => ⟨by rw [fresh]; exact (hthread.pending m hm).1, fun hin => ?_⟩,
        fun m hm => (hmem m).mpr (.inr (hthread.inserted m hm)), ?_, ?_, others u hu hthread.here⟩
      · rcases (hmem m).mp hin with hin | hin
        · exact hu (hi.apart u t m hm (mine m hin))
        · exact (hthread.pending m hm).2 hin
      · rw [put]; exact hthread.put
      · rw [get]; exact hthread.get
  · intro u v m hu hv
    exact hi.apart u v m (hold u m hu).2 (hold v m hv).2

/-! ## The moves between them -/

section Bookkeeping

variable {s : State Tid} {gl pl : List Msg} {t : Tid}

/-- The put of an inserted message returns. -/
theorem Inv.complete {m : Msg} (hi : Inv s gl pl) (hm : (s.pc t).inserted = some m) :
    Inv { s with completed := s.completed ++ [m] } gl pl := by
  refine hi.of_sameData (by constructor <;> rfl) ?_ (fun u => ?_) hi.apart
  · intro x hx
    rcases List.mem_append.mp hx with hx | hx
    · exact hi.completed x hx
    · rw [List.mem_singleton.mp hx]
      exact (hi.threads t).inserted m hm
  · exact (hi.threads u).of_sameData (by constructor <;> rfl) id id

/-- A thread joins a wait list, which the invariant does not read. -/
theorem Inv.waits (hi : Inv s gl pl) (getCond putCond : List Tid) :
    Inv { s with getCond := getCond, putCond := putCond } gl pl :=
  hi.woken (by constructor <;> rfl) rfl rfl rfl fun _ => .inl rfl

/-- What a get returns, which the invariant does not read. -/
theorem Inv.returns (hi : Inv s gl pl) (returned : List (Tid × Option Msg)) :
    Inv { s with returned := returned } gl pl :=
  hi.woken (by constructor <;> rfl) rfl rfl rfl fun _ => .inl rfl

/-- The flag, which the invariant does not read. -/
theorem Inv.flag (hi : Inv s gl pl) (nonblock : Bool) :
    Inv { s with nonblock := nonblock } gl pl :=
  hi.woken (by constructor <;> rfl) rfl rfl rfl fun _ => .inl rfl

/-- The link word of a message on its way in is no cell of the put buffer. -/
theorem Inv.pending_ne_tail {m : Msg} (hi : Inv s gl pl)
    (hm : (s.pc t).pending = some m) : Addr.link m ≠ s.putTail := by
  rw [hi.buffers.tail]
  rcases endCell_mem Addr.link s.putHead pl with he | ⟨y, hy, he⟩
  · rw [he]
    exact (hi.buffers.putCell m).symm
  · rw [he]
    intro h
    obtain rfl : m = y := link_injective h
    refine ((hi.threads t).pending m hm).2 ?_
    exact List.mem_append_left _ (List.mem_append_right _ hy)

end Bookkeeping

variable [DecidableEq Tid]

/-- The counter `pc` asks nothing of `t` that it does not have already, `put_mutex` apart. -/
structure Moves (s : State Tid) (gl : List Msg) (t : Tid) (pc : Pc) : Prop where
  pending : ∀ m, pc.pending = some m → (s.pc t).pending = some m
  inserted : ∀ m, pc.inserted = some m → (s.pc t).inserted = some m
  get : pc.holdsGet = true → s.getMutex = some t
  here : Local s gl pc

section Moves

variable {s s' : State Tid} {gl pl : List Msg} {t : Tid} {pc : Pc}

theorem Inv.goto (hi : Inv s gl pl) (mv : Moves s gl t pc)
    (put : pc.holdsPut = true → s.putMutex = some t) : Inv (s.goto t pc) gl pl :=
  hi.control (by constructor <;> rfl) rfl (fun _ hm => .inl hm) mv.pending (fun _ _ => id)
    (fun _ _ => id) mv.inserted put mv.get mv.here

theorem Inv.lockPut (hi : Inv s gl pl) (mv : Moves s gl t pc) (h : s.lockPut t pc = some s') :
    Inv s' gl pl := by
  simp only [State.lockPut] at h
  split at h
  · next hfree =>
    cases h
    exact hi.control (by constructor <;> rfl) rfl (fun _ hm => .inl hm) mv.pending
      (fun u _ hu => absurd (hfree.symm.trans hu) (by simp)) (fun _ _ => id) mv.inserted
      (fun _ => rfl) mv.get mv.here
  · cases h

theorem Inv.unlockPut (hi : Inv s gl pl) (mv : Moves s gl t pc) (held : s.putMutex = some t)
    (free : pc.holdsPut = false) : Inv (s.unlockPut t pc) gl pl :=
  hi.control (by constructor <;> rfl) rfl (fun _ hm => .inl hm) mv.pending
    (fun _ hne hu => absurd (Option.some.inj (held.symm.trans hu)).symm hne) (fun _ _ => id)
    mv.inserted (fun h => absurd h (by simp [free])) mv.get mv.here

theorem Inv.lockGet (hi : Inv s gl pl) (free : s.getMutex = none)
    (mv : Moves { s with getMutex := some t } gl t pc)
    (put : pc.holdsPut = true → s.putMutex = some t) :
    Inv ({ s with getMutex := some t }.goto t pc) gl pl :=
  hi.control (by constructor <;> rfl) rfl (fun _ hm => .inl hm) mv.pending (fun _ _ => id)
    (fun _ _ hu => absurd (free.symm.trans hu) (by simp)) mv.inserted put mv.get mv.here

theorem Inv.unlockGet (hi : Inv s gl pl) (held : s.getMutex = some t) :
    Inv ({ s with getMutex := none }.goto t .idle) gl pl :=
  hi.control (by constructor <;> rfl) rfl (fun _ hm => .inl hm) (by simp [Pc.pending])
    (fun _ _ => id) (fun _ hne hu => absurd (Option.some.inj (held.symm.trans hu)).symm hne)
    (by simp [Pc.inserted]) (by simp [Pc.holdsPut]) (by simp [Pc.holdsGet]) trivial

/-- A notification leaves the counter of a thread that is not parked. -/
theorem notifyGet_pc {woken : Option Tid} (h : s.notifyGet woken = some s')
    (awake : (s.pc t).wake = s.pc t) : s'.pc t = s.pc t := by
  cases woken with
  | none =>
    simp only [State.notifyGet] at h
    split at h <;> cases h
    rfl
  | some w =>
    simp only [State.notifyGet] at h
    split at h <;> cases h
    by_cases hw : t = w
    · subst hw
      simpa only [Function.update_self] using awake
    · exact Function.update_of_ne hw ..

end Moves

/-! ## The operations -/

section Operations

variable {s s' : State Tid} {gl pl : List Msg} {t : Tid} {woken : Option Tid}

/-- A new message comes in with the thread `t`, in no buffer and at no other thread. -/
theorem Inv.newMsg (hi : Inv s gl pl) (t : Tid) (pc : Pc) (buffers : Buffers s' gl pl)
    (taken : s'.taken = s.taken) (fresh : s'.fresh = s.fresh + 1)
    (done : s'.completed = s.completed) (writes : s'.headWrites = s.headWrites)
    (put : s'.putMutex = s.putMutex) (get : s'.getMutex = s.getMutex)
    (getHead : s'.getHead = s.getHead)
    (mem : ∀ m, m ≠ s.fresh → s'.mem (.link m) = s.mem (.link m))
    (hpc : s'.pc = Function.update s.pc t pc) (pending : pc.pending = some s.fresh)
    (inserted : pc.inserted = none) (noPut : pc.holdsPut = false) (noGet : pc.holdsGet = false)
    (here : Local s' gl pc) : Inv s' gl pl := by
  have hall : s'.all gl pl = s.all gl pl := by simp only [State.all, taken]
  have hlt : ∀ m, m < s.fresh → m < s'.fresh := fun m hm => fresh ▸ Nat.lt_succ_of_lt hm
  constructor
  · exact buffers
  · rw [hall]; exact hi.nodup
  · rw [hall]; exact fun m hm => hlt m (hi.old m hm)
  · rw [hall, done]; exact hi.completed
  · rw [writes]; exact hi.guarded
  · intro u
    rw [hall]
    by_cases hu : u = t
    · subst hu
      rw [hpc, Function.update_self]
      refine ⟨fun m hm => ?_, fun m hm => ?_, fun h => ?_, fun h => ?_, here⟩
      · obtain rfl : s.fresh = m := Option.some.inj (pending.symm.trans hm)
        exact ⟨fresh ▸ Nat.lt_succ_self _, fun hin => Nat.lt_irrefl _ (hi.old _ hin)⟩
      · exact absurd (inserted.symm.trans hm) (by simp)
      · exact absurd (noPut.symm.trans h) (by simp)
      · exact absurd (noGet.symm.trans h) (by simp)
    · rw [hpc, Function.update_of_ne hu]
      have hthread := hi.threads u
      refine ⟨fun m hm => ⟨hlt m (hthread.pending m hm).1, (hthread.pending m hm).2⟩,
        hthread.inserted, by rw [put]; exact hthread.put, by rw [get]; exact hthread.get, ?_⟩
      exact hthread.here.frame (fun m hm => mem m (Nat.ne_of_lt (hthread.pending m hm).1))
        fun _ => ⟨getHead, rfl⟩
  · have hbound : ∀ u m, u ≠ t → (s'.pc u).pending = some m → m < s.fresh ∧
        (s.pc u).pending = some m := fun u m hu hm => by
      rw [hpc, Function.update_of_ne hu] at hm
      exact ⟨((hi.threads u).pending m hm).1, hm⟩
    have hmine : ∀ m, (s'.pc t).pending = some m → m = s.fresh := fun m hm => by
      rw [hpc, Function.update_self, pending] at hm
      exact (Option.some.inj hm).symm
    intro u v m hu hv
    by_cases hut : u = t <;> by_cases hvt : v = t
    · rw [hut, hvt]
    · exact absurd (hmine m (hut ▸ hu)) (Nat.ne_of_lt (hbound v m hvt hv).1)
    · exact absurd (hmine m (hvt ▸ hv)) (Nat.ne_of_lt (hbound u m hut hu).1)
    · exact hi.apart u v m (hbound u m hut hu).2 (hbound v m hvt hv).2

theorem inv_enter (hi : Inv s gl pl) (hpc : s.pc t = .idle) (c : Call) :
    Inv (enter s t c) gl pl := by
  have hnew : s.fresh ∉ s.all gl pl := fun h => Nat.lt_irrefl _ (hi.old _ h)
  simp only [State.all, List.mem_append, not_or] at hnew
  cases c with
  | put =>
    refine hi.newMsg t (.putLock s.fresh) ?_ rfl rfl rfl rfl rfl rfl rfl ?_ rfl rfl rfl
      rfl rfl ?_
    · exact (hi.buffers.storeLink hnew.1.1 hnew.1.2).congr rfl rfl rfl rfl rfl
    · exact fun m hm => Function.update_of_ne (fun h => hm (link_injective h)) ..
    · exact Function.update_self ..
  | putHead =>
    refine hi.newMsg t (.headLock s.fresh) ?_ rfl rfl rfl rfl rfl rfl rfl ?_ rfl rfl
      rfl rfl rfl trivial
    · exact hi.buffers.congr rfl rfl rfl rfl rfl
    · exact fun _ _ => rfl
  | get | setNonblock | setBlock =>
    exact hi.goto (by constructor <;> simp [hpc, Pc.pending, Pc.inserted, Pc.holdsGet, Local])
      (by simp [Pc.holdsPut])

theorem inv_msgQueuePut {pc : Pc} (hi : Inv s gl pl) (hpc : s.pc t = pc)
    (h : msgQueuePut s t woken pc = some s') : ∃ pl', Inv s' gl pl' := by
  have ht := hi.threads t
  rw [hpc] at ht
  cases pc with
  | putLock msg | putWake msg =>
    refine ⟨pl, hi.lockPut ?_ h⟩
    exact ⟨by simp [hpc, Pc.pending], by simp [Pc.inserted], by simp [Pc.holdsGet], ht.here⟩
  | putBody msg =>
    have hheld : s.putMutex = some t := ht.put rfl
    simp only [msgQueuePut] at h
    split at h
    · cases h
      refine ⟨pl, (hi.waits s.getCond (s.putCond ++ [t])).unlockPut ?_ hheld rfl⟩
      exact ⟨by simp [hpc, Pc.pending], by simp [Pc.inserted], by simp [Pc.holdsGet], ht.here⟩
    · cases h
      have hnd : (gl ++ pl).Nodup := (List.nodup_append.mp hi.nodup).1
      have hout : msg ∉ s.all gl pl := (ht.pending msg rfl).2
      have hbuf : msg ∉ gl ++ pl := fun hm => hout (List.mem_append_left _ hm)
      refine ⟨pl ++ [msg], hi.data t [msg] (.putUnlock msg) ?_ ?_
        (List.nodup_singleton _) (by simp [hpc, Pc.pending]) rfl rfl rfl rfl (fun _ hw => .inl hw)
        rfl rfl (by simp [Pc.inserted]) (fun _ => hheld) (by simp [Pc.holdsGet]) trivial ?_⟩
      · exact (hi.buffers.append hnd hbuf ht.here).congr rfl rfl rfl rfl rfl
      · have hall : s.all gl (pl ++ [msg]) = (gl ++ pl) ++ msg :: s.taken.map Prod.snd := by
          simp [State.all]
        exact hall ▸ List.perm_middle
      · intro u hu hlocal
        exact hlocal.frame (fun m hm => Function.update_of_ne (hi.pending_ne_tail hm) ..)
          fun _ => ⟨rfl, rfl⟩
  | putUnlock msg =>
    cases h
    refine ⟨pl, hi.unlockPut ?_ (ht.put rfl) rfl⟩
    exact ⟨by simp [Pc.pending], by simp [hpc, Pc.inserted], by simp [Pc.holdsGet], trivial⟩
  | putNotify msg =>
    simp only [msgQueuePut, Option.bind_eq_bind, Option.bind_eq_some_iff] at h
    obtain ⟨s₁, hnotify, heq⟩ := h
    cases heq
    have hpc₁ : s₁.pc t = .putNotify msg := (notifyGet_pc hnotify (by rw [hpc]; rfl)).trans hpc
    refine ⟨pl, Inv.goto ((hi.notifyGet hnotify).complete (t := t) ?_) ?_ (by simp [Pc.holdsPut])⟩
    · rw [hpc₁]; rfl
    · exact ⟨by simp [Pc.pending], by simp [Pc.inserted], by simp [Pc.holdsGet], trivial⟩
  | _ => cases h

/-- A thread writes the link word of its own message. -/
theorem Inv.storeLink {m : Msg} {v : Option Msg} (hi : Inv s gl pl)
    (hm : (s.pc t).pending = some m)
    (here : Local { s with mem := Function.update s.mem (.link m) v } gl (s.pc t)) :
    Inv { s with mem := Function.update s.mem (.link m) v } gl pl := by
  have hout := ((hi.threads t).pending m hm).2
  simp only [State.all, List.mem_append, not_or] at hout
  refine { hi with buffers := hi.buffers.storeLink hout.1.1 hout.1.2, threads := fun u => ?_ }
  have hu := hi.threads u
  refine ⟨hu.pending, hu.inserted, hu.put, hu.get, ?_⟩
  by_cases hut : u = t
  · subst hut; exact here
  · refine hu.here.frame (fun x hx => Function.update_of_ne (fun he => ?_) ..) fun _ => ⟨rfl, rfl⟩
    obtain rfl := link_injective he
    exact hut (hi.apart u t x hx hm)

theorem inv_msgqueuePutHead {pc : Pc} (hi : Inv s gl pl) (hpc : s.pc t = pc)
    (guarded : ∀ msg, pc = .headTry msg → s.getMutex = none ∨ s.getMutex = some t)
    (h : msgqueuePutHead s t woken pc = some s') : ∃ gl' pl', Inv s' gl' pl' := by
  have ht := hi.threads t
  rw [hpc] at ht
  -- a message of this thread is not in the link words the other threads know
  have hother : ∀ {u m msg}, pc.pending = some msg → u ≠ t → (s.pc u).pending = some m →
      Addr.link m ≠ Addr.link msg := fun {u m msg} hmsg hu hm he => by
    obtain rfl := link_injective he
    exact hu (hi.apart u t m hm (hpc ▸ hmsg))
  cases pc with
  | headLock msg | headWake msg =>
    refine ⟨gl, pl, hi.lockPut ?_ h⟩
    exact ⟨by simp [hpc, Pc.pending], by simp [Pc.inserted], by simp [Pc.holdsGet], trivial⟩
  | headLoop msg =>
    simp only [msgqueuePutHead] at h
    split at h <;> cases h <;> refine ⟨gl, pl, hi.goto ?_ fun _ => ht.put rfl⟩ <;>
      exact ⟨by simp [hpc, Pc.pending], by simp [Pc.inserted], by simp [Pc.holdsGet], trivial⟩
  | headTry msg =>
    simp only [msgqueuePutHead] at h
    split at h
    · next hfree =>
      cases h
      refine ⟨gl, pl, hi.lockGet hfree ?_ fun _ => ht.put rfl⟩
      exact ⟨by simp [hpc, Pc.pending], by simp [Pc.inserted], by simp [Pc.holdsGet], trivial⟩
    · next hbusy =>
      cases h
      -- the one step whose safety the condition on the run carries
      have hheld : s.getMutex = some t := (guarded msg rfl).resolve_left hbusy
      refine ⟨gl, pl, hi.goto ?_ fun _ => ht.put rfl⟩
      exact ⟨by simp [hpc, Pc.pending], by simp [Pc.inserted], fun _ => hheld, trivial⟩
  | headUnlockPut msg =>
    cases h
    refine ⟨gl, pl, hi.unlockPut ?_ (ht.put rfl) rfl⟩
    exact ⟨by simp [hpc, Pc.pending], by simp [Pc.inserted], fun _ => ht.get rfl, trivial⟩
  | headRead msg =>
    cases h
    have hstore := hi.storeLink (t := t) (m := msg) (v := s.mem s.getHead) (by rw [hpc]; rfl)
      (by rw [hpc]; trivial)
    refine ⟨gl, pl, hstore.goto ?_ (by simp [Pc.holdsPut])⟩
    refine ⟨by simp [hpc, Pc.pending], by simp [Pc.inserted], fun _ => ht.get rfl, ?_⟩
    exact (Function.update_self ..).trans hi.buffers.getChain.head?
  | headWrite msg =>
    cases h
    have hheld : s.getMutex = some t := ht.get rfl
    refine ⟨msg :: gl, pl, hi.data t [msg] (.headUnlockGet msg) ?_ ?_
      (List.nodup_singleton _) (by simp [hpc, Pc.pending]) rfl rfl rfl rfl ?_ rfl rfl
      (by simp [Pc.inserted]) (by simp [Pc.holdsPut]) (fun _ => hheld) trivial ?_⟩
    · exact (hi.buffers.pushGet ht.here).congr rfl rfl rfl rfl rfl
    · exact List.Perm.refl _
    · intro w hw
      exact (List.mem_append.mp hw).imp_right fun h => ⟨List.mem_singleton.mp h, hheld⟩
    · intro u hu hlocal
      refine hlocal.frame (fun m hm => Function.update_of_ne (hi.buffers.getCell m).symm ..)
        fun hg => ?_
      exact absurd (Option.some.inj (hheld.symm.trans ((hi.threads u).get hg))).symm hu
  | headUnlockGet msg =>
    cases h
    refine ⟨gl, pl, ?_⟩
    have hdone := hi.complete (t := t) (m := msg) (by rw [hpc]; rfl)
    exact hdone.unlockGet (ht.get rfl)
  | headBody msg =>
    have hheld : s.putMutex = some t := ht.put rfl
    simp only [msgqueuePutHead] at h
    split at h
    · cases h
      refine ⟨gl, pl, (hi.waits s.getCond (s.putCond ++ [t])).unlockPut ?_ hheld rfl⟩
      exact ⟨by simp [hpc, Pc.pending], by simp [Pc.inserted], by simp [Pc.holdsGet], trivial⟩
    · cases h
      have hout := (ht.pending msg rfl).2
      simp only [State.all, List.mem_append, not_or] at hout
      have hlink := hi.buffers.storeLink (v := s.mem s.putHead) hout.1.1 hout.1.2
      have hpush := hlink.pushPut (m := msg)
        ((Function.update_self ..).trans hi.buffers.putChain.head?)
      refine ⟨gl, msg :: pl, hi.data t [msg] (.headNotify msg) ?_ ?_
        (List.nodup_singleton _) (by simp [hpc, Pc.pending]) rfl rfl rfl rfl (fun _ hw => .inl hw)
        rfl rfl (by simp [Pc.inserted]) (fun _ => hheld) (by simp [Pc.holdsGet]) trivial ?_⟩
      · exact hpush.congr rfl rfl rfl rfl rfl
      · have hall : s.all gl (msg :: pl) = gl ++ msg :: (pl ++ s.taken.map Prod.snd) := by
          simp [State.all]
        have hall' : s.all gl pl = gl ++ (pl ++ s.taken.map Prod.snd) := by simp [State.all]
        exact hall ▸ hall' ▸ List.perm_middle
      · intro u hu hlocal
        refine hlocal.frame (fun m hm => ?_) fun _ => ⟨rfl, rfl⟩
        exact (Function.update_of_ne (hi.buffers.putCell m).symm ..).trans
          (Function.update_of_ne (hother rfl hu hm) ..)
  | headNotify msg =>
    simp only [msgqueuePutHead, Option.bind_eq_bind, Option.bind_eq_some_iff] at h
    obtain ⟨s₁, hnotify, heq⟩ := h
    cases heq
    have hpc₁ : s₁.pc t = .headNotify msg := (notifyGet_pc hnotify (by rw [hpc]; rfl)).trans hpc
    have hi₁ := hi.notifyGet hnotify
    refine ⟨gl, pl, hi₁.goto ?_ fun _ => (hi₁.threads t).put (by rw [hpc₁]; rfl)⟩
    exact ⟨by simp [Pc.pending], by simp [hpc₁, Pc.inserted], by simp [Pc.holdsGet], trivial⟩
  | headRelease msg =>
    cases h
    refine ⟨gl, pl, ?_⟩
    have hdone := hi.complete (t := t) (m := msg) (by rw [hpc]; rfl)
    refine hdone.unlockPut ?_ (ht.put rfl) rfl
    exact ⟨by simp [Pc.pending], by simp [Pc.inserted], by simp [Pc.holdsGet], trivial⟩
  | _ => cases h

/-- The exchange of the buffers by the holder of both mutexes, the get buffer being empty. -/
theorem Inv.swap (hi : Inv s [] pl) (put : s.putMutex = some t) (get : s.getMutex = some t) :
    Inv ({ s.logHead t with
      getHead := s.putHead
      putHead := s.getHead
      putTail := s.getHead
      msgCnt := 0 }.goto t (.swapUnlock s.msgCnt)) pl [] := by
  refine hi.data t [] (.swapUnlock s.msgCnt) ?_ ?_ List.nodup_nil (by simp)
    rfl rfl rfl rfl ?_ rfl rfl (by simp [Pc.inserted]) (fun _ => put) (fun _ => get) ?_ ?_
  · exact hi.buffers.swap.congr rfl rfl rfl rfl rfl
  · simp [State.all, State.goto, State.logHead]
  · intro x hx
    exact (List.mem_append.mp hx).imp_right fun h => ⟨List.mem_singleton.mp h, get⟩
  · exact hi.buffers.cnt
  · intro u hu hlocal
    refine hlocal.frame (fun _ _ => rfl) fun hg => ?_
    exact absurd (Option.some.inj (get.symm.trans ((hi.threads u).get hg))).symm hu

theorem inv_msgqueueSwap {pc : Pc} (hi : Inv s gl pl) (hpc : s.pc t = pc)
    (h : msgqueueSwap s t pc = some s') : ∃ gl' pl', Inv s' gl' pl' := by
  have ht := hi.threads t
  rw [hpc] at ht
  cases pc with
  | swapLock getHead | swapWake getHead =>
    refine ⟨gl, pl, hi.lockPut ?_ h⟩
    exact ⟨by simp [Pc.pending], by simp [Pc.inserted], fun _ => ht.get rfl, ht.here⟩
  | swapBody getHead =>
    have hheld : s.getMutex = some t := ht.get rfl
    have hput : s.putMutex = some t := ht.put rfl
    obtain ⟨rfl, rfl⟩ := ht.here
    simp only [msgqueueSwap] at h
    split at h
    · cases h
      refine ⟨[], pl, (hi.waits (s.getCond ++ [t]) s.putCond).unlockPut ?_ hput rfl⟩
      exact ⟨by simp [Pc.pending], by simp [Pc.inserted], fun _ => hheld, ht.here⟩
    · cases h
      -- the notification first; the swap then runs in the state it leaves
      have hiw := hi.notifyFull
      obtain ⟨hgetw, hputHeadw, hcntw, hheldw, hputw⟩ := notifyFull_fields s
      have hswap := hiw.swap (hputw.trans hput) (hheldw.trans hheld)
      rw [hgetw, hputHeadw, hcntw] at hswap
      exact ⟨pl, [], hswap⟩
  | swapUnlock cnt =>
    cases h
    have hcnt : cnt = gl.length := ht.here
    refine ⟨gl, pl, hi.unlockPut ?_ (ht.put rfl) (by split <;> rfl)⟩
    split
    · next hpos =>
      refine ⟨by simp [Pc.pending], by simp [Pc.inserted], fun _ => ht.get rfl, ?_⟩
      exact List.length_pos_iff.mp (hcnt ▸ hpos)
    · exact ⟨by simp [Pc.pending], by simp [Pc.inserted], fun _ => ht.get rfl, trivial⟩
  | _ => cases h

theorem inv_msgqueueGet {pc : Pc} (hi : Inv s gl pl) (hpc : s.pc t = pc)
    (h : msgqueueGet s t pc = some s') : ∃ gl', Inv s' gl' pl := by
  have ht := hi.threads t
  rw [hpc] at ht
  have hhead := hi.buffers.getChain.head?
  cases pc with
  | getLock =>
    simp only [msgqueueGet] at h
    split at h
    · next hfree =>
      cases h
      refine ⟨gl, hi.lockGet hfree ?_ (by simp [Pc.holdsPut])⟩
      exact ⟨by simp [Pc.pending], by simp [Pc.inserted], fun _ => rfl, trivial⟩
    · cases h
  | getTest =>
    simp only [msgqueueGet] at h
    split at h
    · next first hsome =>
      cases h
      refine ⟨gl, hi.goto ?_ (by simp [Pc.holdsPut])⟩
      refine ⟨by simp [Pc.pending], by simp [Pc.inserted], fun _ => ht.get rfl, ?_⟩
      exact hi.buffers.getChain.ne_nil hsome
    · next hnone =>
      cases h
      refine ⟨gl, hi.goto ?_ (by simp [Pc.holdsPut])⟩
      refine ⟨by simp [Pc.pending], by simp [Pc.inserted], fun _ => ht.get rfl, ?_⟩
      exact ⟨rfl, hi.buffers.getChain.eq_nil hnone⟩
  | getMsg =>
    obtain ⟨first, rest, rfl⟩ := List.exists_cons_of_ne_nil ht.here
    simp only [msgqueueGet, hhead, List.head?_cons] at h
    cases h
    refine ⟨first :: rest, hi.goto ?_ (by simp [Pc.holdsPut])⟩
    exact ⟨by simp [Pc.pending], by simp [Pc.inserted], fun _ => ht.get rfl, rfl⟩
  | getNext msg =>
    have hfirst : gl.head? = some msg := ht.here
    simp only [msgqueueGet, hhead, hfirst] at h
    cases h
    refine ⟨gl, hi.goto ?_ (by simp [Pc.holdsPut])⟩
    refine ⟨by simp [Pc.pending], by simp [Pc.inserted], fun _ => ht.get rfl, hfirst, ?_⟩
    obtain ⟨rest, rfl⟩ := List.head?_eq_some_iff.mp hfirst
    exact hi.buffers.getChain.2.head?
  | getWrite msg next =>
    cases h
    have hheld : s.getMutex = some t := ht.get rfl
    obtain ⟨hfirst, rfl⟩ := ht.here
    obtain ⟨rest, rfl⟩ := List.head?_eq_some_iff.mp hfirst
    refine ⟨rest, hi.data t [] (.getUnlock (some msg)) ?_ ?_
      List.nodup_nil (by simp) rfl rfl rfl rfl ?_ rfl rfl (by simp [Pc.inserted])
      (by simp [Pc.holdsPut]) (fun _ => hheld) trivial ?_⟩
    · exact hi.buffers.pop.congr rfl rfl rfl rfl rfl
    · simp only [State.all, State.goto, List.map_append, List.map_cons, List.map_nil,
        List.cons_append, List.nil_append, ← List.append_assoc]
      exact List.perm_append_singleton ..
    · intro x hx
      exact (List.mem_append.mp hx).imp_right fun h => ⟨List.mem_singleton.mp h, hheld⟩
    · intro u hu hlocal
      refine hlocal.frame (fun m _ => Function.update_of_ne (hi.buffers.getCell m).symm ..)
        fun hg => ?_
      exact absurd (Option.some.inj (hheld.symm.trans ((hi.threads u).get hg))).symm hu
  | getUnlock msg =>
    cases h
    exact ⟨gl, (hi.returns (s.returned ++ [(t, msg)])).unlockGet (ht.get rfl)⟩
  | _ => cases h

theorem inv_msgqueueSetNonblock {pc : Pc} (hi : Inv s gl pl) (hpc : s.pc t = pc)
    (h : msgqueueSetNonblock s t woken pc = some s') : Inv s' gl pl := by
  have ht := hi.threads t
  rw [hpc] at ht
  have hmv : ∀ {s : State Tid} {pc : Pc}, pc.pending = none → pc.inserted = none →
      pc.holdsGet = false → Local s gl pc → Moves s gl t pc := fun h1 h2 h3 h4 =>
    ⟨by simp [h1], by simp [h2], by simp [h3], h4⟩
  cases pc with
  | nonblockStore =>
    cases h
    exact (hi.flag true).goto (hmv rfl rfl rfl trivial) (by simp [Pc.holdsPut])
  | nonblockLock =>
    have mv : Moves s gl t .nonblockNotify := hmv rfl rfl rfl trivial
    exact hi.lockPut mv h
  | nonblockNotify =>
    simp only [msgqueueSetNonblock, Option.bind_eq_bind, Option.bind_eq_some_iff] at h
    obtain ⟨s₁, hnotify, heq⟩ := h
    cases heq
    have hpc₁ : s₁.pc t = .nonblockNotify := (notifyGet_pc hnotify (by rw [hpc]; rfl)).trans hpc
    have hi₁ := hi.notifyGet hnotify
    exact hi₁.notifyAllPut.goto (hmv rfl rfl rfl trivial)
      fun _ => (hi₁.threads t).put (by rw [hpc₁]; rfl)
  | nonblockUnlock =>
    cases h
    exact hi.unlockPut (hmv rfl rfl rfl trivial) (ht.put rfl) rfl
  | blockStore =>
    cases h
    exact (hi.flag false).goto (hmv rfl rfl rfl trivial) (by simp [Pc.holdsPut])
  | _ => cases h

end Operations

end WorkflowKernel.MsgQueue
