import WorkflowKernel.Communicator.Client.Target
import WorkflowKernel.ListHead.Library

/-!
# The idle list in memory

The same sections as in the model of the connections, with the target's idle list as the links that
`list.h` is about. `list_empty` and `idle_list.next` are read there, and `list_add` and `list_del` are a
`ListLib`. Three sections call them: `request_idle_conn` takes the first entry, `handle_incoming_reply`
adds an entry for a success result and takes one out for a terminal result.

What the state says of the idle list is not read here. If the list named its head as an entry,
`undefined` would be set.

## What is proved

- `Mirrored.step`: each step on the links is that step of the connections' model, and the links hold
  the idle list that the state says.
- `mirrored`: so in every run.
-/

namespace WorkflowKernel.Communicator.Client

open WorkflowKernel.Transition
open WorkflowKernel.ListHead

/-! ## The model -/

/-- A `struct list`: the target's idle list, and that in an entry. -/
inductive Cell (C : Type)
  | idle
  | entry (c : C)
  deriving DecidableEq, Repr

structure Memory (S C : Type) where
  state : State S C
  links : Links (Cell C)
  undefined : Bool

variable {S C : Type} [DecidableEq S] [DecidableEq C]

/-- A section that is as in the model of the connections, and what it makes of the links. -/
def Memory.write (m : Memory S C) (st : Option (State S C)) (links : Links (Cell C)) :
    Option (Memory S C) :=
  st.map fun st => { m with state := st, links := links }

/-- The section of `request_idle_conn` on the target's mutex. -/
def Memory.requestIdleConn (L : ListLib (Cell C)) (m : Memory S C) (s : S) :
    Option (Memory S C) :=
  let st := m.state
  if (st.session s).call = .searching then
    if listEmpty m.links .idle = false then
      match m.links.next .idle with
      | .entry c =>
        if (st.conn c).holder = .none then
          let st := { st with idleList := st.idleList.erase c }
          m.write (some ((st.upd c fun k => { k with holder := .taken s }).updSession s fun x =>
            { x with call := .locked c })) (L.listDel m.links (.entry c))
        else none
      | .idle => some { m with undefined := true }
    else m.write (some (st.updSession s fun x => { x with call := .launching })) m.links
  else none

/-- What `handle_incoming_reply` does with the link of an entry in this state for a result. -/
def endLinks (L : ListLib (Cell C)) (l : Links (Cell C)) (c : C) (res : PrState)
    (state : ConnState) : Links (Cell C) :=
  match res, state with
  | .success, _ | .modified, _ => l
  | _, .idle => L.listDel l (.entry c)
  | _, _ => l

def Memory.step (L : ListLib (Cell C)) (m : Memory S C) (a : Label S C) : Option (Memory S C) :=
  let st := m.state
  match a with
  | .requestIdleConn s => m.requestIdleConn L s
  | .handleReadResult c res =>
    m.write (Client.step st a) (endLinks L m.links c res.1 (st.conn c).state)
  | .handleIncomingReply c s _ =>
    m.write (Client.step st a)
      (if (st.conn c).state = .success ∧ (st.session s).timeout ≠ 0 then
        L.listAdd m.links (.entry c) .idle
      else m.links)
  | _ => m.write (Client.step st a) m.links

/-- A target whose idle list is initialized; the other cells hold what was there. -/
def memory (S C : Type) [DecidableEq S] [DecidableEq C] (L : ListLib (Cell C)) :
    System (Memory S C) (Label S C) where
  Init m := ∃ l, m = ⟨State.init S C, listInit l .idle, false⟩
  step := Memory.step L

/-! ## What the links hold -/

/-- The entry is one of those that the idle list holds. -/
def Memory.Lists (m : Memory S C) (c : C) : Prop :=
  ∃ entries, Ring m.links .idle entries ∧ .entry c ∈ entries

/-- The links hold the idle list, and the connections' model has its invariant. -/
structure Mirrored (m : Memory S C) : Prop where
  ring : Ring m.links .idle (m.state.idleList.map .entry)
  ok : StateOk m.state
  defined : m.undefined = false

section Mirror

variable {L : ListLib (Cell C)} {m m' : Memory S C} {st' : State S C} {c : C} {s : S}

omit [DecidableEq C] in
theorem nodup_cells {cs : List C} (h : cs.Nodup) : (.idle :: cs.map Cell.entry).Nodup := by
  refine List.nodup_cons.mpr ⟨by simp, h.map fun a b heq => ?_⟩
  exact Cell.entry.inj heq

omit [DecidableEq C] in
theorem Mirrored.lists_iff (h : Mirrored m) : m.Lists c ↔ c ∈ m.state.idleList := by
  constructor
  · rintro ⟨entries, hring, hmem⟩
    rcases List.mem_cons.mp (h.ring.mem hring hmem) with heq | hc
    · cases heq
    · obtain ⟨d, hd, heq⟩ := List.mem_map.mp hc
      exact Cell.entry.inj heq ▸ hd
  · exact fun hc => ⟨_, h.ring, List.mem_map_of_mem hc⟩

theorem erase_cells (cs : List C) (c : C) :
    (cs.map Cell.entry).erase (.entry c) = (cs.erase c).map Cell.entry := by
  induction cs with
  | nil => rfl
  | cons d cs ih =>
    by_cases hd : d = c
    · subst hd
      rw [List.map_cons, List.erase_cons_head, List.erase_cons_head]
    · rw [List.map_cons, List.erase_cons_tail (by simpa using hd),
        List.erase_cons_tail (by simpa using hd), List.map_cons, ih]

/-- `list_del` of an entry that the list holds. -/
theorem Mirrored.ring_listDel (h : Mirrored m) (hc : c ∈ m.state.idleList) :
    Ring (L.listDel m.links (.entry c)) .idle ((m.state.idleList.erase c).map .entry) := by
  rw [← erase_cells]
  exact L.ring_listDel h.ring (nodup_cells h.ok.nodup) (List.mem_map_of_mem hc)

/-- `list_add` of an entry that it does not hold. -/
theorem Mirrored.ring_listAdd (h : Mirrored m) (hc : c ∉ m.state.idleList) :
    Ring (L.listAdd m.links (.entry c) .idle) .idle ((c :: m.state.idleList).map .entry) := by
  refine L.ring_listAdd h.ring (List.nodup_cons.mpr ⟨?_, nodup_cells h.ok.nodup⟩)
  simpa using hc

/-! ## The sections on the links -/

/-- `list_empty` answers right, and the first entry is the one that the state says. -/
theorem Mirrored.empty_iff (h : Mirrored m) :
    listEmpty m.links .idle = true ↔ m.state.idleList = [] := by
  rw [(represents_iff_ring.mpr h.ring).empty_iff (by simp), List.map_eq_nil_iff]

theorem Mirrored.requestIdleConn (h : Mirrored m) (hstep : m.requestIdleConn L s = some m') :
    Client.requestIdleConn m.state s = some m'.state ∧ Mirrored m' := by
  have hstate : Client.requestIdleConn m.state s = some m'.state →
      Client.requestIdleConn m.state s = some m'.state ∧ StateOk m'.state :=
    fun hs => ⟨hs, h.ok.requestIdleConn hs⟩
  simp only [Memory.requestIdleConn] at hstep
  split at hstep
  · next hcall =>
    cases hlist : m.state.idleList with
    | nil =>
      rw [h.empty_iff.mpr hlist] at hstep
      cases hstep
      obtain ⟨hs, hok⟩ := hstate (by simp only [Client.requestIdleConn, hcall, hlist, if_true])
      exact ⟨hs, h.ring, hok, h.defined⟩
    | cons c rest =>
      have hc : c ∈ m.state.idleList := by rw [hlist]; exact List.mem_cons_self
      have hempty : listEmpty m.links .idle = false := by
        rw [Bool.eq_false_iff]
        intro hnone
        rw [h.empty_iff.mp hnone] at hc
        cases hc
      have hnext : m.links.next .idle = .entry c := by
        rw [h.ring.1.first, hlist]
        rfl
      rw [if_pos hempty, hnext] at hstep
      dsimp only at hstep
      split at hstep
      · next hholder =>
        have hdel := h.ring_listDel (L := L) hc
        cases hstep
        obtain ⟨hs, hok⟩ := hstate
          (by simp only [Client.requestIdleConn, hcall, hlist, hholder, if_true,
            List.erase_cons_head])
        exact ⟨hs, hdel, hok, h.defined⟩
      · cases hstep
  · cases hstep

omit [DecidableEq C] in
/-- The handler of a terminal result finds an idle entry on the list. -/
theorem StateOk.listed (h : StateOk m.state) {res : PrState × Errno}
    (ht : .result .read res.1 res.2 ∈ (m.state.conn c).tasks) (hres : res.1.terminal = true)
    (hholder : (m.state.conn c).holder = .none) (hidle : (m.state.conn c).state = .idle) :
    c ∈ m.state.idleList := by
  obtain ⟨g, hg⟩ := h.get (c := c) fun e => by rw [e] at ht; cases ht
  have hrole : Task.role (.result .read res.1 res.2 : Task S) = .operation .read := if_pos hres
  have hread : 0 < (m.state.conn c).count (.operation .read) := by
    rw [hg.stage.count, Stage.count, if_pos (hg.has ht hrole)]
    exact Nat.one_pos
  have hstage := hg.stage.reading hread
  rw [hidle] at hstage
  refine hg.stage.on.mpr (hstage.resolve_right fun hrequested => ?_)
  have hbusy := hg.stage.busy.mpr hrequested
  rw [hholder] at hbusy
  cases hbusy

omit [DecidableEq C] in
/-- The handler of a success result finds an entry with the state of one off the list. -/
theorem StateOk.unlisted (h : StateOk m.state) (hstate : (m.state.conn c).state = .success) :
    c ∉ m.state.idleList := by
  intro hc
  obtain ⟨g, hg⟩ := (h.conn c).resolve_left fun habsent => habsent.2 hc
  have hidle := hg.stage.idle (.inl (hg.stage.on.mp hc))
  rw [hstate] at hidle
  cases hidle

theorem idleList_handleIncomingReplyEnd (st : State S C) (c : C) (t : Task S)
    (res : PrState × Errno) : (handleIncomingReplyEnd (st.upd c (Conn.take t)) c res).idleList =
      if (st.conn c).state = .idle then st.idleList.erase c else st.idleList := by
  cases hs : (st.conn c).state <;> simp [handleIncomingReplyEnd, hs, State.upd, Conn.take]

/-- The handler of a read result. -/
theorem Mirrored.handleReadResult (h : Mirrored m) {res : PrState × Errno}
    (hstep : handleReadResult m.state c res = some st') :
    Ring (endLinks L m.links c res.1 (m.state.conn c).state) .idle (st'.idleList.map .entry) := by
  simp only [Client.handleReadResult, upd_conn] at hstep
  split at hstep
  · next ht =>
    split at hstep
    · next hres =>
      cases hstep
      rw [hres]
      exact h.ring
    · next hres =>
      obtain ⟨s, -, rfl⟩ := Option.map_eq_some_iff.mp hstep
      rw [hres]
      exact h.ring
    · next hmodified hsuccess =>
      split at hstep
      · next hholder =>
        cases hstep
        have hterminal : res.1.terminal = true := by
          cases hstate : res.1 <;> simp_all [PrState.terminal]
        have hlinks : endLinks L m.links c res.1 (m.state.conn c).state =
            if (m.state.conn c).state = .idle then L.listDel m.links (.entry c) else m.links := by
          cases hstate : res.1 <;> cases hconn : (m.state.conn c).state <;>
            simp_all [endLinks, PrState.terminal]
        rw [hlinks, idleList_handleIncomingReplyEnd]
        by_cases hidle : (m.state.conn c).state = .idle
        · rw [if_pos hidle, if_pos hidle]
          exact h.ring_listDel (h.ok.listed ht hterminal hholder hidle)
        · rw [if_neg hidle, if_neg hidle]
          exact h.ring
      · cases hstep
  · cases hstep

/-- The handler of a success result. -/
theorem Mirrored.handleIncomingReply (h : Mirrored m) {error : Errno}
    (hstep : handleIncomingReply m.state c s error = some st') :
    Ring (if (m.state.conn c).state = .success ∧ (m.state.session s).timeout ≠ 0 then
        L.listAdd m.links (.entry c) .idle
      else m.links) .idle (st'.idleList.map .entry) := by
  simp only [Client.handleIncomingReply, upd_conn] at hstep
  split at hstep
  · split at hstep
    · next hstate =>
      change (m.state.conn c).state = .success at hstate
      split at hstep
      · next htimeout =>
        change (m.state.session s).timeout ≠ 0 at htimeout
        cases hstep
        rw [if_pos ⟨hstate, htimeout⟩]
        exact h.ring_listAdd (h.ok.unlisted hstate)
      · next htimeout =>
        change ¬ (m.state.session s).timeout ≠ 0 at htimeout
        cases hstep
        rw [if_neg fun hand => htimeout hand.2]
        exact h.ring
    · next hstate =>
      change ¬ (m.state.conn c).state = .success at hstate
      cases hstep
      rw [if_neg fun hand => hstate hand.1]
      exact h.ring
  · cases hstep

end Mirror

/-! ## Every run -/

section Runs

variable {L : ListLib (Cell C)} {m m' : Memory S C} {st st' : State S C} {a : Label S C}

/-- The steps whose sections call a function of the list. -/
def Label.listed : Label S C → Bool
  | .requestIdleConn _ | .handleReadResult _ _ | .handleIncomingReply _ _ _ => true
  | _ => false

/-- The other steps leave the idle list. -/
theorem idleList_step (ha : a.listed = false) (hstep : Client.step st a = some st') :
    st'.idleList = st.idleList := by
  cases a
  all_goals first | exact Bool.noConfusion ha | clear ha
  all_goals
    simp only [Client.step, pollRead, readAgain, createReply, createReplyLocked, createReplySession,
      appendMessageDone, callback, readEnds, readFails, pollEnds, handlePipe, request,
      requestIdleConnTimeout, requestIdleConnSend, requestIdleConnError, requestIdleConnLeave,
      launchConn, requestNewConn, handleRequestResult, handleConnectResult, addRead, handle,
      finish] at hstep
    repeat' split at hstep
    all_goals first
      | cases hstep <;> rfl
      | obtain ⟨x, -, rfl⟩ := Option.map_eq_some_iff.mp hstep
        rfl

theorem Mirrored.step (h : Mirrored m) (hstep : Memory.step L m a = some m') :
    Client.step m.state a = some m'.state ∧ Mirrored m' := by
  have hwrite : ∀ {l : Links (Cell C)}, m.write (Client.step m.state a) l = some m' →
      (∀ st', Client.step m.state a = some st' → Ring l .idle (st'.idleList.map .entry)) →
      Client.step m.state a = some m'.state ∧ Mirrored m' := by
    intro l hw hring
    obtain ⟨st', hst, rfl⟩ := Option.map_eq_some_iff.mp hw
    exact ⟨hst, hring st' hst, h.ok.step hst, h.defined⟩
  cases hlisted : a.listed with
  | false =>
    have hsame : m.write (Client.step m.state a) m.links = some m' := by
      cases a <;> first | exact hstep | cases hlisted
    refine hwrite hsame fun st' hst => ?_
    rw [idleList_step hlisted hst]
    exact h.ring
  | true =>
    cases a with
    | requestIdleConn s => exact h.requestIdleConn hstep
    | handleReadResult c res => exact hwrite hstep fun st' hst => h.handleReadResult hst
    | handleIncomingReply c s error => exact hwrite hstep fun st' hst => h.handleIncomingReply hst
    | _ => cases hlisted

/-- In every run the links hold the idle list. -/
theorem mirrored : InductiveInvariant (memory S C L) (fun _ _ => True) Mirrored where
  init := by
    rintro m ⟨l, rfl⟩
    exact ⟨listInit_holds l .idle, StateOk.init, rfl⟩
  step _ _ _ h _ hstep := (h.step hstep).2

/-- A run on the links is a run of the connections' model. -/
theorem memory_follows : Simulation (memory S C L) (system S C) (fun _ _ => True)
    (fun _ _ => True) fun m st => m.state = st ∧ Mirrored m where
  init := by
    rintro m hinit
    have hm := mirrored.init m hinit
    obtain ⟨l, rfl⟩ := hinit
    exact ⟨_, rfl, rfl, hm⟩
  step := by
    rintro m st a m' ⟨rfl, hm⟩ - hstep
    obtain ⟨hst, hm'⟩ := hm.step hstep
    exact ⟨m'.state, ⟨rfl, hm'⟩, .inr ⟨a, trivial, hst⟩⟩

end Runs

/-- A target after `init`; the cells but the idle list hold anything. -/
def Memory.start : Memory Nat Nat where
  state := State.init Nat Nat
  links := listInit { next := fun _ => .idle, prev := fun _ => .idle } .idle
  undefined := false

theorem memory_start {L : ListLib (Cell Nat)} : (memory Nat Nat L).Init Memory.start := ⟨_, rfl⟩

end WorkflowKernel.Communicator.Client
