import WorkflowKernel.Communicator.Server.Release
import WorkflowKernel.ListHead.Library

/-!
# The lists of a service in memory

The same sections as in the model of the connections, on the links themselves. `list_empty`,
`list_add_tail` and `list_delete` are those of `list.h`, called with the arguments that the source
gives them: `handle_reply_result` calls `list_add_tail` with the entry for the head and the alive
list for the entry. `list_add` and `list_del` are a `ListLib`.

What the server's state says of its lists is not read here: a test of a list reads the links, and so
does the choice of an entry. A list that names something that is no entry where the code takes one
from it makes `undefined`.

`Mirror` is what the links are while each list holds at most one entry, the one that the state says.

## What is proved

- `Mirror.editAlive`, `Mirror.editIdle`: an edit of one list leaves the others as they were.
- `Mirror.lists_alive`, `Mirror.lists_idle`: which entries the lists hold.
- `sameLists_step`: the sections that call no list function change no list.
-/

namespace WorkflowKernel.Communicator.Server

open WorkflowKernel.Transition
open WorkflowKernel.ListHead

/-! ## The model -/

/-- A `struct list`: the alive list, the idle list of a connection's target, and that in its
entry. -/
inductive Cell (C : Type)
  | alive
  | idle (c : C)
  | entry (c : C)
  deriving DecidableEq, Repr

structure Memory (C : Type) where
  server : State C
  links : Links (Cell C)
  undefined : Bool

variable {C : Type} [DecidableEq C]

/-- A section that is as in the model of the connections, and what it makes of the links. -/
def Memory.write (m : Memory C) (s : Option (State C)) (links : Links (Cell C)) :
    Option (Memory C) :=
  s.map fun s => { m with server := s, links := links }

/-- What `handle_incoming_request` does with the link of an entry in this state, holding the target's
mutex only. -/
def incomingLinks (L : ListLib (Cell C)) (l : Links (Cell C)) (c : C) (res : PrState)
    (state : ConnState) : Links (Cell C) :=
  match res, state with
  | .success, .success => L.listAdd l (.entry c) (.idle c)
  | .success, _ | .modified, _ => l
  | _, .idle => L.listDel l (.entry c)
  | _, _ => l

/-- `reply_reliable` takes the first entry of the idle list. -/
def Memory.replyReliable (L : ListLib (Cell C)) (m : Memory C) (c : C) : Option (Memory C) :=
  let k := m.server.conn c
  if k.accepted ∧ k.holder = .none ∧ listEmpty m.links (.idle c) = false then
    if m.links.next (.idle c) = .entry c then
      m.write (some ((m.server.unlinkIdle c).upd c fun k => { k with holder := .replySend }))
        (L.listDel m.links (.entry c))
    else some { m with undefined := true }
  else none

/-- `CommServiceTarget::shutdown` of a reliable service. -/
def Memory.targetShutdown (m : Memory C) (c : C) : Option (Memory C) :=
  let k := m.server.conn c
  if k.accepted ∧ k.holder = .none ∧ listEmpty m.links (.idle c) = false then
    if m.links.next (.idle c) = .entry c then
      m.write (some ((m.server.unlinkIdle c).upd c fun k => { mpollerDel k with state := .closing }))
        (listDelete m.links (.entry c))
    else some { m with undefined := true }
  else none

/-- The loop of `CommService::drain`; none if it has not ended after `fuel` rounds. -/
def Memory.drainLoop (max : Int) : Nat → Int → Memory C → Option (Memory C)
  | 0, _, _ => none
  | fuel + 1, cnt, m =>
    if cnt = max ∨ listEmpty m.links .alive then some m
    else
      match m.links.next .alive with
      | .entry c =>
        Memory.drainLoop max fuel (cnt + 1)
          { m with
            server := drainOne m.server c
            links := listDelete m.links (.entry c) }
      | .alive | .idle _ => some { m with undefined := true }

/-- `CommService::drain`. -/
def Memory.drain (fuel : Nat) (m : Memory C) (max : Int) : Option (Memory C) :=
  m.drainLoop max fuel 0

/-- `shutdown_service` drains. -/
def Memory.shutdownServiceDrain (fuel : Nat) (m : Memory C) : Option (Memory C) :=
  if 0 < m.server.shutdowns then
    Memory.drain fuel { m with server := { m.server with shutdowns := m.server.shutdowns - 1 } } (-1)
  else none

def Memory.step (L : ListLib (Cell C)) (fuel : Nat) (m : Memory C) (a : Label C) :
    Option (Memory C) :=
  let s := m.server
  let l := m.links
  match a with
  | .acceptConn c _ => m.write (Server.step s a) (listInit l (.idle c))
  | .createRequestService c | .handleIncomingRequestService c =>
    m.write (Server.step s a)
      (if (s.conn c).state = .keepalive then L.listDel l (.entry c) else l)
  | .handleReadResult c res => m.write (Server.step s a) (incomingLinks L l c res.1 (s.conn c).state)
  | .handleReplyResultService c =>
    m.write (Server.step s a)
      (if s.stopFlag = false ∧ 0 ≤ s.listenFd then listAddTail l (.entry c) .alive else l)
  | .sendMessageSyncService c =>
    m.write (Server.step s a) (if 0 ≤ s.listenFd then listAddTail l .alive (.entry c) else l)
  | .replyReliable c => m.replyReliable L c
  | .targetShutdown c => m.targetShutdown c
  | .drain max => m.drain fuel max
  | .shutdownServiceDrain => m.shutdownServiceDrain fuel
  | .createRequest _ | .createRequestChecked _ | .createRequestSession _ _ | .appendMessage _ _
  | .appendMessageDone _ | .readEnds _ _ | .writeEnds _ _ | .handlePipe _
  | .handleWriteResult _ _ _ _ | .finish _ _ | .replyFails _ _ | .sendMessageSync _ _
  | .sendMessageAsync _ _ | .shutdownService | .deinit => m.write (Server.step s a) l

/-- A service whose `alive_list` is initialized; the other cells hold what was there. -/
def memory (L : ListLib (Cell C)) (fuel : Nat) : System (Memory C) (Label C) where
  Init m := ∃ listenFd l, m = ⟨State.listening C listenFd, listInit l .alive, false⟩
  step := Memory.step L fuel

/-! ## What the links hold -/

/-- The links of an entry or of none. -/
structure Mirror (m : Memory C) : Prop where
  short : m.server.aliveList.length ≤ 1
  alive : Holds m.links .alive (m.server.aliveList.head?.map .entry)
  idle : ∀ c, (m.server.conn c).accepted = true →
    Holds m.links (.idle c) (if (m.server.conn c).idle then some (.entry c) else none)
  defined : m.undefined = false

/-- The entry is one of those that the list from `head` holds. -/
def Memory.Lists (m : Memory C) (head : Cell C) (c : C) : Prop :=
  ∃ entries, Ring m.links head entries ∧ .entry c ∈ entries

/-! ## Edits -/

/-- The lists are as they were, and so is which entries there are. -/
def SameLists (s s' : State C) : Prop :=
  s'.aliveList = s.aliveList ∧
    ∀ d, (s'.conn d).accepted = (s.conn d).accepted ∧ (s'.conn d).idle = (s.conn d).idle

section Edits

variable {m : Memory C} {s s' : State C} {l : Links (Cell C)} {c : C}

omit [DecidableEq C] in
theorem SameLists.refl (s : State C) : SameLists s s := ⟨rfl, fun _ => ⟨rfl, rfl⟩⟩

theorem SameLists.upd {f : Conn → Conn} (h : SameLists s s')
    (hf : ∀ k, (f k).accepted = k.accepted ∧ (f k).idle = k.idle) :
    SameLists s (s'.upd c f) := by
  refine ⟨h.1, fun d => ?_⟩
  by_cases hd : d = c
  · subst hd
    rw [conn_upd_self]
    exact ⟨(hf _).1.trans (h.2 d).1, (hf _).2.trans (h.2 d).2⟩
  · rw [conn_upd_of_ne s' c f hd]
    exact h.2 d

omit [DecidableEq C] in
theorem SameLists.logCompleted (h : SameLists s s') : SameLists s (s'.logCompleted c) := h

omit [DecidableEq C] in
/-- The links are not touched. -/
theorem Mirror.same (h : Mirror m) (hs : SameLists m.server s) :
    Mirror { m with server := s } := by
  obtain ⟨halive, hconn⟩ := hs
  refine ⟨?_, ?_, fun d hd => ?_, h.defined⟩
  · show s.aliveList.length ≤ 1
    rw [halive]
    exact h.short
  · show Holds m.links .alive (s.aliveList.head?.map .entry)
    rw [halive]
    exact h.alive
  · change (s.conn d).accepted = true at hd
    show Holds m.links (.idle d) (if (s.conn d).idle then some (.entry d) else none)
    rw [(hconn d).2]
    exact h.idle d ((hconn d).1 ▸ hd)

omit [DecidableEq C] in
theorem Mirror.on_iff (h : Mirror m) : c ∈ m.server.aliveList ↔ m.server.aliveList = [c] := by
  constructor
  · intro hc
    obtain ⟨a, ha⟩ := List.length_eq_one_iff.mp
      (Nat.le_antisymm h.short (List.length_pos_of_mem hc))
    rw [ha] at hc ⊢
    rw [List.mem_singleton.mp hc]
  · intro hlist
    rw [hlist]
    exact List.mem_singleton_self c

omit [DecidableEq C] in
/-- The alive list and the entry's link are written. -/
theorem Mirror.editAlive (h : Mirror m) (hwithin : Within m.links l .alive (.entry c))
    (hidle : (m.server.conn c).idle = false) {o : Option C} (hlist : s.aliveList = o.toList)
    (hholds : Holds l .alive (o.map .entry))
    (hconn : ∀ d, (s.conn d).accepted = (m.server.conn d).accepted ∧
      (s.conn d).idle = (m.server.conn d).idle) : Mirror { m with server := s, links := l } := by
  refine ⟨?_, ?_, fun d hd => ?_, h.defined⟩
  · show s.aliveList.length ≤ 1
    rw [hlist]
    exact Option.length_toList_le
  · show Holds l .alive (s.aliveList.head?.map .entry)
    rw [hlist, Option.head?_toList]
    exact hholds
  · change (s.conn d).accepted = true at hd
    rw [(hconn d).1] at hd
    show Holds l (.idle d) (if (s.conn d).idle then some (.entry d) else none)
    rw [(hconn d).2]
    refine Holds.congr (h.idle d hd) (hwithin _ nofun nofun) fun x hx => ?_
    have hdidle : (m.server.conn d).idle = true := by
      by_contra hno
      rw [if_neg hno] at hx
      cases hx
    rw [if_pos hdidle] at hx
    obtain rfl := Option.some.inj hx
    refine hwithin _ nofun fun heq => ?_
    obtain rfl := Cell.entry.inj heq
    rw [hidle] at hdidle
    cases hdidle

/-- The idle list of the connection and the entry's link are written. -/
theorem Mirror.editIdle (h : Mirror m) (hwithin : Within m.links l (.idle c) (.entry c))
    (hoff : c ∉ m.server.aliveList) (hlist : s.aliveList = m.server.aliveList)
    (hholds : Holds l (.idle c) (if (s.conn c).idle then some (.entry c) else none))
    (hconn : ∀ d, d ≠ c → (s.conn d).accepted = (m.server.conn d).accepted ∧
      (s.conn d).idle = (m.server.conn d).idle) : Mirror { m with server := s, links := l } := by
  refine ⟨?_, ?_, fun d hd => ?_, h.defined⟩
  · show s.aliveList.length ≤ 1
    rw [hlist]
    exact h.short
  · show Holds l .alive (s.aliveList.head?.map .entry)
    rw [hlist]
    refine Holds.congr h.alive (hwithin _ nofun nofun) fun x hx => ?_
    obtain ⟨d, hd, rfl⟩ := Option.map_eq_some_iff.mp hx
    refine hwithin _ nofun fun heq => ?_
    obtain rfl := Cell.entry.inj heq
    exact hoff (List.mem_of_mem_head? hd)
  · change (s.conn d).accepted = true at hd
    show Holds l (.idle d) (if (s.conn d).idle then some (.entry d) else none)
    by_cases hdc : d = c
    · subst hdc
      exact hholds
    · rw [(hconn d hdc).1] at hd
      rw [(hconn d hdc).2]
      refine Holds.congr (h.idle d hd) (hwithin _ ?_ nofun) fun x hx => ?_
      · intro heq
        exact hdc (Cell.idle.inj heq)
      · split at hx
        · obtain rfl := Option.some.inj hx
          exact hwithin _ nofun fun heq => hdc (Cell.entry.inj heq)
        · cases hx

end Edits

/-! ## Which entries the lists hold -/

section Members

variable {m : Memory C} {c : C}

omit [DecidableEq C] in
/-- The alive list of the links holds the entries that the state says. -/
theorem Mirror.lists_alive (h : Mirror m) : m.Lists .alive c ↔ c ∈ m.server.aliveList := by
  constructor
  · rintro ⟨entries, hring, hmem⟩
    rcases h.alive.mem hring hmem with heq | hsome
    · cases heq
    · obtain ⟨d, hd, heq⟩ := Option.map_eq_some_iff.mp hsome
      obtain rfl := Cell.entry.inj heq
      exact List.mem_of_mem_head? hd
  · intro hon
    have halive := h.alive
    rw [h.on_iff.mp hon] at halive
    exact ⟨[.entry c], (holds_some.mp halive).1, List.mem_singleton_self _⟩

omit [DecidableEq C] in
/-- The idle list of a target holds its connection or nothing. -/
theorem Mirror.lists_idle (h : Mirror m) {d : C} (hacc : (m.server.conn d).accepted = true)
    (hlist : m.Lists (.idle d) c) : d = c ∧ (m.server.conn c).idle = true := by
  obtain ⟨entries, hring, hmem⟩ := hlist
  rcases (h.idle d hacc).mem hring hmem with heq | hsome
  · cases heq
  · split at hsome
    · next hidle =>
      obtain rfl := Cell.entry.inj (Option.some.inj hsome)
      exact ⟨rfl, hidle⟩
    · cases hsome

end Members

/-! ## The steps that use no list -/

section Unlisted

variable {s s' : State C}

omit [DecidableEq C] in
theorem sameLists_failRequest (error : Errno) (k : Conn) :
    (failRequest error k).accepted = k.accepted ∧ (failRequest error k).idle = k.idle := by
  unfold failRequest
  split
  · exact ⟨rfl, rfl⟩
  · exact ⟨rfl, rfl⟩

theorem sameLists_finish {c : C} {i : Nat} (hstep : finish s c i = some s') : SameLists s s' := by
  simp only [finish, Option.bind_eq_bind, Option.bind_eq_some_iff] at hstep
  obtain ⟨call, -, hstep⟩ := hstep
  cases hstep
  have hupd : SameLists s (s.upd c fun k =>
      { k with
        tails := k.tails.eraseIdx i
        ref := k.ref - 1
        released := if k.ref - 1 = 0 then k.released + 1 else k.released }) :=
    SameLists.upd (.refl s) fun _ => ⟨rfl, rfl⟩
  exact hupd

/-- The steps whose sections have no call of a list's function. -/
def Label.unlisted : Label C → Bool
  | .createRequest _ | .createRequestChecked _ | .createRequestSession _ _ | .appendMessage _ _
  | .appendMessageDone _ | .readEnds _ _ | .writeEnds _ _ | .handlePipe _
  | .handleWriteResult _ _ _ _ | .finish _ _ | .replyFails _ _ | .sendMessageSync _ _
  | .sendMessageAsync _ _ | .shutdownService | .deinit => true
  | _ => false

theorem sameLists_step {a : Label C} (ha : a.unlisted = true) (hstep : step s a = some s') :
    SameLists s s' := by
  cases a
  case finish => exact sameLists_finish hstep
  case deinit =>
    cases hstep
    exact .refl s
  case shutdownService =>
    cases hstep
    exact .refl s
  all_goals first | exact Bool.noConfusion ha | clear ha
  -- the others are compositions of edits of one connection
  all_goals
    simp only [step, createRequest, createRequestChecked, createRequestSession, appendMessage,
      appendMessageDone, readEnds, writeEnds, handlePipe, handleWriteResult, handleReplyResult,
      replyFails, sendMessageSync, sendMessageAsync] at hstep
    repeat' split at hstep
    all_goals cases hstep
    all_goals repeat' first
      | with_reducible first
        | exact .refl s
        | apply SameLists.upd
        | apply SameLists.logCompleted
      | split
      | exact sameLists_failRequest _
      | exact fun _ => ⟨rfl, rfl⟩

end Unlisted

end WorkflowKernel.Communicator.Server
