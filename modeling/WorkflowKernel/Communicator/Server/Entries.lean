import WorkflowKernel.Communicator.Server.Sessions
import WorkflowKernel.Communicator.Server.Mirror

/-!
# Sessions and entries on the links

What becomes of the sessions and of the entries of a service, in the runs on the links. A wrongly
linked list would have an entry unlinked or drained that is not there, so the laws are about the runs
in which each list is kept.

## What is proved

- `sessions`: the calls of `handle()` in such a run are those of a run of the ledger, so no session is
  asked or closed twice, and none is forgotten.
- `entry_once`: in such a run an entry is released once, when nobody has it any more; it is on no list
  then, and no step uses it.
-/

namespace WorkflowKernel.Communicator.Server

open WorkflowKernel.Transition
open WorkflowKernel.ListHead

variable {C : Type} [DecidableEq C] {L : ListLib (Cell C)} {fuel : Nat}

/-! ## The sessions -/

/-- The service on its links, with the sessions that the waiting threads carry, and the calls of
`handle()`. -/
structure Booked (C : Type) where
  memory : Memory C
  carried : C → List Nat
  calls : List (C × Nat × CsState)

def Booked.ledger (b : Booked C) : Ledger C where
  server := b.memory.server
  carried := b.carried
  calls := b.calls

def Booked.step (L : ListLib (Cell C)) (fuel : Nat) (b : Booked C) (a : Label C) :
    Option (Booked C) :=
  (Memory.step L fuel b.memory a).map fun m =>
    let l := b.ledger.recorded a m.server
    { memory := m, carried := l.carried, calls := l.calls }

/-- The service on its links with the ledger beside it. -/
def booked (L : ListLib (Cell C)) (fuel : Nat) : System (Booked C) (Label C) where
  Init b := (memory L fuel).Init b.memory ∧ b.carried = (fun _ => []) ∧ b.calls = []
  step := Booked.step L fuel

theorem server_recorded (l : Ledger C) (a : Label C) (s : State C) :
    (l.recorded a s).server = s := by
  cases a <;> rfl

/-- A run in which the lists are kept is a run of the ledger. -/
theorem booked_follows : Simulation (booked L fuel) (ledger C) (fun b a => ListsKept b.memory a)
    (fun _ _ => True) fun b l => b.ledger = l ∧ Mirrored b.memory where
  init := by
    rintro b ⟨hinit, hcarried, hcalls⟩
    have hmirrored := mirrored.init _ hinit
    obtain ⟨listenFd, links, hm⟩ := hinit
    refine ⟨b.ledger, ⟨listenFd, ?_⟩, rfl, hmirrored⟩
    rw [Booked.ledger, hm, hcarried, hcalls]
  step := by
    rintro b l a b' ⟨rfl, hmirrored⟩ hok hstep
    obtain ⟨m, hm, rfl⟩ := Option.map_eq_some_iff.mp hstep
    obtain ⟨hserver, hmirrored'⟩ := hmirrored.step hok hm
    refine ⟨b.ledger.recorded a m.server, ⟨?_, hmirrored'⟩, .inr ⟨a, trivial, ?_⟩⟩
    · have heq : ∀ l : Ledger C, l.server = m.server → ⟨m.server, l.carried, l.calls⟩ = l := by
        rintro ⟨server, carried, calls⟩ rfl
        rfl
      exact heq _ (server_recorded b.ledger a m.server)
    · show (Server.step b.memory.server a).map (b.ledger.recorded a) = _
      rw [hserver]
      rfl

/-- Every session is asked at most once and closed at most once. -/
theorem sessions {b : Booked C}
    (h : (booked L fuel).Reaches (fun b a => ListsKept b.memory a) b) : Sessions b.ledger := by
  obtain ⟨l, hl, rfl, -⟩ := booked_follows.reaches h
  exact ledger_sessions hl

/-- The first session is replied to, the second one is asked when its connection has ended. -/
def sessionsRun : List (Label Nat) :=
  [.acceptConn 0 10, .createRequest 0, .createRequestService 0,
    .createRequestSession 0 (.session 10 true 0), .appendMessageDone 0,
    .handleReadResult 0 (.success, 0), .replyReliable 0, .sendMessageSync 0 60,
    .sendMessageSyncService 0, .finish 0 1, .createRequest 0, .createRequestService 0,
    .createRequestSession 0 (.session 10 true 0), .finish 0 0, .appendMessageDone 0,
    .readEnds 0 (.finished, 0), .handleReadResult 0 (.finished, 0),
    .handleReadResult 0 (.success, 0), .finish 0 0]

theorem sessions_run : ∃ b : Booked Nat,
    (booked .usual 2).Reaches (fun b a => ListsKept b.memory a) b ∧
    b.calls = [(0, 1, .success), (0, 1, .toreply), (0, 2, .toreply)] ∧
    (b.memory.server.conn 0).released = 1 ∧ Sessions b.ledger := by
  have hrun : ((booked .usual 2).runIf (fun b a => listsKeptB b.memory a)
      ⟨Memory.start, fun _ => [], []⟩ sessionsRun).map
      (fun b => (b.calls, (b.memory.server.conn 0).released)) =
      some ([(0, 1, .success), (0, 1, .toreply), (0, 2, .toreply)], 1) := by decide +kernel
  obtain ⟨b, hb, hcalls⟩ := Option.map_eq_some_iff.mp hrun
  have hreach : (booked .usual 2).Reaches (fun b a => ListsKept b.memory a) b :=
    System.reaches_of_runIf (fun b a h => listsKept_of_check b.memory a h)
      ⟨memory_start _ _, rfl, rfl⟩ hb
  exact ⟨b, hreach, congrArg Prod.fst hcalls, congrArg Prod.snd hcalls, sessions hreach⟩

/-! ## The entries -/

/-- Nobody has the entry any more. What may be left are results of replaced read operations. -/
structure Conn.Left (k : Conn) : Prop where
  reg : k.reg = none
  phase : k.phase = .rest
  msg : k.msg = false
  holder : k.holder = .none
  idle : k.idle = false
  tails : k.tails = []
  pipe : ∀ p ∈ k.pipe, p.2 = .modified
  reads : ∀ r ∈ k.readResults, r.1 = .modified
  writes : k.writeResults = []

/-- The entries that a step uses; a drain uses those of the alive list. -/
def Memory.Uses (m : Memory C) : Label C → C → Prop
  | .drain _, c | .shutdownServiceDrain, c => m.Lists .alive c
  | a, c => a.uses = some c

structure EntryOnce (L : ListLib (Cell C)) (fuel : Nat) (m : Memory C) (c : C) : Prop where
  once : (m.server.conn c).released ≤ 1
  /-- An entry is released when nobody has it any more, and then at once. -/
  released_iff : (m.server.conn c).released = 1 ↔
    (m.server.conn c).accepted = true ∧ (m.server.conn c).Left
  ref : (m.server.conn c).released = 1 → (m.server.conn c).ref = 0
  /-- It is on no list then. -/
  unlisted : (m.server.conn c).released = 1 → ¬ m.Lists .alive c ∧
    ∀ d, (m.server.conn d).accepted = true → ¬ m.Lists (.idle d) c
  /-- No step looks into it after that. -/
  unused : ∀ a m', Memory.step L fuel m a = some m' → m.Uses a c →
    (m.server.conn c).released = 0

section Entries

variable {on : Prop} {k : Conn} {m m' : Memory C} {c : C} {a : Label C}

theorem Counted.left_iff (h : Counted on k) : k.refs = 0 ↔ k.Left := by
  constructor
  · intro hzero
    obtain ⟨hreg, hphase, hmsg, hholder, hidle, htails, hwrites, hreads⟩ := h.gone hzero
    refine ⟨hreg, hphase, hmsg, hholder, hidle, htails, ?_, hreads, hwrites⟩
    rw [Conn.refs, tokens_eq] at hzero
    have hremoved : removed k.pipe = 0 := by omega
    intro p hp
    have hterminal := List.countP_eq_zero.mp hremoved p hp
    have hsuccess := (h.reads p hp).2
    cases hstate : p.2 <;> simp_all [PrState.terminal]
  · intro hleft
    have hremoved : removed k.pipe = 0 :=
      List.countP_eq_zero.mpr fun p hp => by simp [hleft.pipe p hp, PrState.terminal]
    have hended : ended k.readResults = 0 :=
      List.countP_eq_zero.mpr fun r hr => by simp [hleft.reads r hr, PrState.terminal]
    have hsuccesses : k.successes = 0 :=
      List.countP_eq_zero.mpr fun r hr => by simp [hleft.reads r hr]
    simp [Conn.refs, tokens_eq, hremoved, hended, hsuccesses, hleft.reg, hleft.holder, hleft.tails,
      hleft.writes, registered_none, Holder.refs]

/-- Nobody has a released entry. -/
theorem Counted.refs_of_released (h : Counted on k) (hone : k.released = 1) : k.refs = 0 := by
  by_contra hrefs
  have hreleased := h.released
  rw [if_neg fun hgone => hrefs hgone.2] at hreleased
  omega

omit [DecidableEq C] in
/-- An entry that a list holds has its operation in the poller, or its end on the way. -/
theorem Mirrored.held_of_lists (h : Mirrored m) {head : Cell C}
    (hhead : head = .alive ∨ ∃ d, head = .idle d ∧ (m.server.conn d).accepted = true)
    (hlist : m.Lists head c) : 0 < (m.server.conn c).refs := by
  have hc := h.refs.conns c
  have htokens : (m.server.conn c).tokens = 1 := by
    rcases hhead with rfl | ⟨d, rfl, hacc⟩
    · exact hc.listed (h.mirror.lists_alive.mp hlist)
    · exact hc.held (.inl (h.mirror.lists_idle hacc hlist).2)
  rw [Conn.refs]
  omega

/-- A step on the links that uses one entry is one of the connections' model. -/
theorem Mirrored.server_step (h : Mirrored m) (hstep : Memory.step L fuel m a = some m')
    (huses : a.uses = some c) : ∃ s', Server.step m.server a = some s' := by
  cases a
  case drain => cases huses
  case shutdownServiceDrain => cases huses
  case replyReliable => exact ⟨_, (mirror_replyReliable h.mirror h.inv hstep).1⟩
  case targetShutdown => exact ⟨_, (mirror_targetShutdown h.mirror h.inv hstep).1⟩
  all_goals
    obtain ⟨s', hs', -⟩ := write_eq hstep
    exact ⟨s', hs'⟩

/-- A step that uses an entry finds a reference to it. -/
theorem Mirrored.step_held (h : Mirrored m) (hstep : Memory.step L fuel m a = some m')
    (huses : m.Uses a c) : 0 < (m.server.conn c).refs := by
  have hone : a.uses = some c → 0 < (m.server.conn c).refs := by
    intro hc
    obtain ⟨s', hs'⟩ := h.server_step hstep hc
    exact Server.step_held h.refs hs' hc
  cases a
  case drain => exact h.held_of_lists (.inl rfl) huses
  case shutdownServiceDrain => exact h.held_of_lists (.inl rfl) huses
  all_goals exact hone huses

/-- An entry is released once, when it is left, in every run in which the lists are kept. -/
theorem entry_once (h : (memory L fuel).Reaches ListsKept m) (c : C) : EntryOnce L fuel m c := by
  have hmirrored := mirrored.holds h
  have hc := hmirrored.refs.conns c
  have hreleased := hc.released
  constructor
  case once =>
    rw [hreleased]
    split
    · exact Nat.le_refl 1
    · exact Nat.zero_le 1
  case released_iff =>
    rw [hreleased, ← hc.left_iff]
    by_cases hgone : (m.server.conn c).accepted = true ∧ (m.server.conn c).refs = 0
    · simp [hgone]
    · simp [hgone]
  case ref =>
    intro hone
    rw [hc.ref, hc.refs_of_released hone]
    rfl
  case unlisted =>
    intro hone
    have hzero := hc.refs_of_released hone
    refine ⟨fun hlist => ?_, fun d hd hlist => ?_⟩
    · exact absurd hzero (Nat.ne_of_gt (hmirrored.held_of_lists (.inl rfl) hlist))
    · exact absurd hzero (Nat.ne_of_gt (hmirrored.held_of_lists (.inr ⟨d, rfl, hd⟩) hlist))
  case unused =>
    intro a m' hstep huses
    have hpos := hmirrored.step_held hstep huses
    rw [hreleased, if_neg]
    exact fun hgone => absurd hgone.2 (Nat.ne_of_gt hpos)

end Entries

/-- A request is answered and its connection drained, beside another one that is being received. -/
def entryRun : List (Label Nat) :=
  .acceptConn 0 10 :: requestRun 0 ++ syncReplyRun 0 ++
    [.acceptConn 1 10, .createRequest 1, .drain (-1), .handlePipe 0,
      .handleReadResult 0 (.deleted, 0), .finish 0 0]

theorem entry_once_run : ∃ m, (memory (C := Nat) .usual 2).Reaches ListsKept m ∧
    (m.server.conn 0).released = 1 ∧ (m.server.conn 1).released = 0 ∧ EntryOnce .usual 2 m 0 := by
  have hrun : ((memory .usual 2).runIf listsKeptB Memory.start entryRun).map
      (fun m => ((m.server.conn 0).released, (m.server.conn 1).released)) = some (1, 0) := by
    decide +kernel
  obtain ⟨m, hm, hreleased⟩ := Option.map_eq_some_iff.mp hrun
  have hreach := System.reaches_of_runIf (M := memory .usual 2) listsKept_of_check
    (memory_start _ _) hm
  exact ⟨m, hreach, congrArg Prod.fst hreleased, congrArg Prod.snd hreleased, entry_once hreach 0⟩

end WorkflowKernel.Communicator.Server
