import WorkflowKernel.Communicator.Server.Mirror

/-!
# The replies of a service

`replies` is the server on its links with the history of its replies beside it: what
`keep_alive_timeout()` returned, and the disposition that a completed reply calls for. The history is
read by no section. All of the server runs, so the peer may end the stream between the last byte of a
reply and the section that completes it, and `shutdown_service` may come anywhere.

`Uniform` is what a completed reply should leave, and `Footing` the invariant of one connection:
where it stands, if its reply has completed, and what the thread that completes it relies on.

## What is proved

- `Footing.calm`, `Footing.busy`, `Footing.begin`, `Footing.complete`: the four kinds of edits.
- `Footing.stands`: what the invariant says at the end, `Spent.left` for a connection that nobody but
  the threads that leave has.
-/

namespace WorkflowKernel.Communicator.Server

open WorkflowKernel.Transition
open WorkflowKernel.ListHead

variable {C : Type}

/-! ## The dispositions -/

/-- What a completed reply leaves. -/
inductive Disposition
  | keepAlive (timeout : Int)
  | closing
  deriving DecidableEq, Repr

/-- What it should leave, `late` when `listen_fd` was closed. -/
def disposition (timeout : Int) (late : Bool) : Disposition :=
  if timeout = 0 ∨ late = true then .closing else .keepAlive timeout

@[simp] theorem disposition_zero (late : Bool) : disposition 0 late = .closing := if_pos (.inl rfl)

@[simp] theorem disposition_late (timeout : Int) : disposition timeout true = .closing :=
  if_pos (.inr rfl)

theorem disposition_open {timeout : Int} (ht : timeout ≠ 0) :
    disposition timeout false = .keepAlive timeout := if_neg (by simp [ht])

/-- The server, what `keep_alive_timeout()` returned last for the session on each connection, and
the disposition of the connections whose reply has completed: until `create_request` takes up the
next request, or the poller ends the read operation. -/
structure Replies (C : Type) where
  memory : Memory C
  timeout : C → Int
  reply : C → Option Disposition

/-- The connection is `CONN_STATE_KEEPALIVE`, on the alive list and armed; or it is out of the poller
and closing, or released, or will be when the threads that leave have dropped their references. -/
def Stands (m : Memory C) (c : C) : Disposition → Prop
  | .keepAlive timeout => (m.server.conn c).state = .keepalive ∧ m.Lists .alive c ∧
      (m.server.conn c).reg = some (.read, timeout)
  | .closing => (m.server.conn c).reg = none ∧
      ((m.server.conn c).state = .closing ∨ (m.server.conn c).released = 1 ∨
        (m.server.conn c).tails ≠ [] ∧ (m.server.conn c).ref = (m.server.conn c).tails.length)

/-- The law: a connection whose reply has completed stands as it should, and one whose reply
completed after `listen_fd` was closed is out of the poller. -/
structure Uniform (r : Replies C) : Prop where
  defined : r.memory.undefined = false
  stands : ∀ c d, r.reply c = some d → Stands r.memory c d
  late : ∀ c, .completed c true ∈ r.memory.server.log → (r.memory.server.conn c).reg = none

/-! ## The history -/

section History

variable [DecidableEq C]

def Replies.timeoutAfter (r : Replies C) : Label C → C → Int
  | .sendMessageSync c timeout | .handleWriteResult c _ timeout _ =>
    Function.update r.timeout c timeout
  | _ => r.timeout

/-- The reply on a connection completes. -/
def Replies.complete (r : Replies C) (c : C) (timeout : Int) : C → Option Disposition :=
  Function.update r.reply c (some (disposition timeout r.memory.server.late))

def Replies.replyAfter (r : Replies C) (m : Memory C) : Label C → C → Option Disposition
  | .sendMessageSync c timeout => if timeout = 0 then r.complete c timeout else r.reply
  | .handleWriteResult c res timeout _ =>
    if res.1 = .finished ∧ timeout = 0 then r.complete c timeout else r.reply
  | .sendMessageSyncService c | .handleReplyResultService c => r.complete c (r.timeout c)
  | .createRequestService c =>
    if (r.memory.server.conn c).state = .keepalive then Function.update r.reply c none else r.reply
  | .readEnds c _ => Function.update r.reply c none
  | .drain _ | .shutdownServiceDrain => fun c =>
    if c ∈ r.memory.server.aliveList ∧ c ∉ m.server.aliveList then
      (r.reply c).map fun _ => .closing
    else r.reply c
  | _ => r.reply

/-- The server's step, and its history. -/
def Replies.step (L : ListLib (Cell C)) (fuel : Nat) (r : Replies C) (a : Label C) :
    Option (Replies C) :=
  (Memory.step L fuel r.memory a).map fun m =>
    { memory := m, timeout := r.timeoutAfter a, reply := r.replyAfter m a }

/-- The server with its history. -/
def replies (L : ListLib (Cell C)) (fuel : Nat) : System (Replies C) (Label C) where
  Init r := (memory L fuel).Init r.memory ∧ ∀ c, r.reply c = none
  step := Replies.step L fuel

/-- `stop_flag` stays clear and `mpoller_add` succeeds. -/
def Undisturbed : Label C → Prop
  | .deinit => False
  | .handleWriteResult _ _ _ added => added = true
  | _ => True

/-- A section that makes a connection `CONN_STATE_KEEPALIVE` finds it registered. -/
def Registered (m : Memory C) : Label C → Prop
  | .sendMessageSyncService c | .handleReplyResultService c =>
    0 ≤ m.server.listenFd → (m.server.conn c).reg.isSome = true
  | _ => True

/-- The condition. -/
def ReplyKept (r : Replies C) (a : Label C) : Prop :=
  Undisturbed a ∧ ListsKept r.memory a ∧ Registered r.memory a

end History

/-! ## One connection -/

section Conn

variable {timeout : Int} {reply : Option Disposition} {late on on' : Prop} {k k' : Conn}

/-- The reply of a connection that is not kept alive has been sent by the poller. -/
structure Spent (k : Conn) : Prop where
  state : k.state = .idle
  idle : k.idle = false
  holder : k.holder = .none
  writeResults : k.writeResults = []

/-- What the disposition of a connection needs; `on` when it is on the alive list. -/
def Tracked (on : Prop) (k : Conn) : Disposition → Prop
  | .keepAlive timeout => on ∧ k.reg = some (.read, timeout)
  | .closing => k.reg = none ∧ (k.state = .closing ∨ Spent k)

/-- No reply has completed that the connection could have a disposition from. -/
def Busy (on : Prop) (k : Conn) : Prop := ∀ d, ¬ Tracked on k d

/-- A thread is between the two sections that complete a reply. -/
def Holder.completing : Holder → Bool
  | .replyService | .resultService _ => true
  | _ => false

/-- A connection and its history; `late` when its reply completed after `listen_fd` was closed. -/
structure Footing (timeout : Int) (reply : Option Disposition) (late on : Prop) (k : Conn) :
    Prop where
  pending : k.holder.completing = true → timeout ≠ 0 ∧ ∀ x, k.reg = some x → x = (.read, timeout)
  tracked : ∀ d, reply = some d → Tracked on k d
  late : late → Tracked on k .closing

/-- An edit that leaves a connection where it stands. -/
structure Calm (on : Prop) (k : Conn) (on' : Prop) (k' : Conn) : Prop where
  on : on → on'
  reg : k'.reg = k.reg
  closing : k.state = .closing → k'.state = .closing
  spent : Spent k → Spent k'
  completing : k'.holder.completing = true → k.holder.completing = true

theorem Tracked.calm (hc : Calm on k on' k') {d : Disposition} (h : Tracked on k d) :
    Tracked on' k' d := by
  cases d with
  | keepAlive t => exact ⟨hc.on h.1, hc.reg.trans h.2⟩
  | closing => exact ⟨hc.reg.trans h.1, h.2.imp hc.closing hc.spent⟩

theorem Footing.calm (h : Footing timeout reply late on k) (hc : Calm on k on' k') :
    Footing timeout reply late on' k' where
  pending hk := by
    rw [hc.reg]
    exact h.pending (hc.completing hk)
  tracked d hd := (h.tracked d hd).calm hc
  late hl := (h.late hl).calm hc

/-- A thread goes for the section that completes the reply, with the timeout `t`. -/
theorem Footing.begin {t : Int} (h : Footing timeout reply late on k) (hb : Busy on k)
    (hpending : k'.holder.completing = true → t ≠ 0 ∧ ∀ x, k'.reg = some x → x = (.read, t)) :
    Footing t reply late on' k' where
  pending := hpending
  tracked d hd := absurd (h.tracked d hd) (hb d)
  late hl := absurd (h.late hl) (hb .closing)

/-- A connection with no completed reply has no disposition yet. -/
theorem Footing.busy (h : Footing timeout reply late on k) (hb : Busy on k)
    (hpending : k'.holder.completing = true →
      k.holder.completing = true ∧ (k'.reg = k.reg ∨ k'.reg = none)) :
    Footing timeout reply late on' k' := by
  refine h.begin hb fun hk => ?_
  obtain ⟨hk, hreg⟩ := hpending hk
  obtain ⟨hne, hread⟩ := h.pending hk
  refine ⟨hne, fun x hx => ?_⟩
  rcases hreg with hreg | hreg
  · exact hread x (hreg ▸ hx)
  · rw [hreg] at hx
    cases hx

/-- The step that completes a reply. -/
theorem Footing.complete {d : Disposition} {late' : Prop} (h : Footing timeout reply late on k)
    (hb : Busy on k) (hholder : k'.holder.completing = false) (htracked : Tracked on' k' d)
    (hlate : late' → late ∨ d = .closing) : Footing timeout (some d) late' on' k' where
  pending hk := by
    rw [hholder] at hk
    cases hk
  tracked d' hd := Option.some.inj hd ▸ htracked
  late hl := by
    rcases hlate hl with hl | hd
    · exact absurd (h.late hl) (hb .closing)
    · exact hd ▸ htracked

/-- A connection that is not closing, not sent away and not both listed and registered. -/
theorem busy_of (hkeep : on → k.reg = none) (hclosing : k.state ≠ .closing) (hspent : ¬ Spent k) :
    Busy on k := by
  intro d hd
  cases d with
  | keepAlive t =>
    have hreg := hkeep hd.1
    rw [hd.2] at hreg
    cases hreg
  | closing => exact hd.2.elim hclosing hspent

/-- A state that no disposition has. -/
theorem ConnOk.busy (h : ConnOk on k) (hkeep : k.state ≠ .keepalive) (hclosing : k.state ≠ .closing)
    (hidle : k.state ≠ .idle) : Busy on k :=
  busy_of (fun hon => absurd (h.alive hon) hkeep) hclosing fun hs => hidle hs.state

/-- An idle connection that has a request or a reply on the way. -/
theorem ConnOk.busyIdle (h : ConnOk on k) (hs : k.state = .idle) (hspent : ¬ Spent k) :
    Busy on k := by
  refine busy_of (fun hon => ?_) (by rw [hs]; decide) hspent
  have halive := h.alive hon
  rw [hs] at halive
  cases halive

theorem ConnOk.busyReplying (h : ConnOk on k) (hrep : k.holder.replying = true) : Busy on k := by
  refine h.busyIdle (h.replying hrep).1 fun hs => ?_
  rw [hs.holder] at hrep
  cases hrep

theorem Holder.completing_replying {h : Holder} (hc : h.completing = true) : h.replying = true := by
  cases h with
  | replyService => rfl
  | resultService error => rfl
  | none | terminal | replySend => cases hc

/-- A connection whose poller has sent the reply: nobody but the threads that leave has it. -/
theorem Spent.left (h : Spent k) (hc : Counted on k) (hok : ConnOk on k) (hreg : k.reg = none) :
    k.released = 1 ∨ k.tails ≠ [] ∧ k.ref = k.tails.length := by
  have hw : ¬ k.writing := by simp [Conn.writing, hreg, h.writeResults]
  have htok : k.tokens = 0 := by
    rcases hok.offIdle h.state with hidle | hrep | hwriting | htok
    · rw [h.idle] at hidle
      cases hidle
    · rw [h.holder] at hrep
      cases hrep
    · exact absurd hwriting hw
    · exact htok
  have hrefs : k.refs = k.tails.length := by
    simp only [Conn.refs, htok, h.holder, Holder.refs, h.state, reduceCtorEq, if_false]
    omega
  have hacc : k.accepted = true := by
    simpa using hok.accepted (by rw [h.state]; decide)
  by_cases htails : k.tails = []
  · left
    have hzero : k.refs = 0 := by rw [hrefs, htails]; rfl
    rw [hc.released, if_pos ⟨hacc, hzero⟩]
  · exact .inr ⟨htails, by rw [hc.ref, hrefs]⟩

/-- What the invariants say of a tracked connection. -/
theorem Footing.stands {m : Memory C} {c : C} (h : Mirrored m)
    (hs : Footing timeout reply late (c ∈ m.server.aliveList) (m.server.conn c))
    {d : Disposition} (hd : reply = some d) : Stands m c d := by
  have ht := hs.tracked d hd
  cases d with
  | keepAlive t =>
    exact ⟨(h.inv.conns c).alive ht.1, h.mirror.lists_alive.mpr ht.1, ht.2⟩
  | closing =>
    refine ⟨ht.1, ht.2.imp_right fun hspent => ?_⟩
    exact hspent.left (h.refs.conns c) (h.inv.conns c) ht.1

end Conn

end WorkflowKernel.Communicator.Server
