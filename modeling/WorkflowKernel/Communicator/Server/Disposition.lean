import WorkflowKernel.Communicator.Server.Completion

/-!
# What becomes of a connection when its reply completes

A reply completes in the tail of `send_message_sync` or, when the poller had to send the rest, in
`handle_reply_result`.

## What is proved

- `uniform_of_listsKept`: both ways to complete a reply leave the connection in the disposition that
  the timeout and `listen_fd` call for, in every run in which each section that links an entry into
  the alive list finds the lists empty and the connection registered, and the section of
  `send_message_sync` finds `listen_fd` open.
- `sync_reply_stays_registered`: otherwise the synchronous completion leaves the connection in the
  poller, on no list and not closing; the sibling in `handle_reply_result` deletes it.
-/

namespace WorkflowKernel.Communicator.Server

open WorkflowKernel.Transition
open WorkflowKernel.ListHead

variable {C : Type}

/-! ## The other connections -/

section Others

variable [DecidableEq C] {s s' : State C} {c : C}

/-- Nothing happens to any other connection, and `stop_flag` is as it was. -/
structure Others (c : C) (s s' : State C) : Prop where
  stopFlag : s'.stopFlag = s.stopFlag
  conn : ∀ d, d ≠ c → s'.conn d = s.conn d
  mem : ∀ d, d ≠ c → (d ∈ s'.aliveList ↔ d ∈ s.aliveList)
  completed : ∀ d, d ≠ c → ∀ late, .completed d late ∈ s'.log ↔ .completed d late ∈ s.log

omit [DecidableEq C] in
theorem Others.refl (c : C) (s : State C) : Others c s s :=
  ⟨rfl, fun _ _ => rfl, fun _ _ => Iff.rfl, fun _ _ _ => Iff.rfl⟩

/-- An edit of the connection itself. -/
theorem Others.upd (h : Others c s s') (f : Conn → Conn) : Others c s (s'.upd c f) :=
  ⟨h.stopFlag, fun d hd => (conn_upd_of_ne s' c f hd).trans (h.conn d hd), h.mem, h.completed⟩

omit [DecidableEq C] in
/-- An event that is no completion, or one of this connection. -/
theorem Others.logged (h : Others c s s') {e : Event C}
    (he : ∀ d late, e = .completed d late → d = c) :
    Others c s { s' with log := s'.log ++ [e] } := by
  refine ⟨h.stopFlag, h.conn, h.mem, fun d hd late => ?_⟩
  rw [← h.completed d hd late]
  refine List.mem_append.trans (or_iff_left fun hmem => ?_)
  exact hd (he d late (List.mem_singleton.mp hmem).symm)

/-- Its own place in the alive list is no other entry's. -/
theorem Others.unlinkAlive (h : Others c s s') : Others c s (s'.unlinkAlive c) := by
  have hlog := h.logged (e := .unlink .alive c (decide (c ∈ s'.aliveList))) nofun
  refine ⟨h.stopFlag, h.conn, fun d hd => ?_, hlog.completed⟩
  rw [← h.mem d hd]
  exact List.mem_erase_of_ne hd

/-- Nor is the one that it gets. -/
theorem Others.linkAlive (h : Others c s s') : Others c s (s'.linkAlive c) := by
  have hlog := h.logged
    (e := .link .alive c (decide (c ∉ s'.aliveList ∧ (s'.conn c).idle = false))) nofun
  refine ⟨h.stopFlag, h.conn, fun d hd => ?_, hlog.completed⟩
  rw [← h.mem d hd]
  refine List.mem_append.trans (or_iff_left fun hmem => ?_)
  exact hd (List.mem_singleton.mp hmem)

theorem Others.unlinkIdle (h : Others c s s') : Others c s (s'.unlinkIdle c) :=
  (h.upd _).logged nofun

theorem Others.linkIdle (h : Others c s s') : Others c s (s'.linkIdle c) :=
  (h.upd _).logged nofun

omit [DecidableEq C] in
/-- A completed reply is its own event. -/
theorem Others.logCompleted (h : Others c s s') : Others c s (s'.logCompleted c) :=
  h.logged fun d late he => by
    cases he
    rfl

/-- A thread that leaves drops a reference of its own entry. -/
theorem others_finish {i : Nat} (hstep : finish s c i = some s') : Others c s s' := by
  simp only [finish, Option.bind_eq_bind, Option.bind_eq_some_iff] at hstep
  obtain ⟨call, -, hstep⟩ := hstep
  cases hstep
  have hupd := (Others.refl c s).upd fun k =>
    { k with
      tails := k.tails.eraseIdx i
      ref := k.ref - 1
      released := if k.ref - 1 = 0 then k.released + 1 else k.released }
  exact ⟨hupd.stopFlag, hupd.conn, hupd.mem, hupd.completed⟩

/-- The connection that a step is about. -/
def Label.about : Label C → Option C
  | .acceptConn c _ | .createRequest c | .createRequestChecked c | .createRequestService c
  | .createRequestSession c _ | .appendMessage c _ | .appendMessageDone c | .readEnds c _
  | .writeEnds c _ | .handlePipe c | .handleReadResult c _ | .handleIncomingRequestService c
  | .handleWriteResult c _ _ _ | .handleReplyResultService c | .finish c _ | .replyReliable c
  | .replyFails c _ | .sendMessageSync c _ | .sendMessageSyncService c | .sendMessageAsync c _
  | .targetShutdown c => some c
  | .drain _ | .shutdownService | .shutdownServiceDrain | .deinit => none

/-- A step about one connection leaves the others alone. -/
theorem others_step {a : Label C} (ha : a.about = some c) (hstep : step s a = some s') :
    Others c s s' := by
  cases a
  case finish =>
    cases ha
    exact others_finish hstep
  all_goals cases ha
  -- the others are compositions of edits of the connection and of its links
  all_goals
    simp only [step, acceptConn, createRequest, createRequestChecked, createRequestService,
      createRequestSession, appendMessage, appendMessageDone, readEnds, writeEnds, handlePipe,
      handleReadResult, handleIncomingRequest, handleIncomingRequestService, handleWriteResult,
      handleReplyResult, handleReplyResultService, replyReliable, replyFails, sendMessageSync,
      sendMessageSyncService, sendMessageAsync, targetShutdown] at hstep
    repeat' split at hstep
    all_goals cases hstep
    all_goals repeat' with_reducible first
      | exact Others.refl c s
      | apply Others.upd
      | apply Others.logCompleted
      | apply Others.unlinkAlive
      | apply Others.linkAlive
      | apply Others.unlinkIdle
      | apply Others.linkIdle

/-- A drain of a list of at most one entry. -/
theorem drain_short (hshort : s.aliveList.length ≤ 1) (max : Int) :
    drain s max = s ∨ ∃ c, s.aliveList = [c] ∧ drain s max = drainOne s c := by
  cases hlist : s.aliveList with
  | nil => exact .inl (by rw [drain, hlist]; rfl)
  | cons c rest =>
    obtain rfl : rest = [] := by
      rw [hlist] at hshort
      exact List.eq_nil_of_length_eq_zero (Nat.le_zero.mp (Nat.le_of_succ_le_succ hshort))
    rw [drain, hlist, drainLoop]
    split
    · exact .inl rfl
    · exact .inr ⟨c, rfl, rfl⟩

/-- So does the draining of one. -/
theorem others_drainOne : Others c s (drainOne s c) :=
  (((Others.refl c s).unlinkAlive).upd _).logged nofun

end Others

/-! ## Every step -/

section Steps

variable [DecidableEq C] {L : ListLib (Cell C)} {fuel : Nat} {r r' : Replies C} {a : Label C}

/-- The invariant of a run with its history. -/
structure Traced (r : Replies C) : Prop where
  mirrored : Mirrored r.memory
  running : r.memory.server.stopFlag = false
  stands : ∀ c, StandsAt r.memory.server c (r.timeout c) (r.reply c)

/-- The history of the other connections. -/
theorem history_of_ne {m : Memory C} {c d : C} (ha : a.about = some c) (hd : d ≠ c) :
    r.timeoutAfter a d = r.timeout d ∧ r.replyAfter m a d = r.reply d := by
  have hupdate : ∀ {β : Type} (f : C → β) (v : β), Function.update f c v d = f d :=
    fun f v => Function.update_of_ne hd v f
  cases a
  all_goals cases ha
  all_goals
    refine ⟨?_, ?_⟩
    · first | rfl | exact hupdate _ _
    · simp only [Replies.replyAfter, Replies.complete]
      repeat' split
      all_goals first | rfl | exact hupdate _ _

/-- The connection that the step is about. -/
theorem standsAt_about {s' : State C} {m : Memory C} {c : C} (h : Traced r) (hok : ReplyKept r a)
    (ha : a.about = some c) (hstep : step r.memory.server a = some s') :
    StandsAt s' c (r.timeoutAfter a c) (r.replyAfter m a c) := by
  obtain ⟨hundisturbed, hlists, hregistered⟩ := hok
  have hc := h.stands c
  have hinv := h.mirrored.inv
  cases a
  all_goals cases ha
  case acceptConn => exact standsAt_acceptConn hc hinv hstep
  case createRequest => exact standsAt_createRequest hc hstep
  case createRequestChecked => exact standsAt_createRequestChecked hc hstep
  case createRequestService =>
    have hstands := standsAt_createRequestService hc hinv hstep
    simp only [Replies.replyAfter, Replies.timeoutAfter]
    split
    · next hkeep =>
      rw [if_pos hkeep] at hstands
      rwa [Function.update_self]
    · next hkeep => rwa [if_neg hkeep] at hstands
  case createRequestSession => exact standsAt_createRequestSession hc hinv hstep
  case appendMessage => exact standsAt_appendMessage hc hinv hstep
  case appendMessageDone => exact standsAt_appendMessageDone hc hinv hstep
  case readEnds =>
    simp only [Replies.replyAfter, Replies.timeoutAfter, Function.update_self]
    exact standsAt_readEnds hc hstep
  case writeEnds => exact standsAt_writeEnds hc hstep
  case handlePipe => exact standsAt_handlePipe hc hinv hstep
  case handleReadResult => exact standsAt_handleReadResult hc hinv hstep
  case handleIncomingRequestService =>
    exact standsAt_handleIncomingRequestService hc hinv h.mirrored.refs hstep
  case handleWriteResult res timeout added =>
    obtain rfl : added = true := hundisturbed
    have hstands := standsAt_handleWriteResult hc hinv hstep
    simp only [Replies.replyAfter, Replies.timeoutAfter, Replies.complete, Function.update_self]
    split
    · next hdone =>
      rw [if_pos hdone] at hstands
      rwa [Function.update_self]
    · next hdone => rwa [if_neg hdone] at hstands
  case handleReplyResultService =>
    simp only [Replies.replyAfter, Replies.timeoutAfter, Replies.complete, Function.update_self]
    exact standsAt_handleReplyResultService hc hinv h.running hregistered hstep
  case finish => exact standsAt_finish hc hstep
  case replyReliable => exact standsAt_replyReliable hc hinv hstep
  case replyFails => exact standsAt_replyFails hc hinv hstep
  case sendMessageSync timeout =>
    have hstands := standsAt_sendMessageSync hc hinv hstep
    simp only [Replies.replyAfter, Replies.timeoutAfter, Replies.complete, Function.update_self]
    split
    · next ht =>
      rw [if_pos ht] at hstands
      rwa [Function.update_self]
    · next ht => rwa [if_neg ht] at hstands
  case sendMessageSyncService =>
    simp only [Replies.replyAfter, Replies.timeoutAfter, Replies.complete, Function.update_self]
    exact standsAt_sendMessageSyncService hc hinv hlists.1 (hregistered hlists.1) hstep
  case sendMessageAsync => exact standsAt_sendMessageAsync hc hinv hstep
  case targetShutdown => exact standsAt_targetShutdown hc hinv hstep

omit [DecidableEq C] in
/-- The others stand as they did. -/
theorem StandsAt.others {s s' : State C} {c d : C} {timeout : Int} {reply : Option Disposition}
    (h : StandsAt s d timeout reply) (ho : Others c s s') (hd : d ≠ c) :
    StandsAt s' d timeout reply := by
  unfold StandsAt
  rw [ho.conn d hd, propext (ho.mem d hd), propext (ho.completed d hd true)]
  exact h

/-- A drain, and what becomes of the dispositions. -/
theorem standsAt_drain {s : State C} (max : Int) (hinv : Inv s)
    (hshort : s.aliveList.length ≤ 1) {timeout : C → Int} {reply : C → Option Disposition}
    (h : ∀ c, StandsAt s c (timeout c) (reply c)) (d : C) :
    StandsAt (drain s max) d (timeout d)
      (if d ∈ s.aliveList ∧ d ∉ (drain s max).aliveList then (reply d).map fun _ => .closing
        else reply d) := by
  rcases drain_short hshort max with hsame | ⟨c, hlist, hone⟩
  · rw [hsame, if_neg fun hd => hd.2 hd.1]
    exact h d
  · have hon : c ∈ s.aliveList := by
      rw [hlist]
      exact List.mem_singleton_self c
    have hgone : (drainOne s c).aliveList = [] := by
      show s.aliveList.erase c = []
      rw [hlist, List.erase_cons_head]
    rw [hone, hgone]
    by_cases hd : d = c
    · subst hd
      rw [if_pos ⟨hon, List.not_mem_nil⟩]
      exact standsAt_drainOne hinv hon
    · rw [if_neg fun hdon => hd (List.mem_singleton.mp (hlist ▸ hdon.1))]
      exact (h d).others others_drainOne hd

/-- Draining does not touch `stop_flag`. -/
theorem stopFlag_drain {s : State C} (hshort : s.aliveList.length ≤ 1) (max : Int) :
    (drain s max).stopFlag = s.stopFlag := by
  rcases drain_short hshort max with hsame | ⟨c, -, hone⟩
  · rw [hsame]
  · rw [hone]
    exact (others_drainOne (c := c)).stopFlag

/-- Every step that the condition admits keeps the history in order. -/
theorem traced_step (h : Traced r) (hok : ReplyKept r a)
    (hstep : Replies.step L fuel r a = some r') : Traced r' := by
  obtain ⟨m, hm, rfl⟩ := Option.map_eq_some_iff.mp hstep
  obtain ⟨hserver, hmirrored⟩ := h.mirrored.step hok.2.1 hm
  have hshort := h.mirrored.mirror.short
  cases ha : a.about with
  | some c =>
    have ho := others_step ha hserver
    refine ⟨hmirrored, ho.stopFlag.trans h.running, fun d => ?_⟩
    by_cases hd : d = c
    · subst hd
      exact standsAt_about h hok ha hserver
    · obtain ⟨htimeout, hreply⟩ := history_of_ne (r := r) (m := m) ha hd
      show StandsAt m.server d (r.timeoutAfter a d) (r.replyAfter m a d)
      rw [htimeout, hreply]
      exact (h.stands d).others ho hd
  | none =>
    cases a
    all_goals try (cases ha; done)
    case drain max =>
      obtain heq : drain r.memory.server max = m.server := Option.some.inj hserver
      refine ⟨hmirrored, ?_, fun d => ?_⟩
      · show m.server.stopFlag = false
        rw [← heq, stopFlag_drain hshort max]
        exact h.running
      · have hstands := standsAt_drain max h.mirrored.inv hshort h.stands d
        rw [heq] at hstands
        exact hstands
    case shutdownService =>
      obtain heq : Server.shutdownService r.memory.server = m.server := Option.some.inj hserver
      refine ⟨hmirrored, ?_, fun d => ?_⟩
      · show m.server.stopFlag = false
        rw [← heq]
        exact h.running
      · show StandsAt m.server d (r.timeout d) (r.reply d)
        rw [← heq]
        exact h.stands d
    case shutdownServiceDrain =>
      simp only [Server.step, Server.shutdownServiceDrain] at hserver
      split at hserver
      · obtain heq := Option.some.inj hserver
        have hinv : Inv { r.memory.server with shutdowns := r.memory.server.shutdowns - 1 } :=
          ⟨h.mirrored.inv.nodup, h.mirrored.inv.conns, h.mirrored.inv.log⟩
        refine ⟨hmirrored, ?_, fun d => ?_⟩
        · show m.server.stopFlag = false
          rw [← heq]
          refine (stopFlag_drain ?_ (-1)).trans h.running
          exact hshort
        · have hstands := standsAt_drain (-1) hinv hshort h.stands d
          rw [heq] at hstands
          exact hstands
      · cases hserver
    case deinit => exact absurd hok.1 id

/-- It is in order in every such run. -/
theorem traced : InductiveInvariant (replies L fuel) ReplyKept (Traced (C := C)) where
  init := by
    rintro r ⟨hinit, hreply⟩
    have hmirrored := mirrored.init _ hinit
    obtain ⟨listenFd, l, hm⟩ := hinit
    refine ⟨hmirrored, by rw [hm]; rfl, fun c => ⟨?_, ?_, ?_⟩⟩
    · rw [hm]
      nofun
    · rw [hreply c]
      nofun
    · rw [hm]
      nofun
  step _ _ _ := traced_step

omit [DecidableEq C] in
/-- What the history says about the replies. -/
theorem Traced.uniform (h : Traced r) : Uniform r where
  defined := h.mirrored.mirror.defined
  stands c _ hd := (h.stands c).stands h.mirrored hd
  late c hl := ((h.stands c).late hl).1

/-- In every run that meets the condition, both ways to complete a reply leave the connection in the
same disposition. -/
theorem uniform_of_listsKept (h : (replies L fuel).Reaches ReplyKept r) : Uniform r :=
  (traced.holds h).uniform

end Steps

/-! ## Runs -/

/-- The assumptions and the condition, as checks that run. -/
def undisturbedB : Label Nat → Bool
  | .deinit => false
  | .handleWriteResult _ _ _ added => added
  | _ => true

theorem undisturbed_of_check {a : Label Nat} (h : undisturbedB a = true) : Undisturbed a := by
  cases a with
  | deinit => cases h
  | handleWriteResult => exact h
  | _ => trivial

def registeredB (m : Memory Nat) : Label Nat → Bool
  | .sendMessageSyncService c | .handleReplyResultService c =>
    decide (m.server.listenFd < 0) || (m.server.conn c).reg.isSome
  | _ => true

theorem registered_of_check {m : Memory Nat} {a : Label Nat} (h : registeredB m a = true) :
    Registered m a := by
  have hsome : ∀ c, (decide (m.server.listenFd < 0) || (m.server.conn c).reg.isSome) = true →
      0 ≤ m.server.listenFd → (m.server.conn c).reg.isSome = true := by
    intro c hc hlisten
    simpa [Int.not_lt.mpr hlisten] using hc
  cases a with
  | sendMessageSyncService c => exact hsome c h
  | handleReplyResultService c => exact hsome c h
  | _ => trivial

def replyKeptB (r : Replies Nat) (a : Label Nat) : Bool :=
  undisturbedB a && listsKeptB r.memory a && registeredB r.memory a

theorem replyKept_of_check (r : Replies Nat) (a : Label Nat) (h : replyKeptB r a = true) :
    ReplyKept r a := by
  simp only [replyKeptB, Bool.and_eq_true] at h
  exact ⟨undisturbed_of_check h.1.1, listsKept_of_check r.memory a h.1.2, registered_of_check h.2⟩

/-- No reply yet. -/
def Replies.start : Replies Nat where
  memory := Memory.start
  timeout := fun _ => 0
  reply := fun _ => none

theorem replies_start : (replies .usual 2).Init Replies.start :=
  ⟨memory_start _ _, fun _ => rfl⟩

/-- The reply on 0 is sent at once; that on 1 is sent by the poller, and completes between the two
halves of `shutdown_service`. -/
def twoRepliesRun : List (Label Nat) :=
  .acceptConn 0 10 :: requestRun 0 ++ syncReplyRun 0 ++
    .acceptConn 1 10 :: requestRun 1 ++ asyncSentRun 1 ++
    [.shutdownService, .handleReplyResultService 1]

theorem uniform_of_listsKept_run : ∃ r, (replies (C := Nat) .usual 2).Reaches ReplyKept r ∧
    r.reply 0 = some (.keepAlive 60) ∧ r.reply 1 = some .closing ∧ Uniform r := by
  have hrun : ((replies .usual 2).runIf replyKeptB Replies.start twoRepliesRun).map
      (fun r => (r.reply 0, r.reply 1)) = some (some (.keepAlive 60), some .closing) := by
    decide +kernel
  obtain ⟨r, hr, hreply⟩ := Option.map_eq_some_iff.mp hrun
  have hreach := System.reaches_of_runIf (M := replies .usual 2) replyKept_of_check replies_start hr
  exact ⟨r, hreach, congrArg Prod.fst hreply, congrArg Prod.snd hreply, uniform_of_listsKept hreach⟩

/-- The service is shut down before a synchronous reply completes: no list has been written wrongly,
and the connection stays in the poller. -/
theorem sync_reply_stays_registered : ∃ r,
    (replies (C := Nat) .usual 2).Reaches (fun _ a => Undisturbed a) r ∧
    r.memory.undefined = false ∧ .completed 0 true ∈ r.memory.server.log ∧
    (r.memory.server.conn 0).reg = some (.read, 60) ∧ ¬ Uniform r := by
  have hrun : ((replies .usual 2).runIf (fun _ a => undisturbedB a) Replies.start
      (.acceptConn 0 10 :: requestRun 0 ++ [.replyReliable 0, .sendMessageSync 0 60,
        .shutdownService, .shutdownServiceDrain, .sendMessageSyncService 0])).map
      (fun r => (r.memory.undefined, decide (.completed 0 true ∈ r.memory.server.log),
        (r.memory.server.conn 0).reg)) = some (false, true, some (.read, 60)) := by decide +kernel
  obtain ⟨r, hr, hlast⟩ := Option.map_eq_some_iff.mp hrun
  simp only [Prod.mk.injEq, decide_eq_true_eq] at hlast
  obtain ⟨hdefined, hlate, hreg⟩ := hlast
  have hreach := System.reaches_of_runIf (M := replies .usual 2)
    (fun _ _ h => undisturbed_of_check h) replies_start hr
  refine ⟨r, hreach, hdefined, hlate, hreg, fun huniform => ?_⟩
  have hout := huniform.late 0 hlate
  rw [hreg] at hout
  cases hout

end WorkflowKernel.Communicator.Server
