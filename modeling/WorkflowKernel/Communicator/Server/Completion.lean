import WorkflowKernel.Communicator.Server.Replies

/-!
# The sections that move a reply

Each section of the server keeps the invariant of the connection it is about. A section either leaves
the connection where it stands, or it finds a connection that no completed reply has left anywhere;
the two that make a connection `CONN_STATE_KEEPALIVE` are `StandsAt.keep`.

## What is proved

- `standsAt_sendMessageSyncService`, `standsAt_handleReplyResultService`: the two completions.
- `standsAt_acceptConn` to `standsAt_drainOne`: the others.
-/

namespace WorkflowKernel.Communicator.Server

variable {C : Type}

/-! ## One section -/

section Sections

variable [DecidableEq C] {s s' : State C} {c : C} {timeout : Int} {reply : Option Disposition}

/-- A connection of the server and its history. -/
def StandsAt (s : State C) (c : C) (timeout : Int) (reply : Option Disposition) : Prop :=
  Footing timeout reply (.completed c true ∈ s.log) (c ∈ s.aliveList) (s.conn c)

/-- An edit of the connection. -/
theorem StandsAt.calm {f : Conn → Conn} (h : StandsAt s c timeout reply)
    (hc : Calm (c ∈ s.aliveList) (s.conn c) (c ∈ s.aliveList) (f (s.conn c))) :
    StandsAt (s.upd c f) c timeout reply := by
  unfold StandsAt
  rw [conn_upd_self]
  exact Footing.calm h hc

omit [DecidableEq C] in
/-- An edit of a connection with no completed reply. -/
theorem StandsAt.busy (h : StandsAt s c timeout reply) (hb : Busy (c ∈ s.aliveList) (s.conn c))
    (hlog : .completed c true ∈ s'.log → .completed c true ∈ s.log)
    (hpending : (s'.conn c).holder.completing = true →
      (s.conn c).holder.completing = true ∧
        ((s'.conn c).reg = (s.conn c).reg ∨ (s'.conn c).reg = none)) :
    StandsAt s' c timeout reply := by
  have hfooting : Footing timeout reply (.completed c true ∈ s.log) (c ∈ s'.aliveList)
      (s'.conn c) := Footing.busy h hb hpending
  exact ⟨hfooting.pending, hfooting.tracked, fun hl => hfooting.late (hlog hl)⟩

theorem StandsAt.busyUpd {f : Conn → Conn} (h : StandsAt s c timeout reply)
    (hb : Busy (c ∈ s.aliveList) (s.conn c))
    (hpending : (f (s.conn c)).holder.completing = true →
      (s.conn c).holder.completing = true ∧
        ((f (s.conn c)).reg = (s.conn c).reg ∨ (f (s.conn c)).reg = none)) :
    StandsAt (s.upd c f) c timeout reply :=
  h.busy hb id (by rwa [conn_upd_self])

omit [DecidableEq C] in
/-- The section in which a reply completes. -/
theorem StandsAt.complete {t t' : Int} (h : StandsAt s c timeout reply)
    (hb : Busy (c ∈ s.aliveList) (s.conn c))
    (hlog : .completed c true ∈ s'.log → .completed c true ∈ s.log ∨ s.late = true)
    (hholder : (s'.conn c).holder.completing = false)
    (htracked : Tracked (c ∈ s'.aliveList) (s'.conn c) (disposition t s.late)) :
    StandsAt s' c t' (some (disposition t s.late)) := by
  have hfooting := Footing.complete h hb hholder htracked fun hl =>
    (hlog hl).imp_right fun hlate => by rw [hlate, disposition_late]
  refine ⟨fun hk => ?_, hfooting.tracked, hfooting.late⟩
  rw [hholder] at hk
  cases hk

omit [DecidableEq C] in
theorem completed_logCompleted :
    .completed c true ∈ (s.logCompleted c).log ↔ .completed c true ∈ s.log ∨ s.late = true := by
  unfold State.logCompleted
  rw [List.mem_append, List.mem_singleton, Event.completed.injEq]
  exact or_congr_right ⟨fun h => h.2.symm, fun h => ⟨rfl, h.symm⟩⟩

/-! ### The poller thread -/

theorem standsAt_acceptConn {t : Int} (h : StandsAt s c timeout reply) (hinv : Inv s)
    (hstep : acceptConn s c t = some s') : StandsAt s' c timeout reply := by
  simp only [acceptConn] at hstep
  split at hstep
  · cases hstep
  · next hnew =>
    cases hstep
    have hfresh := (hinv.conns c).fresh (by simpa using hnew)
    have hbusy : Busy (c ∈ s.aliveList) (s.conn c) := by
      apply (hinv.conns c).busy <;> rw [hfresh] <;> decide
    refine h.busyUpd hbusy fun hk => ?_
    split at hk <;> cases hk

theorem standsAt_createRequest (h : StandsAt s c timeout reply)
    (hstep : createRequest s c = some s') : StandsAt s' c timeout reply := by
  simp only [createRequest] at hstep
  split at hstep
  · cases hstep
    exact h.calm ⟨id, rfl, id, fun hs => ⟨hs.1, hs.2, hs.3, hs.4⟩, id⟩
  · cases hstep

theorem standsAt_createRequestChecked (h : StandsAt s c timeout reply)
    (hstep : createRequestChecked s c = some s') : StandsAt s' c timeout reply := by
  simp only [createRequestChecked] at hstep
  split at hstep
  · cases hstep
    exact h.calm ⟨id, rfl, id, fun hs => ⟨hs.1, hs.2, hs.3, hs.4⟩, id⟩
  · cases hstep

theorem holder_failRequest (error : Errno) (k : Conn) : (failRequest error k).holder = k.holder := by
  unfold failRequest
  split <;> rfl

theorem reg_failRequest (error : Errno) (k : Conn) :
    (failRequest error k).reg = k.reg ∨ (failRequest error k).reg = none := by
  unfold failRequest
  split
  · exact .inr rfl
  · exact .inl rfl

/-- The node had been removed from the table. -/
theorem failRequest_of_removed {k : Conn} (error : Errno) (hreg : k.reg = none) :
    failRequest error k = { k with phase := .rest, msg := false } := by
  unfold failRequest
  split
  · next hsome =>
    rw [hreg] at hsome
    cases hsome
  · rfl

theorem standsAt_failRequest {error : Errno} (h : StandsAt s c timeout reply) (hinv : Inv s)
    (hkeep : (s.conn c).state ≠ .keepalive) :
    StandsAt (s.upd c (failRequest error)) c timeout reply := by
  by_cases hreg : (s.conn c).reg = none
  · refine h.calm ?_
    rw [failRequest_of_removed error hreg]
    exact ⟨id, rfl, id, fun hs => ⟨hs.1, hs.2, hs.3, hs.4⟩, id⟩
  · have hbusy : Busy (c ∈ s.aliveList) (s.conn c) := by
      intro d hd
      cases d with
      | keepAlive t => exact hkeep ((hinv.conns c).alive hd.1)
      | closing => exact hreg hd.1
    refine h.busyUpd hbusy fun hk => ⟨?_, reg_failRequest error _⟩
    rwa [holder_failRequest] at hk

/-- `create_request` takes up the next request of a connection that is kept alive. -/
theorem standsAt_createRequestService (h : StandsAt s c timeout reply) (hinv : Inv s)
    (hstep : createRequestService s c = some s') : StandsAt s' c timeout
      (if (s.conn c).state = .keepalive then none else reply) := by
  simp only [createRequestService] at hstep
  split at hstep
  · split at hstep
    · next hkeep =>
      cases hstep
      rw [if_pos hkeep]
      have hnot : ¬ Tracked (c ∈ s.aliveList) (s.conn c) .closing := by
        rintro ⟨-, hs | hs⟩
        · rw [hkeep] at hs
          cases hs
        · have hidle := hs.state
          rw [hkeep] at hidle
          cases hidle
      refine ⟨fun hk => ?_, (by simp), fun hl => ?_⟩
      · rw [conn_upd_self, conn_unlinkAlive] at hk ⊢
        exact h.pending hk
      · refine absurd (h.late ?_) hnot
        simpa [State.unlinkAlive] using hl
    · next hkeep =>
      rw [if_neg hkeep]
      split at hstep
      · cases hstep
        exact h.calm ⟨id, rfl, id, fun hs => ⟨hs.1, hs.2, hs.3, hs.4⟩, id⟩
      · cases hstep
        exact standsAt_failRequest h hinv hkeep
  · cases hstep

omit [DecidableEq C] in
/-- A connection that `create_request` let pass has no completed reply. -/
theorem Inv.busySession (h : Inv s) (hphase : (s.conn c).phase = .session) :
    Busy (c ∈ s.aliveList) (s.conn c) ∧ (s.conn c).holder.completing = false := by
  obtain ⟨hstate, hoff⟩ := (h.conns c).session hphase
  have hidle : (s.conn c).state ≠ .idle := by
    rcases hstate with hs | hs <;> rw [hs] <;> decide
  refine ⟨busy_of (fun hon => absurd hon hoff) ?_ fun hs => hidle hs.state, ?_⟩
  · rcases hstate with hs | hs <;> rw [hs] <;> decide
  · by_contra hc
    exact hidle ((h.conns c).replying (Holder.completing_replying (by simpa using hc))).1

theorem standsAt_createRequestSession {o : NewSession} (h : StandsAt s c timeout reply)
    (hinv : Inv s) (hstep : createRequestSession s c o = some s') :
    StandsAt s' c timeout reply := by
  simp only [createRequestSession] at hstep
  split at hstep
  · next hphase =>
    obtain ⟨hbusy, hno⟩ := hinv.busySession hphase
    cases o with
    | null error =>
      cases hstep
      refine h.busyUpd hbusy fun hk => ?_
      rw [holder_failRequest, hno] at hk
      cases hk
    | session t messageIn error =>
      simp only [upd_upd] at hstep
      split at hstep
      · cases hstep
        refine h.busyUpd hbusy fun hk => ?_
        rw [show ({ mpollerSetTimeout t { s.conn c with
          seq := (s.conn c).seq + 1, state := .receiving } with
            phase := .rest, msg := true } : Conn).holder = (s.conn c).holder from rfl, hno] at hk
        cases hk
      · cases hstep
        refine h.busyUpd hbusy fun hk => ?_
        rw [holder_failRequest] at hk
        rw [show (mpollerSetTimeout t { s.conn c with
          seq := (s.conn c).seq + 1, state := .receiving }).holder = (s.conn c).holder from rfl,
          hno] at hk
        cases hk
  · cases hstep

omit [DecidableEq C] in
/-- A connection that receives a message has no completed reply. -/
theorem Inv.busyMsg (h : Inv s) (hmsg : (s.conn c).msg = true) :
    Busy (c ∈ s.aliveList) (s.conn c) ∧ (s.conn c).holder.completing = false := by
  have hs := (h.conns c).msg hmsg
  constructor
  · apply (h.conns c).busy <;> rw [hs] <;> decide
  · by_contra hc
    have hidle := ((h.conns c).replying (Holder.completing_replying (by simpa using hc))).1
    rw [hs] at hidle
    cases hidle

theorem standsAt_appendMessage {t : Int} (h : StandsAt s c timeout reply) (hinv : Inv s)
    (hstep : appendMessage s c t = some s') : StandsAt s' c timeout reply := by
  simp only [appendMessage] at hstep
  split at hstep
  · next hmsg =>
    cases hstep
    obtain ⟨hbusy, hno⟩ := hinv.busyMsg hmsg.1
    refine h.busyUpd hbusy fun hk => ?_
    rw [show (mpollerSetTimeout t (s.conn c)).holder = (s.conn c).holder from rfl, hno] at hk
    cases hk
  · cases hstep

theorem standsAt_appendMessageDone (h : StandsAt s c timeout reply) (hinv : Inv s)
    (hstep : appendMessageDone s c = some s') : StandsAt s' c timeout reply := by
  simp only [appendMessageDone] at hstep
  split at hstep
  · next hmsg =>
    cases hstep
    obtain ⟨hbusy, hno⟩ := hinv.busyMsg hmsg.1
    refine h.busyUpd hbusy fun hk => ?_
    have hholder : (s.conn c).holder.completing = true := hk
    rw [hno] at hholder
    cases hholder
  · cases hstep

/-- The read operation ends, and with it what a kept-alive connection is kept for. -/
theorem standsAt_readEnds {res : PrState × Errno} (h : StandsAt s c timeout reply)
    (hstep : readEnds s c res = some s') : StandsAt s' c timeout none := by
  simp only [readEnds] at hstep
  split at hstep
  · next hguard =>
    cases hstep
    refine ⟨fun hk => ?_, (by simp), fun hl => ?_⟩
    · rw [conn_upd_self] at hk ⊢
      exact ⟨(h.pending hk).1, (by simp)⟩
    · have hreg := hguard.1
      rw [(h.late hl).1] at hreg
      cases hreg
  · cases hstep

theorem standsAt_writeEnds {res : PrState × Errno} (h : StandsAt s c timeout reply)
    (hstep : writeEnds s c res = some s') : StandsAt s' c timeout reply := by
  simp only [writeEnds] at hstep
  split at hstep
  · next hguard =>
    cases hstep
    obtain ⟨x, hreg, hop⟩ := Option.map_eq_some_iff.mp hguard.1
    have hbusy : Busy (c ∈ s.aliveList) (s.conn c) := by
      intro d hd
      cases d with
      | keepAlive t =>
        have hread := hd.2
        rw [hreg] at hread
        cases hread
        cases hop
      | closing =>
        have hnone := hd.1
        rw [hreg] at hnone
        cases hnone
    refine h.busyUpd hbusy fun hk => ?_
    exact ⟨hk, .inr rfl⟩
  · cases hstep

theorem standsAt_handlePipe (h : StandsAt s c timeout reply) (hinv : Inv s)
    (hstep : handlePipe s c = some s') : StandsAt s' c timeout reply := by
  simp only [handlePipe] at hstep
  split at hstep
  · cases hstep
  · next op state rest hpipe =>
    split at hstep
    · cases hstep
      have hread := (hinv.conns c).reads (op, state) (by rw [hpipe]; exact List.mem_cons_self)
      obtain rfl : op = .read := hread
      exact h.calm ⟨id, rfl, id, fun hs => ⟨hs.1, hs.2, hs.3, hs.4⟩, id⟩
    · cases hstep

/-! ### The handler threads -/

/-- The handler of a success result. -/
theorem standsAt_handleSuccess {res : PrState × Errno} (h : StandsAt s c timeout reply)
    (hinv : Inv s) (hres : res.1 = .success)
    (hstep : handleIncomingRequest (s.upd c fun k =>
      { k with readResults := k.readResults.erase res }) c res = some s') :
    StandsAt s' c timeout reply := by
  simp only [handleIncomingRequest, conn_upd_self, upd_upd, hres] at hstep
  split at hstep
  · next hholder =>
    split at hstep
    · next hs =>
      cases hstep
      have hbusy : Busy (c ∈ s.aliveList) (s.conn c) := by
        apply (hinv.conns c).busy <;> rw [hs] <;> decide
      refine h.busy hbusy (fun hl => by simpa [State.linkIdle] using hl) fun hk => ?_
      rw [conn_upd_self, conn_linkIdle_self, conn_upd_self] at hk
      change (s.conn c).holder.completing = true at hk
      rw [hholder] at hk
      cases hk
    · cases hstep
      exact h.calm ⟨id, rfl, id, fun hs => ⟨hs.1, hs.2, hs.3, hs.4⟩, id⟩
  · cases hstep

/-- A connection whose operation has ended is out of the table. -/
theorem reg_none_of_polled {k : Conn} (h : k.polled = 0) : k.reg = none := by
  rw [Conn.polled] at h
  cases hreg : k.reg with
  | none => rfl
  | some r => simp [hreg] at h

theorem reg_none_of_tokens {k : Conn} (h : k.tokens = 0) : k.reg = none := by
  refine reg_none_of_polled ?_
  rw [Conn.tokens] at h
  omega

/-- The handler of a terminal result: its connection is closing, or has no completed reply. -/
theorem standsAt_handleTerminal {res : PrState × Errno} (h : StandsAt s c timeout reply)
    (hinv : Inv s) (hmem : res ∈ (s.conn c).readResults) (hres : res.1.terminal = true)
    (hstep : handleIncomingRequest (s.upd c fun k =>
      { k with readResults := k.readResults.erase res }) c res = some s') :
    StandsAt s' c timeout reply := by
  obtain ⟨-, -, -, -, hzero⟩ := (hinv.conns c).taken hmem hres
  have hreg : (s.conn c).reg = none :=
    reg_none_of_tokens (k := { s.conn c with readResults := (s.conn c).readResults.erase res }) hzero
  simp only [handleIncomingRequest, conn_upd_self, upd_upd] at hstep
  split at hstep
  · next hholder =>
    have hno : (s.conn c).holder.completing = false := by rw [hholder]; rfl
    split at hstep
    · next hsuccess =>
      rw [hsuccess] at hres
      cases hres
    · -- the state is read once more
      by_cases hs : (s.conn c).state = .closing
      · simp only [hs] at hstep
        cases hstep
        exact h.calm ⟨id, rfl, id, fun hs => ⟨hs.1, hs.2, hs.3, hs.4⟩, id⟩
      · have hbusy : Busy (c ∈ s.aliveList) (s.conn c) := by
          refine busy_of (fun _ => hreg) hs fun hspent => ?_
          have hidle := hinv.takenIdle hmem hres hholder hspent.state
          rw [hspent.idle] at hidle
          cases hidle
        refine h.busy hbusy ?_ ?_
        · split at hstep
          all_goals
            cases hstep
            simp [State.unlinkIdle]
        · split at hstep
          all_goals
            cases hstep
            simp [Conn.leave, Holder.completing]
  · cases hstep

theorem standsAt_handleReadResult {res : PrState × Errno} (h : StandsAt s c timeout reply)
    (hinv : Inv s) (hstep : handleReadResult s c res = some s') :
    StandsAt s' c timeout reply := by
  simp only [handleReadResult] at hstep
  split at hstep
  · next hmem =>
    split at hstep
    · cases hstep
      exact h.calm ⟨id, rfl, id, fun hs => ⟨hs.1, hs.2, hs.3, hs.4⟩, id⟩
    · next hres =>
      cases hr : res.1 with
      | success => exact standsAt_handleSuccess h hinv hr hstep
      | modified => exact absurd hr hres
      | finished | error | deleted | stopped =>
        exact standsAt_handleTerminal h hinv hmem (by rw [hr]; rfl) hstep
  · cases hstep

theorem standsAt_handleIncomingRequestService (h : StandsAt s c timeout reply) (hinv : Inv s)
    (hrefs : RefInv s) (hstep : handleIncomingRequestService s c = some s') :
    StandsAt s' c timeout reply := by
  simp only [handleIncomingRequestService] at hstep
  split at hstep
  · next hholder =>
    cases hstep
    have hreg : (s.conn c).reg = none :=
      reg_none_of_tokens (k := { s.conn c with holder := .none })
        ((hinv.conns c).handled hholder).2.2
    have hspent : ¬ Spent (s.conn c) := by
      intro hs
      rw [hs.holder] at hholder
      cases hholder
    rcases (hrefs.conns c).handling hholder with hkeep | hclosing
    · rw [if_pos hkeep]
      have hbusy : Busy (c ∈ s.aliveList) (s.conn c) :=
        busy_of (fun _ => hreg) (by rw [hkeep]; decide) hspent
      refine h.busy hbusy (fun hl => by simpa [State.unlinkAlive] using hl) fun hk => ?_
      rw [conn_upd_self] at hk
      cases hk
    · rw [if_neg (by rw [hclosing]; decide)]
      exact h.calm ⟨id, rfl, id, fun hs => absurd hs hspent, fun hk => by cases hk⟩
  · cases hstep

omit [DecidableEq C] in
/-- Nobody holds the mutex of a target whose reply the poller has sent. -/
theorem ConnOk.freeWrite {on : Prop} {k : Conn} {res : PrState × Errno} (h : ConnOk on k)
    (hmem : res ∈ k.writeResults) : k.holder = .none := by
  have hw : k.writing := .inr (List.ne_nil_of_mem hmem)
  have hrep : k.holder.replying = false := by
    by_contra hrep
    exact (h.replying (by simpa using hrep)).2.2 hw
  cases hholder : k.holder with
  | none => rfl
  | terminal => exact absurd hholder (h.takenWrite hmem).2.2.2.2.1
  | replySend | replyService | resultService error =>
    rw [hholder] at hrep
    cases hrep

/-- The poller has sent the reply: it is not kept alive, or `mpoller_add` makes it wait for the next
request. -/
theorem standsAt_handleWriteResult {res : PrState × Errno} {t : Int}
    (h : StandsAt s c timeout reply) (hinv : Inv s)
    (hstep : handleWriteResult s c res t true = some s') :
    StandsAt s' c t (if res.1 = .finished ∧ t = 0 then some (disposition t s.late) else reply) := by
  simp only [handleWriteResult] at hstep
  split at hstep
  · next hmem =>
    obtain ⟨hs, hidle, -, hreg, -, -, -, herase⟩ := (hinv.conns c).takenWrite hmem
    have hnospent : ¬ Spent (s.conn c) := fun hspent =>
      List.ne_nil_of_mem hmem hspent.writeResults
    have hbusy := (hinv.conns c).busyIdle hs hnospent
    have hholder := (hinv.conns c).freeWrite hmem
    have hno : (s.conn c).holder.completing = false := by rw [hholder]; rfl
    -- no reply has completed, and none does
    have hleft : ∀ call, res.1 ≠ .finished → some ((s.upd c fun k =>
        { k with writeResults := k.writeResults.erase res }.leave call)) = some s' →
        StandsAt s' c t (if res.1 = .finished ∧ t = 0 then some (disposition t s.late)
          else reply) := by
      rintro call hres hs'
      rw [if_neg fun hand => hres hand.1]
      cases hs'
      unfold StandsAt
      rw [conn_upd_self]
      exact Footing.begin h hbusy fun hk => absurd (hno.symm.trans hk) (by simp)
    simp only [handleReplyResult, conn_upd_self, upd_upd, hreg, hholder, and_self, if_true] at hstep
    split at hstep
    · next hfinished =>
      split at hstep
      · next ht =>
        -- `mpoller_add`
        rw [if_neg fun hand => ht hand.2]
        cases hstep
        unfold StandsAt
        rw [conn_upd_self]
        refine Footing.begin h hbusy fun _ => ⟨ht, fun x hx => ?_⟩
        exact (Option.some.inj hx).symm
      · next ht =>
        have hzero : t = 0 := not_not.mp ht
        cases hstep
        rw [if_pos ⟨hfinished, hzero⟩]
        refine h.complete hbusy completed_logCompleted.mp ?_ ?_
        · rw [conn_logCompleted, conn_upd_self]
          exact hno
        · rw [hzero, disposition_zero, conn_logCompleted, conn_upd_self]
          exact ⟨hreg, .inr ⟨hs, hidle, hholder, herase⟩⟩
    · next hres => exact hleft _ (by rw [hres]; decide) hstep
    · next hres => exact hleft _ (by rw [hres]; decide) hstep
    · next hres => exact hleft _ (by rw [hres]; decide) hstep
    · next hres _ _ _ =>
      rw [if_neg fun hand => hres hand.1]
      cases hstep
      unfold StandsAt
      rw [conn_upd_self]
      exact Footing.begin h hbusy fun hk => absurd (hno.symm.trans hk) (by simp)
  · cases hstep

/-- The entry is linked into the alive list and its reply has completed in time. -/
theorem StandsAt.keep {f : Conn → Conn} (h : StandsAt s c timeout reply) (hinv : Inv s)
    (hk : (s.conn c).holder.completing = true) (hlisten : 0 ≤ s.listenFd)
    (hreg : (s.conn c).reg.isSome = true)
    (hf : ∀ k, (f k).reg = k.reg ∧ (f k).holder.completing = false) :
    StandsAt ((((s.upd c fun k => { k with state := .keepalive }).linkAlive c).upd c
      f).logCompleted c) c timeout (some (disposition timeout s.late)) := by
  have hbusy := (hinv.conns c).busyReplying (Holder.completing_replying hk)
  have hopen : s.late = false := decide_eq_false (Int.not_lt.mpr hlisten)
  obtain ⟨ht, hread⟩ := h.pending hk
  obtain ⟨x, hx⟩ := Option.isSome_iff_exists.mp hreg
  refine h.complete hbusy (fun hl => ?_) ?_ ?_
  · refine (completed_logCompleted.mp hl).imp_left fun hl => ?_
    simpa [State.linkAlive] using hl
  · rw [conn_logCompleted, conn_upd_self]
    exact (hf _).2
  · rw [hopen, disposition_open ht]
    refine ⟨List.mem_append_right _ (List.mem_singleton_self c), ?_⟩
    rw [conn_logCompleted, conn_upd_self, (hf _).1, conn_linkAlive, conn_upd_self, ← hread x hx]
    exact hx

/-- A registration is deleted, and the connection is closing when its reply completes. -/
theorem StandsAt.close {f : Conn → Conn} {t t' : Int} (h : StandsAt s c timeout reply)
    (hinv : Inv s) (hrep : (s.conn c).holder.replying = true)
    (hclosing : disposition t s.late = .closing)
    (hf : (f (s.conn c)).reg = none ∧ (f (s.conn c)).state = .closing ∧
      (f (s.conn c)).holder.completing = false) :
    StandsAt ((s.upd c f).logCompleted c) c t' (some (disposition t s.late)) := by
  have hbusy := (hinv.conns c).busyReplying hrep
  refine h.complete hbusy completed_logCompleted.mp ?_ ?_
  · rw [conn_logCompleted, conn_upd_self]
    exact hf.2.2
  · rw [hclosing, conn_logCompleted, conn_upd_self]
    exact ⟨hf.1, .inl hf.2.1⟩

/-- The asynchronous completion; its else arm is for a service that has been shut down. -/
theorem standsAt_handleReplyResultService (h : StandsAt s c timeout reply) (hinv : Inv s)
    (hrunning : s.stopFlag = false)
    (hreg : 0 ≤ s.listenFd → (s.conn c).reg.isSome = true)
    (hstep : handleReplyResultService s c = some s') :
    StandsAt s' c timeout (some (disposition timeout s.late)) := by
  simp only [handleReplyResultService] at hstep
  split at hstep
  · next error hholder =>
    cases hstep
    have hk : (s.conn c).holder.completing = true := by rw [hholder]; rfl
    by_cases hlisten : 0 ≤ s.listenFd
    · rw [if_pos ⟨hrunning, hlisten⟩]
      exact h.keep hinv hk hlisten (hreg hlisten) fun _ => ⟨rfl, rfl⟩
    · rw [if_neg fun hopen => hlisten hopen.2, upd_upd]
      have hlate : s.late = true := decide_eq_true (Int.not_le.mp hlisten)
      exact h.close hinv (Holder.completing_replying hk) (by rw [hlate, disposition_late])
        ⟨rfl, rfl, rfl⟩
  · cases hstep

theorem standsAt_finish {i : Nat} (h : StandsAt s c timeout reply)
    (hstep : finish s c i = some s') : StandsAt s' c timeout reply := by
  simp only [finish, Option.bind_eq_bind, Option.bind_eq_some_iff] at hstep
  obtain ⟨call, -, hstep⟩ := hstep
  cases hstep
  have hcalm := h.calm (f := fun k =>
    { k with
      tails := k.tails.eraseIdx i
      ref := k.ref - 1
      released := if k.ref - 1 = 0 then k.released + 1 else k.released })
    ⟨id, rfl, id, fun hs => ⟨hs.1, hs.2, hs.3, hs.4⟩, id⟩
  exact hcalm

/-! ### The user -/

omit [DecidableEq C] in
/-- A connection on the idle list has no completed reply. -/
theorem Inv.busyIdle (h : Inv s) (hidle : (s.conn c).idle = true) :
    Busy (c ∈ s.aliveList) (s.conn c) := by
  refine (h.conns c).busyIdle ((h.conns c).idle hidle) fun hs => ?_
  rw [hs.idle] at hidle
  cases hidle

theorem standsAt_replyReliable (h : StandsAt s c timeout reply) (hinv : Inv s)
    (hstep : replyReliable s c = some s') : StandsAt s' c timeout reply := by
  simp only [replyReliable] at hstep
  split at hstep
  · next hguard =>
    cases hstep
    refine h.busy (hinv.busyIdle hguard.2) (fun hl => by simpa [State.unlinkIdle] using hl)
      fun hk => ?_
    rw [conn_upd_self] at hk
    cases hk
  · cases hstep

theorem standsAt_targetShutdown (h : StandsAt s c timeout reply) (hinv : Inv s)
    (hstep : targetShutdown s c = some s') : StandsAt s' c timeout reply := by
  simp only [targetShutdown] at hstep
  split at hstep
  · next hguard =>
    cases hstep
    refine h.busy (hinv.busyIdle hguard.2) (fun hl => by simpa [State.unlinkIdle] using hl)
      fun hk => ?_
    rw [conn_upd_self, conn_unlinkIdle_self] at hk
    change (s.conn c).holder.completing = true at hk
    rw [hguard.1] at hk
    cases hk
  · cases hstep

theorem standsAt_replyFails {error : Errno} (h : StandsAt s c timeout reply) (hinv : Inv s)
    (hstep : replyFails s c error = some s') : StandsAt s' c timeout reply := by
  simp only [replyFails] at hstep
  split at hstep
  · next hholder =>
    cases hstep
    exact h.busyUpd ((hinv.conns c).busyReplying (by rw [hholder]; rfl)) fun hk => by cases hk
  · cases hstep

theorem standsAt_sendMessageSync {t : Int} (h : StandsAt s c timeout reply) (hinv : Inv s)
    (hstep : sendMessageSync s c t = some s') :
    StandsAt s' c t (if t = 0 then some (disposition t s.late) else reply) := by
  simp only [sendMessageSync] at hstep
  split at hstep
  · next hholder =>
    have hrep : (s.conn c).holder.replying = true := by rw [hholder]; rfl
    split at hstep
    · next ht =>
      cases hstep
      rw [if_pos ht]
      exact h.close hinv hrep (by rw [ht, disposition_zero]) ⟨rfl, rfl, rfl⟩
    · next ht =>
      cases hstep
      rw [if_neg ht]
      unfold StandsAt
      rw [conn_upd_self]
      refine Footing.begin h ((hinv.conns c).busyReplying hrep) fun _ => ⟨ht, fun x hx => ?_⟩
      -- the operation of an entry that is not being sent to is a read
      obtain ⟨r, hr, rfl⟩ := Option.map_eq_some_iff.mp hx
      rw [reg_read ((hinv.conns c).replying hrep).2.2 hr]
  · cases hstep

/-- The synchronous completion. -/
theorem standsAt_sendMessageSyncService (h : StandsAt s c timeout reply) (hinv : Inv s)
    (hlisten : 0 ≤ s.listenFd) (hreg : (s.conn c).reg.isSome = true)
    (hstep : sendMessageSyncService s c = some s') :
    StandsAt s' c timeout (some (disposition timeout s.late)) := by
  simp only [sendMessageSyncService, if_pos hlisten] at hstep
  split at hstep
  · next hholder =>
    cases hstep
    exact h.keep hinv (by rw [hholder]; rfl) hlisten hreg fun _ => ⟨rfl, rfl⟩
  · cases hstep

theorem standsAt_sendMessageAsync {t : Int} (h : StandsAt s c timeout reply) (hinv : Inv s)
    (hstep : sendMessageAsync s c t = some s') : StandsAt s' c timeout reply := by
  simp only [sendMessageAsync] at hstep
  split at hstep
  · next hholder =>
    have hbusy := (hinv.conns c).busyReplying (by rw [hholder]; rfl)
    split at hstep
    · split at hstep
      · cases hstep
        exact h.busyUpd hbusy fun hk => by cases hk
      · cases hstep
        exact h.busyUpd hbusy fun hk => by cases hk
    · split at hstep
      · cases hstep
        refine h.busyUpd hbusy fun hk => ?_
        split at hk <;> cases hk
      · split at hstep
        · cases hstep
          exact h.busyUpd hbusy fun hk => by cases hk
        · cases hstep
  · cases hstep

/-- A drained connection is closing; what its reply left is over. -/
theorem standsAt_drainOne (hinv : Inv s) (hon : c ∈ s.aliveList) :
    StandsAt (drainOne s c) c timeout (reply.map fun _ => .closing) := by
  have hconn : (drainOne s c).conn c = { mpollerDel (s.conn c) with state := .closing } :=
    Function.update_self ..
  have hrep := ((hinv.conns c).onAlive hon).2.1
  unfold StandsAt
  rw [hconn]
  refine ⟨fun hk => ?_, fun d hd => ?_, fun _ => ⟨rfl, .inl rfl⟩⟩
  · change (s.conn c).holder.completing = true at hk
    rw [Holder.completing_replying hk] at hrep
    cases hrep
  · obtain ⟨d', -, rfl⟩ := Option.map_eq_some_iff.mp hd
    exact ⟨rfl, .inl rfl⟩

end Sections

end WorkflowKernel.Communicator.Server
