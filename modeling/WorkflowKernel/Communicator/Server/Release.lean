import WorkflowKernel.Communicator.Server.Refs

/-!
# An entry is released once

The references of every entry are counted right in every run, whatever becomes of the two lists. An
entry whose last reference is dropped is released then, and nothing uses it afterwards.

## What is proved

- `inductive_refInv`: every entry is `Counted`, in every run.
- `step_held`: a step that uses an entry finds a reference to it.
- `onward_step`: only `accept_conn` makes an entry, and a release is never undone.
-/

namespace WorkflowKernel.Communicator.Server

open WorkflowKernel.Transition

variable {C : Type} [DecidableEq C]

structure RefInv (s : State C) : Prop where
  nodup : s.aliveList.Nodup
  conns : ∀ c, Counted (c ∈ s.aliveList) (s.conn c)

section States

variable {s s' : State C} {c : C}

/-- An edit of one connection and of its membership in the alive list. -/
theorem RefInv.edit (h : RefInv s) (c : C) (conn : ∀ d, d ≠ c → s'.conn d = s.conn d)
    (mem : ∀ d, d ≠ c → (d ∈ s'.aliveList ↔ d ∈ s.aliveList)) (nodup : s'.aliveList.Nodup)
    (here : Counted (c ∈ s'.aliveList) (s'.conn c)) : RefInv s' where
  nodup := nodup
  conns d := by
    by_cases hd : d = c
    · subst hd
      exact here
    · rw [conn d hd, mem d hd]
      exact h.conns d

/-- An edit of one connection that leaves the alive list alone. -/
theorem RefInv.upd (h : RefInv s) {f : Conn → Conn}
    (here : Counted (c ∈ s.aliveList) (f (s.conn c))) : RefInv (s.upd c f) :=
  h.edit c (fun _ hd => conn_upd_of_ne s c f hd) (fun _ _ => Iff.rfl) h.nodup
    (by rwa [conn_upd_self])

/-- The entry leaves the alive list, if it was there. -/
theorem RefInv.unlinkAlive (h : RefInv s) {f : Conn → Conn}
    (here : Counted False (f (s.conn c))) : RefInv ((s.unlinkAlive c).upd c f) := by
  refine h.edit c (fun _ hd => conn_upd_of_ne _ c f hd) (fun d hd => ?_) (h.nodup.erase c) ?_
  · exact List.mem_erase_of_ne hd
  · have hoff : c ∉ s.aliveList.erase c := h.nodup.not_mem_erase
    rw [conn_upd_self]
    simpa [State.unlinkAlive, hoff] using here

/-- An entry that is not on the alive list is linked into it. -/
theorem RefInv.linkAlive (h : RefInv s) {f g : Conn → Conn} (hoff : c ∉ s.aliveList)
    (here : Counted True (g (f (s.conn c)))) : RefInv (((s.upd c f).linkAlive c).upd c g) := by
  refine h.edit c (fun d hd => ?_) (fun d hd => ?_) ?_ ?_
  · rw [conn_upd_of_ne _ c g hd]
    exact conn_upd_of_ne s c f hd
  · simp [State.linkAlive, hd]
  · have hnodup := h.nodup.concat hoff
    rw [List.concat_eq_append] at hnodup
    exact hnodup
  · rw [conn_upd_self]
    simpa [State.linkAlive] using here

/-- The entry leaves the idle list; `s₁` may differ from `s` at the entry. -/
theorem RefInv.unlinkIdle {s₁ : State C} {f : Conn → Conn} (h : RefInv s)
    (conn : ∀ d, d ≠ c → s₁.conn d = s.conn d) (alive : s₁.aliveList = s.aliveList)
    (here : Counted (c ∈ s.aliveList) (f { s₁.conn c with idle := false })) :
    RefInv ((s₁.unlinkIdle c).upd c f) := by
  apply h.edit c
  · intro d hd
    rw [conn_upd_of_ne _ c f hd, conn_unlinkIdle_of_ne s₁ c hd, conn d hd]
  · exact fun d _ => Iff.of_eq (congrArg (d ∈ ·) alive)
  · exact alive ▸ h.nodup
  · rw [conn_upd_self, conn_unlinkIdle_self]
    show Counted (c ∈ s₁.aliveList) _
    rw [alive]
    exact here

/-- The entry is linked into the idle list. -/
theorem RefInv.linkIdle {s₁ : State C} {f : Conn → Conn} (h : RefInv s)
    (conn : ∀ d, d ≠ c → s₁.conn d = s.conn d) (alive : s₁.aliveList = s.aliveList)
    (here : Counted (c ∈ s.aliveList) (f { s₁.conn c with idle := true })) :
    RefInv ((s₁.linkIdle c).upd c f) := by
  apply h.edit c
  · intro d hd
    rw [conn_upd_of_ne _ c f hd, conn_linkIdle_of_ne s₁ c hd, conn d hd]
  · exact fun d _ => Iff.of_eq (congrArg (d ∈ ·) alive)
  · exact alive ▸ h.nodup
  · rw [conn_upd_self, conn_linkIdle_self]
    show Counted (c ∈ s₁.aliveList) _
    rw [alive]
    exact here

omit [DecidableEq C] in
/-- The log and the calls of `handle()` are not counted. -/
theorem RefInv.logged (h : RefInv s) (log : List (Event C)) : RefInv { s with log := log } :=
  ⟨h.nodup, h.conns⟩

omit [DecidableEq C] in
theorem RefInv.logCompleted (h : RefInv s) : RefInv (s.logCompleted c) := h.logged _

omit [DecidableEq C] in
theorem RefInv.handled (h : RefInv s) (handled : List (C × CsState × Errno)) :
    RefInv { s with handled := handled } :=
  ⟨h.nodup, h.conns⟩

/-- A new entry has the reference of its registration, or that of its deletion. -/
theorem refInv_acceptConn {timeout : Int} (h : RefInv s)
    (hstep : acceptConn s c timeout = some s') : RefInv s' := by
  have hc := h.conns c
  simp only [acceptConn] at hstep
  split at hstep
  · cases hstep
  · next hnew =>
    cases hstep
    have hoff : c ∉ s.aliveList := by
      intro hon
      have hs := hc.alive hon
      rw [(hc.fresh (by simpa using hnew)).1] at hs
      cases hs
    apply h.upd
    split <;>
      (constructor <;> simp [hoff, Conn.absent, Conn.refs, Conn.tokens, Conn.polled, Conn.writing,
        Conn.successes, succeeded, mpollerDel, Holder.replying, Holder.refs, PrState.terminal])

theorem refInv_createRequest (h : RefInv s) (hstep : createRequest s c = some s') : RefInv s' := by
  simp only [createRequest] at hstep
  split at hstep
  · next hguard =>
    cases hstep
    have hone := registered_map hguard.1
    apply h.upd
    apply (h.conns c).phase
    · rw [polled_eq]
      omega
    · split <;> decide
  · cases hstep

theorem refInv_createRequestChecked (h : RefInv s) (hstep : createRequestChecked s c = some s') :
    RefInv s' := by
  simp only [createRequestChecked] at hstep
  split at hstep
  · next hguard =>
    cases hstep
    apply h.upd
    apply (h.conns c).phase ((h.conns c).polled (by rw [hguard.1]; decide)) (by decide)
  · cases hstep

/-- The section of `create_request` unlinks a `CONN_STATE_KEEPALIVE` entry, which keeps its
registration. -/
theorem refInv_createRequestService (h : RefInv s) (hstep : createRequestService s c = some s') :
    RefInv s' := by
  have hc := h.conns c
  simp only [createRequestService] at hstep
  split at hstep
  · next hphase =>
    split at hstep
    · next hs =>
      cases hstep
      exact h.unlinkAlive (hc.pass hphase (.inl hs))
    · split at hstep
      · next hs hconnected =>
        cases hstep
        have hoff : c ∉ s.aliveList := fun hon => hs (hc.alive hon)
        apply h.upd
        simpa [hoff] using hc.pass hphase (.inr hconnected)
      · cases hstep
        exact h.upd (hc.failRequest _)
  · cases hstep

/-- A new session takes no reference. -/
theorem refInv_createRequestSession {o : NewSession} (h : RefInv s)
    (hstep : createRequestSession s c o = some s') : RefInv s' := by
  have hc := h.conns c
  simp only [createRequestSession] at hstep
  split at hstep
  · next hphase =>
    cases o with
    | null error =>
      cases hstep
      exact h.upd (hc.failRequest error)
    | session timeout messageIn error =>
      cases messageIn with
      | true =>
        cases hstep
        rw [upd_upd]
        exact h.upd ((hc.newSession hphase .rest (by decide) true).setTimeout timeout)
      | false =>
        cases hstep
        rw [upd_upd]
        -- the failure forgets that `create_request` had let the entry pass
        have hnew := ((hc.newSession hphase .check (by decide) (s.conn c).msg).setTimeout
          timeout).failRequest error
        apply h.upd
        rw [← failRequest_phase error _ .check (s.conn c).msg]
        exact hnew
  · cases hstep

theorem refInv_appendMessage {timeout : Int} (h : RefInv s)
    (hstep : appendMessage s c timeout = some s') : RefInv s' := by
  simp only [appendMessage] at hstep
  split at hstep
  · cases hstep
    exact h.upd ((h.conns c).setTimeout timeout)
  · cases hstep

/-- A complete message goes on its way; the registration stays behind it. -/
theorem refInv_appendMessageDone (h : RefInv s) (hstep : appendMessageDone s c = some s') :
    RefInv s' := by
  simp only [appendMessageDone] at hstep
  split at hstep
  · next hguard =>
    cases hstep
    exact h.upd (((h.conns c).messageDone hguard.1).setTimeout (-1))
  · cases hstep

/-- The reference of the registration goes to its terminal result. -/
theorem refInv_readEnds {res : PrState × Errno} (h : RefInv s)
    (hstep : readEnds s c res = some s') : RefInv s' := by
  simp only [readEnds] at hstep
  split at hstep
  · next hguard =>
    obtain ⟨hreg, hphase, hres⟩ := hguard
    cases hstep
    exact h.upd ((h.conns c).readEnds hreg hphase (ends_terminal hres))
  · cases hstep

/-- So for a write operation. -/
theorem refInv_writeEnds {res : PrState × Errno} (h : RefInv s)
    (hstep : writeEnds s c res = some s') : RefInv s' := by
  simp only [writeEnds] at hstep
  split at hstep
  · next hguard =>
    obtain ⟨hreg, hphase, hres⟩ := hguard
    cases hstep
    exact h.upd ((h.conns c).writeEnds hreg hphase (ends_terminal hres))
  · cases hstep

/-- And for a node that comes through the pipe. -/
theorem refInv_handlePipe (h : RefInv s) (hstep : handlePipe s c = some s') : RefInv s' := by
  have hc := h.conns c
  simp only [handlePipe] at hstep
  split at hstep
  · cases hstep
  · next op state rest hpipe =>
    split at hstep
    · next hphase =>
      cases hstep
      obtain rfl : op = .read := (hc.reads (op, state) (by simp [hpipe])).1
      exact h.upd (hc.piped hpipe hphase)
    · cases hstep

/-! ### The handlers -/

/-- The handler that takes a result has its reference, and takes one more for the idle list. -/
theorem refInv_handleReadResult {res : PrState × Errno} (h : RefInv s)
    (hstep : handleReadResult s c res = some s') : RefInv s' := by
  have hc := h.conns c
  have hother : ∀ d, d ≠ c → (s.upd c fun k =>
      { k with readResults := k.readResults.erase res }).conn d = s.conn d :=
    fun _ hd => conn_upd_of_ne _ c _ hd
  simp only [handleReadResult] at hstep
  split at hstep
  · next hmem =>
    split at hstep
    · next hres =>
      cases hstep
      exact h.upd (hc.modified hmem hres)
    · next hmodified =>
      simp only [handleIncomingRequest, conn_upd_self] at hstep
      split at hstep
      · next hholder =>
        split at hstep
        · next hres =>
          split at hstep
          · next hs =>
            cases hstep
            apply h.linkIdle hother rfl
            rw [conn_upd_self]
            exact hc.toIdle hmem hres hholder hs _
          · next hs =>
            cases hstep
            rw [upd_upd]
            exact h.upd (hc.overtaken hmem hres hs _)
        · next hsuccess =>
          have hres : res.1.terminal = true := by
            cases hr : res.1 <;> first | rfl | exact absurd hr hsuccess | exact absurd hr hmodified
          split at hstep
          · next hs =>
            cases hstep
            rw [upd_upd]
            exact h.upd (hc.takenKeep hmem hres hholder hs)
          · next hs =>
            cases hstep
            apply h.unlinkIdle hother rfl
            rw [conn_upd_self]
            exact hc.takenIdle hmem hres hholder hs _
          · next hs =>
            cases hstep
            rw [upd_upd]
            exact h.upd (hc.taken hmem hres hholder (by simp [hs]) (by simp [hs])
              (hc.notIdle (by simp [hs])) _)
          · next hs =>
            cases hstep
            rw [upd_upd]
            exact h.upd (hc.taken hmem hres hholder (by simp [hs]) (by simp [hs])
              (hc.notIdle (by simp [hs])) _)
          · next hs =>
            cases hstep
            rw [upd_upd]
            exact h.upd (hc.overtakes hmem hres hs)
          · next hkeep hidle herror hreceiving hs =>
            cases hstep
            rw [upd_upd]
            exact h.upd (hc.taken hmem hres hholder hs hkeep (hc.notIdle hidle) _)
      · cases hstep
  · cases hstep

/-- The section behind a terminal result drops no reference: its thread does, in its last step. -/
theorem refInv_handleIncomingRequestService (h : RefInv s)
    (hstep : handleIncomingRequestService s c = some s') : RefInv s' := by
  have hc := h.conns c
  simp only [handleIncomingRequestService] at hstep
  split at hstep
  · next hholder =>
    cases hstep
    split
    · exact h.unlinkAlive (hc.handled hholder id none)
    · next hkeep => exact h.upd (hc.handled hholder (fun hon => hkeep (hc.alive hon)) none)
  · cases hstep

/-- A reply was sent: its result's reference is dropped, or a read operation takes over with
another. -/
theorem refInv_handleWriteResult {res : PrState × Errno} {timeout : Int} {added : Bool}
    (h : RefInv s) (hstep : handleWriteResult s c res timeout added = some s') : RefInv s' := by
  have hc := h.conns c
  simp only [handleWriteResult] at hstep
  split at hstep
  · next hmem =>
    have hwritten : ∀ call, RefInv ((s.upd c fun k =>
        { k with writeResults := k.writeResults.erase res }).upd c fun k => k.leave call) := by
      intro call
      rw [upd_upd]
      exact h.upd (hc.written hmem call)
    have hres := hc.writes res hmem
    simp only [handleReplyResult, conn_upd_self] at hstep
    split at hstep
    · split at hstep
      · split at hstep
        · next hholder =>
          split at hstep
          · next hadded =>
            cases hstep
            rw [upd_upd]
            exact h.upd (hc.readd hmem hholder timeout res.2)
          · cases hstep
            exact (hwritten _).logCompleted
        · cases hstep
      · cases hstep
        exact (hwritten _).logCompleted
    · cases hstep
      exact hwritten _
    · cases hstep
      exact hwritten _
    · cases hstep
      exact hwritten _
    · next hfinished herror hdeleted hstopped =>
      -- a write operation has no other results
      cases hr : res.1 <;> simp_all [PrState.terminal]
  · cases hstep

/-- The section of `handle_reply_result` links the entry or deletes it. -/
theorem refInv_handleReplyResultService (h : RefInv s)
    (hstep : handleReplyResultService s c = some s') : RefInv s' := by
  have hc := h.conns c
  simp only [handleReplyResultService] at hstep
  split at hstep
  · next error hholder =>
    obtain ⟨hs, hidle, hw⟩ := hc.replying (by rw [hholder]; rfl)
    cases hstep
    apply RefInv.logCompleted
    split
    · have hoff : c ∉ s.aliveList := by
        intro hon
        rw [hc.alive hon] at hs
        cases hs
      exact h.linkAlive hoff (hc.kept (.inr ⟨error, hholder⟩) _)
    · rw [upd_upd]
      exact h.upd ((hc.mpollerDel hw).resultLate hholder _)
  · cases hstep

/-- The last step of a thread drops its reference, and with the last one the entry. -/
theorem refInv_finish {i : Nat} (h : RefInv s) (hstep : finish s c i = some s') : RefInv s' := by
  simp only [finish, Option.bind_eq_bind, Option.bind_eq_some_iff] at hstep
  obtain ⟨call, hcall, hstep⟩ := hstep
  cases hstep
  obtain ⟨hi, -⟩ := List.getElem?_eq_some_iff.mp hcall
  apply RefInv.handled
  exact h.upd ((h.conns c).finish hi)

/-! ### The user -/

/-- `reply_reliable` takes over the reference of the idle list. -/
theorem refInv_replyReliable (h : RefInv s) (hstep : replyReliable s c = some s') : RefInv s' := by
  simp only [replyReliable] at hstep
  split at hstep
  · next hguard =>
    cases hstep
    exact h.unlinkIdle (fun _ _ => rfl) rfl ((h.conns c).replyReliable hguard.2 hguard.1)
  · cases hstep

/-- A reply that cannot be sent leaves the terminal result to come. -/
theorem refInv_replyFails {error : Errno} (h : RefInv s)
    (hstep : replyFails s c error = some s') : RefInv s' := by
  have hc := h.conns c
  simp only [replyFails] at hstep
  split at hstep
  · next hholder =>
    cases hstep
    have hw := (hc.replying (by rw [hholder]; rfl)).2.2
    exact h.upd ((hc.mpollerDel hw).replyFails hholder error)
  · cases hstep

/-- A reply that is sent whole keeps its reference up to the section. -/
theorem refInv_sendMessageSync {timeout : Int} (h : RefInv s)
    (hstep : sendMessageSync s c timeout = some s') : RefInv s' := by
  have hc := h.conns c
  simp only [sendMessageSync] at hstep
  split at hstep
  · next hholder =>
    have hw := (hc.replying (by rw [hholder]; rfl)).2.2
    split at hstep
    · cases hstep
      exact RefInv.logCompleted (h.upd ((hc.mpollerDel hw).sentClose hholder _))
    · cases hstep
      exact h.upd ((hc.sentKeep hholder).setTimeout timeout)
  · cases hstep

/-- And gives it to the thread that leaves. -/
theorem refInv_sendMessageSyncService (h : RefInv s)
    (hstep : sendMessageSyncService s c = some s') : RefInv s' := by
  have hc := h.conns c
  simp only [sendMessageSyncService] at hstep
  split at hstep
  · next hholder =>
    obtain ⟨hs, hidle, hw⟩ := hc.replying (by rw [hholder]; rfl)
    cases hstep
    apply RefInv.logCompleted
    split
    · have hoff : c ∉ s.aliveList := by
        intro hon
        rw [hc.alive hon] at hs
        cases hs
      exact h.linkAlive hoff (hc.kept (.inl hholder) _)
    · exact h.upd (hc.late hholder _)
  · cases hstep

/-- A reply that is left to the poller gives it to the write operation. -/
theorem refInv_sendMessageAsync {timeout : Int} (h : RefInv s)
    (hstep : sendMessageAsync s c timeout = some s') : RefInv s' := by
  have hc := h.conns c
  simp only [sendMessageAsync] at hstep
  split at hstep
  · next hholder =>
    split at hstep
    · split at hstep
      · next op t hreg =>
        cases hstep
        exact h.upd (hc.sentAsync hholder hreg timeout)
      · cases hstep
        exact h.upd (hc.sentNowhere hholder)
    · next hs => exact absurd (hc.replying (by rw [hholder]; rfl)).1 hs
  · cases hstep

/-- `shutdown` takes over the reference of the idle list as well. -/
theorem refInv_targetShutdown (h : RefInv s) (hstep : targetShutdown s c = some s') :
    RefInv s' := by
  have hc := h.conns c
  simp only [targetShutdown] at hstep
  split at hstep
  · next hguard =>
    cases hstep
    have hw : ¬ (s.conn c).writing := by
      intro hw
      have hidle := (hc.writing hw).2
      rw [hguard.2] at hidle
      cases hidle
    exact h.unlinkIdle (fun _ _ => rfl) rfl ((hc.mpollerDel hw).shutdown hguard.2 hguard.1)
  · cases hstep

/-- An entry that is drained is deleted and keeps its registration's reference in the pipe. -/
theorem refInv_drainOne (h : RefInv s) (hon : c ∈ s.aliveList) : RefInv (drainOne s c) := by
  have hc := h.conns c
  have hw : ¬ (s.conn c).writing := by
    intro hw
    have hs := (hc.writing hw).1
    rw [hc.alive hon] at hs
    cases hs
  apply RefInv.logged
  exact h.unlinkAlive ((hc.mpollerDel hw).drained hon)

/-- The drain takes its entries from the front of the alive list. -/
theorem refInv_drainLoop (max : Int) : ∀ (cnt : Int) (entries : List C) (s : State C),
    s.aliveList = entries → RefInv s → RefInv (drainLoop max cnt entries s)
  | _, [], _, _, h => h
  | cnt, c :: rest, s, hlist, h => by
    simp only [drainLoop]
    split
    · exact h
    · apply refInv_drainLoop max (cnt + 1) rest
      · simp [drainOne, State.unlinkAlive, hlist]
      · exact refInv_drainOne h (by simp [hlist])

end States

/-! ## Every run -/

section Runs

variable {s s' : State C} {a : Label C} {c : C}

/-- Every step keeps the references right, whatever becomes of the lists. -/
theorem refInv_step (h : RefInv s) (hstep : step s a = some s') : RefInv s' := by
  cases a with
  | acceptConn => exact refInv_acceptConn h hstep
  | createRequest => exact refInv_createRequest h hstep
  | createRequestChecked => exact refInv_createRequestChecked h hstep
  | createRequestService => exact refInv_createRequestService h hstep
  | createRequestSession => exact refInv_createRequestSession h hstep
  | appendMessage => exact refInv_appendMessage h hstep
  | appendMessageDone => exact refInv_appendMessageDone h hstep
  | readEnds => exact refInv_readEnds h hstep
  | writeEnds => exact refInv_writeEnds h hstep
  | handlePipe => exact refInv_handlePipe h hstep
  | handleReadResult => exact refInv_handleReadResult h hstep
  | handleIncomingRequestService => exact refInv_handleIncomingRequestService h hstep
  | handleWriteResult => exact refInv_handleWriteResult h hstep
  | handleReplyResultService => exact refInv_handleReplyResultService h hstep
  | finish => exact refInv_finish h hstep
  | replyReliable => exact refInv_replyReliable h hstep
  | replyFails => exact refInv_replyFails h hstep
  | sendMessageSync => exact refInv_sendMessageSync h hstep
  | sendMessageSyncService => exact refInv_sendMessageSyncService h hstep
  | sendMessageAsync => exact refInv_sendMessageAsync h hstep
  | targetShutdown => exact refInv_targetShutdown h hstep
  | drain max =>
    cases hstep
    exact refInv_drainLoop max 0 s.aliveList s rfl h
  | shutdownService =>
    cases hstep
    exact ⟨h.nodup, h.conns⟩
  | shutdownServiceDrain =>
    simp only [step, shutdownServiceDrain] at hstep
    split at hstep
    · cases hstep
      exact refInv_drainLoop (-1) 0 s.aliveList _ rfl ⟨h.nodup, h.conns⟩
    · cases hstep
  | deinit =>
    cases hstep
    exact ⟨h.nodup, h.conns⟩

theorem refInv_listening (C : Type) [DecidableEq C] (listenFd : Int) :
    RefInv (State.listening C listenFd) := by
  refine ⟨List.nodup_nil, fun c => ?_⟩
  simpa [State.listening] using Counted.absent

/-- In every run every entry is `Counted`. -/
theorem inductive_refInv : InductiveInvariant (system C) (fun _ _ => True) RefInv where
  init := by
    rintro s ⟨listenFd, rfl⟩
    exact refInv_listening C listenFd
  step _ _ _ h _ := refInv_step h

/-- The connection whose entry a step uses. The poller hands a node on without looking at it, and a
result that says MODIFIED is dropped unseen. -/
def Label.uses : Label C → Option C
  | .createRequest c | .createRequestChecked c | .createRequestService c
  | .createRequestSession c _ | .appendMessage c _ | .appendMessageDone c
  | .handleIncomingRequestService c | .handleWriteResult c _ _ _ | .handleReplyResultService c
  | .finish c _ | .replyReliable c | .replyFails c _ | .sendMessageSync c _
  | .sendMessageSyncService c | .sendMessageAsync c _ | .targetShutdown c => some c
  | .handleReadResult c res => if res.1 = .modified then none else some c
  | .acceptConn _ _ | .readEnds _ _ | .writeEnds _ _ | .handlePipe _ | .drain _
  | .shutdownService | .shutdownServiceDrain | .deinit => none

/-- Nothing is under way with an entry that nobody holds. -/
theorem Counted.gone {on : Prop} {k : Conn} (h : Counted on k) (hzero : k.refs = 0) :
    k.reg = none ∧ k.phase = .rest ∧ k.msg = false ∧ k.holder = .none ∧ k.idle = false ∧
      k.tails = [] ∧ k.writeResults = [] ∧ ∀ r ∈ k.readResults, r.1 = .modified := by
  have hsum := hzero
  rw [Conn.refs, tokens_eq] at hsum
  have htokens : k.tokens = 0 := by
    rw [tokens_eq]
    omega
  have hpolled : ¬ 1 ≤ k.polled := by
    rw [polled_eq]
    omega
  have hheld : ¬ (k.idle = true ∨ k.holder.replying = true ∨ k.state = .success) := by
    intro hh
    have hone := h.held hh
    omega
  refine ⟨?_, ?_, ?_, ?_, ?_, ?_, ?_, ?_⟩
  · cases hreg : k.reg with
    | none => rfl
    | some r =>
      have hone := registered_some hreg
      omega
  · by_contra hphase
    exact hpolled (h.polled hphase)
  · by_contra hmsg
    exact hpolled (h.msg (by simpa using hmsg)).2
  · cases hholder : k.holder with
    | none => rfl
    | terminal =>
      rw [if_pos hholder] at hsum
      omega
    | replySend => exact absurd (.inr (.inl (by rw [hholder]; rfl))) hheld
    | replyService => exact absurd (.inr (.inl (by rw [hholder]; rfl))) hheld
    | resultService error => exact absurd (.inr (.inl (by rw [hholder]; rfl))) hheld
  · by_contra hidle
    exact hheld (.inl (by simpa using hidle))
  · exact List.eq_nil_of_length_eq_zero (by omega)
  · exact List.eq_nil_of_length_eq_zero (by omega)
  · intro r hr
    have hended := ended_erase hr
    have hsucceeded := succeeded_erase hr
    have hsuccesses : k.successes = 0 := by
      by_contra hne
      rcases (h.successes (Nat.pos_of_ne_zero hne)).2 with hs | hs
      · exact hheld (.inr (.inr hs))
      · rw [if_pos hs] at hsum
        omega
    rw [Conn.successes] at hsuccesses
    cases hres : r.1 <;> simp [hres, PrState.terminal] at hended hsucceeded ⊢ <;> omega

/-- A step that uses an entry finds a reference to it. -/
theorem step_held (h : RefInv s) (hstep : step s a = some s') (huses : a.uses = some c) :
    0 < (s.conn c).refs := by
  apply Nat.pos_of_ne_zero
  intro hzero
  obtain ⟨hreg, hphase, hmsg, hholder, hidle, htails, hwrites, hreads⟩ := (h.conns c).gone hzero
  cases a with
  | handleReadResult d res =>
    simp only [Label.uses] at huses
    split at huses
    · cases huses
    · next hres =>
      cases huses
      have hmem : res ∉ (s.conn c).readResults := fun hmem => hres (hreads res hmem)
      simp [step, handleReadResult, hmem] at hstep
  | _ =>
    cases huses <;>
      simp [step, createRequest, createRequestChecked, createRequestService, createRequestSession,
        appendMessage, appendMessageDone, handleIncomingRequestService, handleWriteResult,
        handleReplyResultService, finish, replyReliable, replyFails, sendMessageSync,
        sendMessageSyncService, sendMessageAsync, targetShutdown, hreg, hphase, hmsg, hholder, hidle,
        htails, hwrites] at hstep

end Runs

/-! ## What becomes of an entry -/

section Onward

/-- No entry is accepted, and none that was released is not. -/
def Onward (s s' : State C) : Prop :=
  ∀ d, (s'.conn d).accepted = (s.conn d).accepted ∧ (s.conn d).released ≤ (s'.conn d).released

variable {s s' : State C} {c : C} {f : Conn → Conn}

omit [DecidableEq C] in
theorem Onward.refl (s : State C) : Onward s s := fun _ => ⟨rfl, Nat.le_refl _⟩

/-- An edit that keeps `accepted` and releases no entry that was released. -/
theorem Onward.upd (h : Onward s s')
    (hf : ∀ k, (f k).accepted = k.accepted ∧ k.released ≤ (f k).released) :
    Onward s (s'.upd c f) := by
  intro d
  obtain ⟨haccepted, hreleased⟩ := h d
  by_cases hd : d = c
  · subst hd
    rw [conn_upd_self]
    exact ⟨(hf _).1.trans haccepted, Nat.le_trans hreleased (hf _).2⟩
  · rw [conn_upd_of_ne s' c f hd]
    exact ⟨haccepted, hreleased⟩

/-- The lists and the log have no part in it. -/
theorem Onward.unlinkIdle (h : Onward s s') : Onward s (s'.unlinkIdle c) :=
  h.upd (c := c) (f := fun k => { k with idle := false }) fun _ => ⟨rfl, Nat.le_refl _⟩

theorem Onward.linkIdle (h : Onward s s') : Onward s (s'.linkIdle c) :=
  h.upd (c := c) (f := fun k => { k with idle := true }) fun _ => ⟨rfl, Nat.le_refl _⟩

theorem Onward.unlinkAlive (h : Onward s s') : Onward s (s'.unlinkAlive c) := h

theorem Onward.linkAlive (h : Onward s s') : Onward s (s'.linkAlive c) := h

omit [DecidableEq C] in
theorem Onward.logCompleted (h : Onward s s') : Onward s (s'.logCompleted c) := h

/-- `create_request` returns NULL: the operation ends. -/
theorem onward_failRequest (error : Errno) (k : Conn) :
    (failRequest error k).accepted = k.accepted ∧ k.released ≤ (failRequest error k).released := by
  unfold failRequest
  split
  · exact ⟨rfl, Nat.le_refl _⟩
  · exact ⟨rfl, Nat.le_refl _⟩

theorem onward_drainLoop (max : Int) : ∀ (cnt : Int) (entries : List C) (s' : State C),
    Onward s s' → Onward s (drainLoop max cnt entries s')
  | _, [], _, h => h
  | cnt, c :: rest, s', h => by
    simp only [drainLoop]
    split
    · exact h
    · have hclosed : Onward s ((s'.unlinkAlive c).upd c fun k =>
          { mpollerDel k with state := .closing }) :=
        Onward.upd h.unlinkAlive fun _ => ⟨rfl, Nat.le_refl _⟩
      exact onward_drainLoop max (cnt + 1) rest _ hclosed

/-- A release is counted up. -/
theorem onward_finish {i : Nat} (hstep : finish s c i = some s') : Onward s s' := by
  simp only [finish, Option.bind_eq_bind, Option.bind_eq_some_iff] at hstep
  obtain ⟨call, -, hstep⟩ := hstep
  cases hstep
  have hupd : Onward s (s.upd c fun k =>
      { k with
        tails := k.tails.eraseIdx i
        ref := k.ref - 1
        released := if k.ref - 1 = 0 then k.released + 1 else k.released }) := by
    refine Onward.upd (.refl s) fun k => ⟨rfl, ?_⟩
    show k.released ≤ if k.ref - 1 = 0 then k.released + 1 else k.released
    split <;> omega
  exact hupd

/-- Only `accept_conn` makes an entry. -/
theorem onward_step {a : Label C} (hstep : step s a = some s')
    (ha : ∀ c timeout, a ≠ .acceptConn c timeout) : Onward s s' := by
  cases a
  case acceptConn c timeout => exact absurd rfl (ha c timeout)
  case finish => exact onward_finish hstep
  case drain max =>
    cases hstep
    exact onward_drainLoop max 0 s.aliveList s (.refl s)
  case shutdownServiceDrain =>
    simp only [step, shutdownServiceDrain] at hstep
    split at hstep
    · cases hstep
      exact onward_drainLoop (-1) 0 s.aliveList _ (.refl s)
    · cases hstep
  -- the others are compositions of the edits above
  all_goals
    simp only [step, createRequest, createRequestChecked, createRequestService,
      createRequestSession, appendMessage, appendMessageDone, readEnds, writeEnds, handlePipe,
      handleReadResult, handleIncomingRequest, handleIncomingRequestService, handleWriteResult,
      handleReplyResult, handleReplyResultService, replyReliable, replyFails, sendMessageSync,
      sendMessageSyncService, sendMessageAsync, targetShutdown, shutdownService] at hstep
    repeat' split at hstep
    all_goals cases hstep
    all_goals repeat' first
      | with_reducible first
        | exact .refl s
        | apply Onward.upd
        | apply Onward.unlinkIdle
        | apply Onward.linkIdle
        | apply Onward.unlinkAlive
        | apply Onward.linkAlive
        | apply Onward.logCompleted
      | split
      | exact onward_failRequest _
      | exact fun _ => ⟨rfl, Nat.le_refl _⟩

end Onward

end WorkflowKernel.Communicator.Server
