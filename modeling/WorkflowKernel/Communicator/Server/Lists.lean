import WorkflowKernel.Communicator.Server.Invariant
import Mathlib.Data.List.Nodup

/-!
# A connection is unlinked from the list it is on

## What is proved

- `inv_step`: a step keeps the invariant, two cases apart: `new_session` returns NULL for an entry
  that was just unlinked from the alive list, whose state stays `CONN_STATE_KEEPALIVE`; the section
  of `send_message_sync` finds `listen_fd` negative and leaves the entry `CONN_STATE_IDLE`.
- `linksOk_of_kept`: in every run that avoids the two, every entry is unlinked from a list that it
  is on, and linked when it is on neither.
- `newSession_null_unlinks_twice`, `late_reply_unlinks_twice`: runs in which they do the damage.
-/

namespace WorkflowKernel.Communicator.Server

open WorkflowKernel.Transition

variable {C : Type} [DecidableEq C]

/-- The entry that was unlinked was on that list; the one that was linked was on neither. -/
def Event.Ok : Event C → Prop
  | .link _ _ off => off = true
  | .unlink _ _ on => on = true
  | .completed _ _ | .drained _ => True

structure Inv (s : State C) : Prop where
  nodup : s.aliveList.Nodup
  conns : ∀ c, ConnOk (c ∈ s.aliveList) (s.conn c)
  log : ∀ e ∈ s.log, e.Ok

/-! ## Edits of the state -/

section Fields

variable (s : State C) (c : C) (f : Conn → Conn)

/-- The edited connection, -/
@[simp] theorem conn_upd_self : (s.upd c f).conn c = f (s.conn c) := Function.update_self ..

@[simp] theorem aliveList_upd : (s.upd c f).aliveList = s.aliveList := rfl

@[simp] theorem log_upd : (s.upd c f).log = s.log := rfl

@[simp] theorem listenFd_upd : (s.upd c f).listenFd = s.listenFd := rfl

@[simp] theorem late_upd : (s.upd c f).late = s.late := rfl

/-- edited twice, -/
@[simp] theorem upd_upd (g : Conn → Conn) : (s.upd c f).upd c g = s.upd c fun k => g (f k) := by
  simp [State.upd]

/-- and the others. -/
theorem conn_upd_of_ne {d : C} (hd : d ≠ c) : (s.upd c f).conn d = s.conn d :=
  Function.update_of_ne hd ..

omit [DecidableEq C] in
/-- A completed reply is logged and not stored. -/
@[simp] theorem conn_logCompleted : (s.logCompleted c).conn = s.conn := rfl

/-- The alive list is beside the connections, -/
@[simp] theorem conn_linkAlive : (s.linkAlive c).conn = s.conn := rfl

@[simp] theorem conn_unlinkAlive : (s.unlinkAlive c).conn = s.conn := rfl

/-- the idle list is a flag of each. -/
@[simp] theorem conn_unlinkIdle_self :
    (s.unlinkIdle c).conn c = { s.conn c with idle := false } := Function.update_self ..

@[simp] theorem conn_linkIdle_self :
    (s.linkIdle c).conn c = { s.conn c with idle := true } := Function.update_self ..

/-- An entry is alone on its idle list. -/
theorem conn_unlinkIdle_of_ne {d : C} (hd : d ≠ c) : (s.unlinkIdle c).conn d = s.conn d :=
  Function.update_of_ne hd ..

theorem conn_linkIdle_of_ne {d : C} (hd : d ≠ c) : (s.linkIdle c).conn d = s.conn d :=
  Function.update_of_ne hd ..

end Fields

section Edits

variable {s s' : State C} {c : C}

/-- An edit of one connection and of its membership in the alive list. -/
theorem Inv.edit (h : Inv s) (c : C) (conn : ∀ d, d ≠ c → s'.conn d = s.conn d)
    (mem : ∀ d, d ≠ c → (d ∈ s'.aliveList ↔ d ∈ s.aliveList)) (nodup : s'.aliveList.Nodup)
    (here : ConnOk (c ∈ s'.aliveList) (s'.conn c)) (log : ∀ e ∈ s'.log, e ∈ s.log ∨ e.Ok) :
    Inv s' where
  nodup := nodup
  conns d := by
    by_cases hd : d = c
    · subst hd
      exact here
    · rw [conn d hd, mem d hd]
      exact h.conns d
  log e he := (log e he).elim (h.log e) id

/-- An edit of one connection that leaves the alive list alone. -/
theorem Inv.upd (h : Inv s) {f : Conn → Conn}
    (here : ConnOk (c ∈ s.aliveList) (f (s.conn c))) : Inv (s.upd c f) :=
  h.edit c (fun _ hd => conn_upd_of_ne s c f hd) (fun _ _ => Iff.rfl) h.nodup
    (by rwa [conn_upd_self]) fun _ => .inl

omit [DecidableEq C] in
/-- What is logged without a list being touched. -/
theorem Inv.logged (h : Inv s) {e : Event C} (he : e.Ok) :
    Inv { s with log := s.log ++ [e] } where
  nodup := h.nodup
  conns := h.conns
  log e' he' := by
    rcases List.mem_append.mp he' with he' | he'
    · exact h.log e' he'
    · rw [List.mem_singleton.mp he']
      exact he

omit [DecidableEq C] in
theorem Inv.logCompleted (h : Inv s) : Inv (s.logCompleted c) := h.logged trivial

/-- An entry on the alive list is unlinked from it. -/
theorem Inv.unlinkAlive (h : Inv s) {f : Conn → Conn} (hon : c ∈ s.aliveList)
    (here : ConnOk False (f (s.conn c))) : Inv ((s.unlinkAlive c).upd c f) := by
  refine h.edit c (fun _ hd => conn_upd_of_ne _ c f hd) (fun d hd => ?_) (h.nodup.erase c) ?_ ?_
  · exact List.mem_erase_of_ne hd
  · have hoff : c ∉ s.aliveList.erase c := h.nodup.not_mem_erase
    rw [conn_upd_self]
    simpa [State.unlinkAlive, hoff] using here
  · intro e he
    rcases List.mem_append.mp he with he | he
    · exact .inl he
    · rw [List.mem_singleton.mp he]
      exact .inr (by simp [Event.Ok, hon])

/-- An entry on neither list is linked into the alive list. -/
theorem Inv.linkAlive (h : Inv s) {f g : Conn → Conn} (hoff : c ∉ s.aliveList)
    (hidle : (f (s.conn c)).idle = false) (here : ConnOk True (g (f (s.conn c)))) :
    Inv (((s.upd c f).linkAlive c).upd c g) := by
  refine h.edit c (fun d hd => ?_) (fun d hd => ?_) ?_ ?_ ?_
  · rw [conn_upd_of_ne _ c g hd]
    exact conn_upd_of_ne s c f hd
  · simp [State.linkAlive, hd]
  · exact List.nodup_append.mpr ⟨h.nodup, List.nodup_singleton c, by
      intro a ha b hb
      rw [List.mem_singleton.mp hb]
      exact fun hab => hoff (hab ▸ ha)⟩
  · rw [conn_upd_self]
    simpa [State.linkAlive] using here
  · intro e he
    rcases List.mem_append.mp he with he | he
    · exact .inl he
    · rw [List.mem_singleton.mp he]
      exact .inr (by simp [Event.Ok, hoff, hidle])

/-- An entry on the idle list is unlinked from it. -/
theorem Inv.unlinkIdle (h : Inv s) {f : Conn → Conn} (hidle : (s.conn c).idle = true)
    (here : ConnOk (c ∈ s.aliveList) (f { s.conn c with idle := false })) :
    Inv ((s.unlinkIdle c).upd c f) := by
  refine h.edit c (fun d hd => ?_) (fun _ _ => Iff.rfl) h.nodup ?_ ?_
  · rw [conn_upd_of_ne _ c f hd, conn_unlinkIdle_of_ne s c hd]
  · rw [conn_upd_self, conn_unlinkIdle_self]
    exact here
  · intro e he
    rcases List.mem_append.mp he with he | he
    · exact .inl he
    · rw [List.mem_singleton.mp he]
      exact .inr hidle

/-- An entry on neither list is linked into the idle list. -/
theorem Inv.linkIdle (h : Inv s) {f : Conn → Conn} (hoff : c ∉ s.aliveList)
    (hidle : (s.conn c).idle = false)
    (here : ConnOk (c ∈ s.aliveList) (f { s.conn c with idle := true })) :
    Inv ((s.linkIdle c).upd c f) := by
  refine h.edit c (fun d hd => ?_) (fun _ _ => Iff.rfl) h.nodup ?_ ?_
  · rw [conn_upd_of_ne _ c f hd, conn_linkIdle_of_ne s c hd]
  · rw [conn_upd_self, conn_linkIdle_self]
    exact here
  · intro e he
    rcases List.mem_append.mp he with he | he
    · exact .inl he
    · rw [List.mem_singleton.mp he]
      exact .inr (by simp [Event.Ok, hoff, hidle])

end Edits

/-! ## The functions of the source -/

section Functions

variable {s s' : State C} {c : C}

/-- A new entry is on neither list. -/
theorem inv_acceptConn {timeout : Int} (h : Inv s) (hstep : acceptConn s c timeout = some s') :
    Inv s' := by
  simp only [acceptConn] at hstep
  split at hstep
  · cases hstep
  · next hnew =>
    cases hstep
    have hoff : c ∉ s.aliveList := by
      intro hon
      have hs := (h.conns c).alive hon
      rw [(h.conns c).fresh (by simpa using hnew)] at hs
      cases hs
    refine h.upd ?_
    split <;>
      (constructor <;> simp [hoff, Conn.absent, Conn.tokens, Conn.polled, Conn.writing, mpollerDel,
        Holder.replying, PrState.terminal])

/-- `create_request` is called; nothing has changed yet. -/
theorem inv_createRequest (h : Inv s) (hstep : createRequest s c = some s') : Inv s' := by
  simp only [createRequest] at hstep
  split at hstep
  · next hguard =>
    cases hstep
    obtain ⟨hreg, hphase, hmsg⟩ := hguard
    refine h.upd ((h.conns c).retoken rfl rfl rfl rfl (.inl rfl) Iff.rfl ?_ (fun _ => ?_) id
      (h.conns c).reads)
    · split <;> simp [hphase]
    · cases hk : (s.conn c).reg <;> simp [hk, Conn.polled] at hreg ⊢
  · cases hstep

/-- It has looked at the state of the entry. -/
theorem inv_createRequestChecked (h : Inv s) (hstep : createRequestChecked s c = some s') :
    Inv s' := by
  simp only [createRequestChecked] at hstep
  split at hstep
  · next hguard =>
    cases hstep
    refine h.upd ((h.conns c).retoken rfl rfl rfl rfl (.inl rfl) Iff.rfl (by simp [hguard.1])
      (fun _ => ?_) id (h.conns c).reads)
    exact (h.conns c).polled (by rw [hguard.1]; decide)
  · cases hstep

/-- The entry that `create_request` lets pass is off the lists. -/
theorem ConnOk.pass {on : Prop} {k : Conn} (h : ConnOk on k) (hphase : k.phase = .service)
    (hs : k.state = .keepalive ∨ k.state = .connected) :
    ConnOk False { k with phase := .session } := by
  have hne : k.state ≠ .idle := by rcases hs with hs | hs <;> rw [hs] <;> decide
  refine ⟨h.fresh, False.elim, h.idle, fun _ => .inr (.inl rfl), fun hi => absurd hi hne, h.once,
    fun _ => ⟨hs, id⟩, fun _ => ?_, h.msg, h.replying, h.writing, h.reads⟩
  exact h.polled (by rw [hphase]; decide)

/-- Its section unlinks a `CONN_STATE_KEEPALIVE` entry, which is on the alive list. -/
theorem inv_createRequestService (h : Inv s) (hstep : createRequestService s c = some s') :
    Inv s' := by
  have hc := h.conns c
  simp only [createRequestService] at hstep
  split at hstep
  · next hphase =>
    split at hstep
    · next hkeep =>
      cases hstep
      -- the poller thread has the operation, so the entry has not been unlinked yet
      have hpos := hc.polled (by rw [hphase]; decide)
      have hon : c ∈ s.aliveList := by
        rcases hc.keepalive hkeep with hon | hp | htok
        · exact hon
        · rw [hphase] at hp
          cases hp
        · rw [Conn.tokens] at htok
          omega
      exact h.unlinkAlive hon (hc.pass hphase (.inl hkeep))
    · split at hstep
      · next hne hconn =>
        cases hstep
        have hoff : c ∉ s.aliveList := (hc.loose hne (by rw [hconn]; decide)).1
        refine h.upd ?_
        simpa [hoff] using hc.pass hphase (.inr hconn)
      · cases hstep
        exact h.upd (hc.failRequest EBADMSG (.inl (by rw [hphase]; decide)))
  · cases hstep

/-- A failure forgets where `create_request` stood. -/
theorem failRequest_phase (error : Errno) (k : Conn) (phase : Phase) (msg : Bool) :
    failRequest error { k with phase := phase, msg := msg } = failRequest error k := by
  cases hreg : k.reg with
  | none => simp [failRequest, hreg]
  | some r =>
    obtain ⟨op, timeout⟩ := r
    cases op <;> simp [failRequest, hreg]

/-- `new_session` does not return NULL for an entry that was just taken off the alive list. -/
def SessionMade (s : State C) (c : C) (o : NewSession) : Prop :=
  ∀ error, o = .null error → (s.conn c).state ≠ .keepalive

/-- A session is made, or the entry was not just unlinked. -/
theorem inv_createRequestSession {o : NewSession} (h : Inv s) (made : SessionMade s c o)
    (hstep : createRequestSession s c o = some s') : Inv s' := by
  have hc := h.conns c
  simp only [createRequestSession] at hstep
  split at hstep
  · next hphase =>
    obtain ⟨hstate, hoff⟩ := hc.session hphase
    have hidle : (s.conn c).state ≠ .idle := by rcases hstate with hs | hs <;> rw [hs] <;> decide
    have hacc : (s.conn c).accepted ≠ false :=
      hc.accepted (by rcases hstate with hs | hs <;> rw [hs] <;> decide)
    cases o with
    | null error =>
      cases hstep
      exact h.upd (hc.failRequest error (.inr ⟨made error rfl, hidle⟩))
    | session timeout messageIn error =>
      -- the entry is received for, whatever comes of the message
      have hreceiving : ∀ phase msg, (phase ≠ .rest → phase = .service) →
          ConnOk (c ∈ s.aliveList) { mpollerSetTimeout timeout
            { s.conn c with seq := (s.conn c).seq + 1, state := .receiving } with
            phase := phase, msg := msg } := by
        intro phase msg hrest
        refine ConnOk.settled (fun ha => absurd ha hacc) (by simp [mpollerSetTimeout])
          (by simp [mpollerSetTimeout]) hoff ?_ ?_ ?_ ?_ ?_ (fun _ => rfl) ?_ hc.reads
        · by_contra hi
          exact hidle (hc.idle (by simpa [mpollerSetTimeout] using hi))
        · by_contra hr
          exact hidle (hc.replying (by simpa [mpollerSetTimeout] using hr)).1
        · intro hw
          exact hidle (hc.writing ((writing_mpollerSetTimeout timeout).mp hw)).1
        · intro hp
          have hser : phase = .service := hrest (by rw [show phase = .session from hp]; decide)
          rw [show phase = .session from hp] at hser
          cases hser
        · intro _
          have hpos := hc.polled (by rw [hphase]; decide)
          exact (polled_mpollerSetTimeout (k := s.conn c) timeout).symm ▸ hpos
        · exact (tokens_mpollerSetTimeout (k := s.conn c) timeout).symm ▸ hc.once
      dsimp only at hstep
      split at hstep
      · cases hstep
        rw [upd_upd]
        exact h.upd (hreceiving .rest true (by simp))
      · cases hstep
        rw [upd_upd]
        have hfail := (hreceiving .service false fun _ => rfl).failRequest error (.inl (by simp))
        rw [failRequest_phase] at hfail
        exact h.upd hfail
  · cases hstep

theorem inv_appendMessage {timeout : Int} (h : Inv s)
    (hstep : appendMessage s c timeout = some s') : Inv s' := by
  simp only [appendMessage] at hstep
  split at hstep
  · cases hstep
    exact h.upd ((h.conns c).setTimeout timeout)
  · cases hstep

/-- A complete message makes the entry `CONN_STATE_SUCCESS`, off both lists. -/
theorem inv_appendMessageDone (h : Inv s) (hstep : appendMessageDone s c = some s') : Inv s' := by
  have hc := h.conns c
  simp only [appendMessageDone] at hstep
  split at hstep
  · next hguard =>
    cases hstep
    obtain ⟨hmsg, hphase⟩ := hguard
    have hs := hc.msg hmsg
    obtain ⟨hoff, hidle, hrep, hw⟩ := hc.loose (by rw [hs]; decide) (by rw [hs]; decide)
    refine h.upd (ConnOk.settled (fun ha => ?_) (by simp [mpollerSetTimeout])
      (by simp [mpollerSetTimeout]) hoff hidle hrep ?_ ?_ ?_ ?_ ?_ hc.reads)
    · exact absurd ha (hc.accepted (by rw [hs]; decide))
    · rw [writing_mpollerSetTimeout]
      exact hw
    · simp [mpollerSetTimeout, hphase]
    · simp [mpollerSetTimeout, hphase]
    · simp [mpollerSetTimeout]
    · have hle := hc.once
      rw [tokens_mpollerSetTimeout]
      simpa [Conn.tokens, Conn.polled, List.countP_append, PrState.terminal] using hle
  · cases hstep

theorem ends_terminal {res : PrState × Errno}
    (hres : res.1 = .finished ∨ res.1 = .error ∨ res.1 = .stopped) : res.1.terminal = true := by
  rcases hres with hres | hres | hres <;> rw [hres] <;> rfl

/-- A read operation ends, with its result to come. -/
theorem inv_readEnds {res : PrState × Errno} (h : Inv s) (hstep : readEnds s c res = some s') :
    Inv s' := by
  have hc := h.conns c
  simp only [readEnds] at hstep
  split at hstep
  · next hguard =>
    cases hstep
    obtain ⟨hreg, hphase, hres⟩ := hguard
    obtain ⟨⟨op, timeout⟩, hsome, rfl⟩ := Option.map_eq_some_iff.mp hreg
    refine h.upd (hc.retoken rfl rfl rfl rfl (.inl ?_) ?_ Iff.rfl (fun hp => absurd hphase hp)
      (by simp) hc.reads)
    · simp only [Conn.tokens, Conn.polled, hsome, List.countP_append, List.countP_cons,
        List.countP_nil, ends_terminal hres, if_true, Option.toList_none, Option.toList_some,
        List.length_nil, List.length_singleton]
      omega
    · simp [Conn.writing, hsome]
  · cases hstep

/-- A write operation ends. -/
theorem inv_writeEnds {res : PrState × Errno} (h : Inv s) (hstep : writeEnds s c res = some s') :
    Inv s' := by
  have hc := h.conns c
  simp only [writeEnds] at hstep
  split at hstep
  · next hguard =>
    cases hstep
    obtain ⟨hreg, hphase, hres⟩ := hguard
    obtain ⟨⟨op, timeout⟩, hsome, rfl⟩ := Option.map_eq_some_iff.mp hreg
    refine h.upd (hc.retoken rfl rfl rfl rfl (.inl ?_) ?_ Iff.rfl (fun hp => absurd hphase hp)
      id hc.reads)
    · simp only [Conn.tokens, Conn.polled, hsome, List.length_append, Option.toList_none,
        Option.toList_some, List.length_nil, List.length_singleton]
      omega
    · simp [Conn.writing, hsome]
  · cases hstep

/-- A removed node's result comes through the pipe. -/
theorem inv_handlePipe (h : Inv s) (hstep : handlePipe s c = some s') : Inv s' := by
  have hc := h.conns c
  simp only [handlePipe] at hstep
  split at hstep
  · cases hstep
  · next op state rest hpipe =>
    split at hstep
    · next hphase =>
      cases hstep
      obtain rfl : op = .read := hc.reads (op, state) (by simp [hpipe])
      refine h.upd (hc.retoken rfl rfl rfl rfl (.inl ?_) Iff.rfl Iff.rfl
        (fun hp => absurd hphase hp) (by simp) fun p hp => hc.reads p ?_)
      · simp only [Conn.tokens, Conn.polled, hpipe, List.countP_append, List.countP_cons,
          List.countP_nil]
        omega
      · rw [hpipe]
        exact List.mem_cons_of_mem _ hp
    · cases hstep

/-- A success result that is taken from the queue, or one of a replaced operation. -/
theorem ConnOk.skip {on : Prop} {k : Conn} {res : PrState × Errno} (h : ConnOk on k)
    (hres : res.1.terminal = false) :
    ConnOk on { k with readResults := k.readResults.erase res } := by
  refine h.retoken rfl rfl rfl rfl (.inl ?_) Iff.rfl Iff.rfl h.polled id h.reads
  have herase : (k.readResults.erase res).countP (fun r => r.1.terminal) =
      k.readResults.countP (fun r => r.1.terminal) := by
    by_cases hmem : res ∈ k.readResults
    · have hperm := (List.perm_cons_erase hmem).countP_eq fun r => r.1.terminal
      rw [List.countP_cons, if_neg (by simp [hres])] at hperm
      omega
    · rw [List.erase_of_not_mem hmem]
  simp only [Conn.tokens, Conn.polled, herase]

/-- The pop of a result leaves the invariant, for a terminal result because its operation is over. -/
theorem Inv.pop {res : PrState × Errno} (h : Inv s) (hmem : res ∈ (s.conn c).readResults) :
    Inv (s.upd c fun k => { k with readResults := k.readResults.erase res }) := by
  have hc := h.conns c
  cases hres : res.1.terminal with
  | false => exact h.upd (hc.skip hres)
  | true =>
    obtain ⟨-, -, -, -, hzero⟩ := hc.taken hmem hres
    exact h.upd (hc.retoken rfl rfl rfl rfl (.inr hzero) Iff.rfl Iff.rfl hc.polled id hc.reads)

/-- `handle_incoming_request` has taken a terminal result of an entry that it sees
`CONN_STATE_KEEPALIVE`, which is on the alive list. -/
theorem ConnOk.terminal {on : Prop} {k : Conn} (h : ConnOk on k) (hon : on)
    (hzero : k.tokens = 0) : ConnOk on { k with holder := .terminal } := by
  have hs := h.alive hon
  obtain ⟨hidle, -, hw, -⟩ := h.onAlive hon
  refine ⟨h.fresh, h.alive, h.idle, fun _ => .inl hon, fun hi => ?_, ?_, h.session, h.polled, h.msg,
    fun hr => ?_, h.writing, h.reads⟩
  · rw [hs] at hi
    cases hi
  · rw [Conn.tokens] at hzero ⊢
    simp only [if_true]
    have hpolled : ({ k with holder := .terminal } : Conn).polled = k.polled := rfl
    omega
  · cases hr

/-- The entry is off the idle list and its operation is over. -/
theorem ConnOk.ended {on : Prop} {k : Conn} (h : ConnOk on k) (hzero : k.tokens = 0)
    (hholder : k.holder = .none) (hw : ¬ k.writing) :
    ConnOk on { k with idle := false } := by
  refine ⟨h.fresh, h.alive, by simp, h.keepalive, fun _ => .inr (.inr (.inr hzero)), h.once,
    h.session, h.polled, h.msg, fun hr => ?_, fun hw' => absurd hw' hw, h.reads⟩
  rw [show (({ k with idle := false } : Conn).holder) = .none from hholder] at hr
  cases hr

/-- The entry of a complete message becomes idle. -/
theorem ConnOk.linkedIdle {on : Prop} {k : Conn} (h : ConnOk on k) (hs : k.state = .success)
    (ref : Int) : ConnOk on { k with idle := true, ref := ref, state := .idle } := by
  obtain ⟨hoff, -, hrep, hw⟩ := h.loose (by rw [hs]; decide) (by rw [hs]; decide)
  refine ⟨fun ha => ?_, fun hon => absurd hon hoff, fun _ => rfl, by simp, fun _ => .inl rfl, h.once,
    fun hp => ?_, h.polled, ?_, ?_, fun hw' => absurd hw' hw, h.reads⟩
  · exact absurd ha (h.accepted (by rw [hs]; decide))
  · rcases (h.session hp).1 with hs' | hs' <;> rw [hs'] at hs <;> cases hs
  · simp [h.noMsg (by rw [hs]; decide)]
  · simp [hrep]

/-- The section of `handle_incoming_request` links the entry into the idle list, or unlinks it
there. -/
theorem inv_handleIncomingRequest {res : PrState × Errno} (h : Inv s)
    (hmem : res ∈ (s.conn c).readResults) (hres : res.1 ≠ .modified)
    (hstep : handleIncomingRequest
      (s.upd c fun k => { k with readResults := k.readResults.erase res }) c res = some s') :
    Inv s' := by
  have hc := h.conns c
  have h₁ := h.pop hmem
  have hc₁ := h₁.conns c
  simp only [conn_upd_self, aliveList_upd] at hc₁
  simp only [handleIncomingRequest, conn_upd_self] at hstep
  split at hstep
  · next hholder =>
    split at hstep
    · next hsuccess =>
      split at hstep
      · next hs =>
        cases hstep
        obtain ⟨hoff, hidle, hrep, hw⟩ := hc.loose (by rw [hs]; decide) (by rw [hs]; decide)
        refine h₁.linkIdle hoff (by simpa using hidle) ?_
        rw [conn_upd_self]
        exact (hc₁.linkedIdle hs _).leave _
      · cases hstep
        exact h₁.upd (by rw [conn_upd_self]; exact hc₁.leave _)
    · next hne =>
      have hterm : res.1.terminal = true := by
        cases hr : res.1 <;> first | rfl | exact absurd hr hne | exact absurd hr hres
      obtain ⟨hnt, hw, hphase, hone, hzero⟩ := hc.taken hmem hterm
      split at hstep
      · next hs =>
        cases hstep
        have hon : c ∈ s.aliveList := by
          rcases hc.keepalive hs with hon | hp | htok
          · exact hon
          · rw [hphase] at hp
            cases hp
          · omega
        exact h₁.upd (by rw [conn_upd_self]; exact hc₁.terminal hon hzero)
      · next hs =>
        cases hstep
        have hidle : (s.conn c).idle = true := by
          rcases hc.offIdle hs with hidle | hrep | hw' | htok
          · exact hidle
          · rw [show (s.conn c).holder = .none from hholder] at hrep
            cases hrep
          · exact absurd hw' hw
          · omega
        refine h₁.unlinkIdle (by simpa using hidle) ?_
        rw [conn_upd_self]
        exact (hc₁.ended hzero hholder hw).leave none
      · cases hstep
        exact h₁.upd (by rw [conn_upd_self]; exact hc₁.leave _)
      · cases hstep
        exact h₁.upd (by rw [conn_upd_self]; exact hc₁.leave _)
      · next hs =>
        cases hstep
        obtain ⟨hoff, hidle, hrep, -⟩ := hc.loose (by rw [hs]; decide) (by rw [hs]; decide)
        refine h₁.upd ?_
        rw [conn_upd_self]
        refine ConnOk.settled (fun ha => ?_) (by simp) (by simp) hoff hidle hrep hw ?_ ?_ ?_
          hc₁.once hc.reads
        · exact absurd ha (hc.accepted (by rw [hs]; decide))
        · simp [hphase]
        · simp [hphase]
        · simp [hc.noMsg (by rw [hs]; decide)]
      · cases hstep
        exact h₁.upd (by rw [conn_upd_self]; exact hc₁.leave _)
  · cases hstep

/-- A handler takes a result of a read operation. -/
theorem inv_handleReadResult {res : PrState × Errno} (h : Inv s)
    (hstep : handleReadResult s c res = some s') : Inv s' := by
  simp only [handleReadResult] at hstep
  split at hstep
  · next hmem =>
    split at hstep
    · cases hstep
      exact h.pop hmem
    · next hres => exact inv_handleIncomingRequest h hmem hres hstep
  · cases hstep

/-- The section behind a terminal result unlinks a `CONN_STATE_KEEPALIVE` entry. -/
theorem inv_handleIncomingRequestService (h : Inv s)
    (hstep : handleIncomingRequestService s c = some s') : Inv s' := by
  have hc := h.conns c
  simp only [handleIncomingRequestService] at hstep
  split at hstep
  · next hholder =>
    cases hstep
    obtain ⟨hphase, hone, -⟩ := hc.handled hholder
    split
    · next hs =>
      refine h.unlinkAlive ?_ ((hc.finished hholder False.elim).leave none)
      rcases hc.keepalive hs with hon | hp | htok
      · exact hon
      · exact absurd (hphase.symm.trans hp) (by decide)
      · omega
    · exact h.upd ((hc.finished hholder id).leave none)
  · cases hstep

/-- The thread that has taken the write result has the entry. -/
theorem ConnOk.written {on : Prop} {k : Conn} {res : PrState × Errno} (h : ConnOk on k)
    (hmem : res ∈ k.writeResults) :
    ConnOk on { k with writeResults := k.writeResults.erase res } := by
  obtain ⟨hs, hidle, hphase, hreg, hterm, hpolled, hread, hnone⟩ := h.takenWrite hmem
  have hzero : ({ k with writeResults := k.writeResults.erase res } : Conn).tokens = 0 := by
    rw [Conn.polled] at hpolled
    simp only [Conn.tokens, Conn.polled, hread, hnone, hterm, if_false, List.length_nil]
    omega
  refine ⟨h.fresh, h.alive, h.idle, fun _ => .inr (.inr hzero), fun _ => .inr (.inr (.inr hzero)),
    by omega, h.session, h.polled, h.msg, fun hr => ?_, fun _ => ⟨hs, hidle⟩, h.reads⟩
  obtain ⟨-, -, hw⟩ := h.replying hr
  exact absurd (.inr (List.ne_nil_of_mem hmem)) hw

/-- `handle_reply_result` registers the entry for reading and goes on under the mutexes. -/
theorem ConnOk.readd {on : Prop} {k : Conn} {res : PrState × Errno} (h : ConnOk on k)
    (hmem : res ∈ k.writeResults) (timeout ref : Int) (error : Errno) :
    ConnOk on { k with
      writeResults := k.writeResults.erase res
      ref := ref
      reg := some (.read, timeout)
      holder := .resultService error } := by
  obtain ⟨hs, hidle, hphase, hreg, hterm, hpolled, hread, hnone⟩ := h.takenWrite hmem
  have hw : ¬ ({ k with
      writeResults := k.writeResults.erase res
      ref := ref
      reg := some (.read, timeout)
      holder := .resultService error } : Conn).writing := by
    simp [Conn.writing, hnone]
  refine ⟨h.fresh, h.alive, h.idle, fun hk => ?_, fun _ => .inr (.inl rfl), ?_, h.session,
    fun hp => absurd hphase hp, h.msg, fun _ => ⟨hs, hidle, hw⟩, fun hw' => absurd hw' hw, h.reads⟩
  · exact absurd (hs.symm.trans hk) (by decide)
  · simp only [Conn.polled, hreg, Option.toList_none, List.length_nil, Nat.zero_add] at hpolled
    simp [Conn.tokens, Conn.polled, hpolled, hread, hnone]

/-- A handler takes the result of a reply. -/
theorem inv_handleWriteResult {res : PrState × Errno} {timeout : Int} {added : Bool} (h : Inv s)
    (hstep : handleWriteResult s c res timeout added = some s') : Inv s' := by
  have hc := h.conns c
  simp only [handleWriteResult] at hstep
  split at hstep
  · next hmem =>
    have h₁ : Inv (s.upd c fun k => { k with writeResults := k.writeResults.erase res }) :=
      h.upd (hc.written hmem)
    have hleft : ∀ call, Inv ((s.upd c fun k =>
        { k with writeResults := k.writeResults.erase res }).upd c fun k => k.leave call) :=
      fun call => h₁.upd ((h₁.conns c).leave call)
    simp only [handleReplyResult] at hstep
    split at hstep
    · split at hstep
      · split at hstep
        · split at hstep
          · cases hstep
            rw [upd_upd]
            exact h.upd (hc.readd hmem timeout _ _)
          · cases hstep
            exact (hleft _).logCompleted
        · cases hstep
      · cases hstep
        exact (hleft _).logCompleted
    · cases hstep
      exact hleft _
    · cases hstep
      exact hleft _
    · cases hstep
      exact hleft _
    · cases hstep
      exact h₁
  · cases hstep

/-- The section of `handle_reply_result` links the entry, or deletes it. -/
theorem inv_handleReplyResultService (h : Inv s)
    (hstep : handleReplyResultService s c = some s') : Inv s' := by
  have hc := h.conns c
  simp only [handleReplyResultService] at hstep
  split at hstep
  · next error hholder =>
    cases hstep
    have hrep : (s.conn c).holder.replying = true := by rw [hholder]; rfl
    obtain ⟨hs, hidle, hw⟩ := hc.replying hrep
    obtain ⟨hoff, hsession⟩ := hc.onIdle hs
    refine Inv.logCompleted ?_
    split
    · exact h.linkAlive hoff hidle (hc.linkedAlive hrep rfl rfl rfl rfl rfl rfl rfl rfl rfl rfl)
    · rw [upd_upd]
      refine h.upd (hc.closed (hc.accepted (by rw [hs]; decide)) hw hsession
        (hc.noMsg (by rw [hs]; decide)) hoff rfl (.inl rfl) hidle rfl ?_ rfl rfl rfl rfl rfl rfl)
      intro ht
      cases ht
  · cases hstep

/-- A thread leaves for good. -/
theorem inv_finish {i : Nat} (h : Inv s) (hstep : finish s c i = some s') : Inv s' := by
  have hc := h.conns c
  simp only [finish, Option.bind_eq_bind, Option.bind_eq_some_iff] at hstep
  obtain ⟨call, hcall, heq⟩ := hstep
  cases heq
  have h₁ : Inv (s.upd c fun k =>
      { k with
        tails := k.tails.eraseIdx i
        ref := k.ref - 1
        released := if k.ref - 1 = 0 then k.released + 1 else k.released }) :=
    h.upd (hc.retoken rfl rfl rfl rfl (.inl rfl) Iff.rfl Iff.rfl hc.polled id hc.reads)
  exact ⟨h₁.nodup, h₁.conns, h₁.log⟩

end Functions

/-! ## The user's functions and the drain -/

section User

variable {s s' : State C} {c : C}

/-- The reply unlinks the entry from the idle list. -/
theorem inv_replyReliable (h : Inv s) (hstep : replyReliable s c = some s') : Inv s' := by
  have hc := h.conns c
  simp only [replyReliable] at hstep
  split at hstep
  · next hguard =>
    cases hstep
    obtain ⟨hholder, hidle⟩ := hguard
    have hs := hc.idle hidle
    have hw := hc.notWriting hidle
    refine h.unlinkIdle hidle ⟨hc.fresh, hc.alive, by simp, fun hk => ?_,
      fun _ => .inr (.inl rfl), ?_, hc.session, hc.polled, hc.msg, fun _ => ⟨hs, rfl, hw⟩,
      fun hw' => absurd hw' hw, hc.reads⟩
    · exact absurd (hs.symm.trans hk) (by decide)
    have hle := hc.once
    rw [Conn.tokens] at hle
    simp only [hholder, reduceCtorEq, if_false] at hle
    simpa [Conn.tokens, Conn.polled] using hle
  · cases hstep

/-- The reply is given up. -/
theorem inv_replyFails {error : Errno} (h : Inv s) (hstep : replyFails s c error = some s') :
    Inv s' := by
  have hc := h.conns c
  simp only [replyFails] at hstep
  split at hstep
  · next hholder =>
    cases hstep
    obtain ⟨hs, hidle, hw⟩ := hc.replying (by rw [hholder]; rfl)
    obtain ⟨hoff, hsession⟩ := hc.onIdle hs
    refine h.upd (hc.closed (hc.accepted (by rw [hs]; decide)) hw hsession
      (hc.noMsg (by rw [hs]; decide)) hoff rfl (.inr rfl) hidle rfl ?_ rfl rfl rfl rfl rfl rfl)
    intro ht
    cases ht
  · cases hstep

/-- The reply was sent whole: the connection is closed, or kept for the section. -/
theorem inv_sendMessageSync {timeout : Int} (h : Inv s)
    (hstep : sendMessageSync s c timeout = some s') : Inv s' := by
  have hc := h.conns c
  simp only [sendMessageSync] at hstep
  split at hstep
  · next hholder =>
    obtain ⟨hs, hidle, hw⟩ := hc.replying (by rw [hholder]; rfl)
    obtain ⟨hoff, hsession⟩ := hc.onIdle hs
    split at hstep
    · cases hstep
      refine Inv.logCompleted (h.upd (hc.closed (hc.accepted (by rw [hs]; decide)) hw hsession
        (hc.noMsg (by rw [hs]; decide)) hoff rfl (.inl rfl) hidle rfl ?_ rfl rfl rfl rfl rfl rfl))
      intro ht
      cases ht
    · cases hstep
      refine h.upd ?_
      refine (hc.setTimeout timeout).retoken rfl rfl rfl ?_ (.inl ?_) Iff.rfl Iff.rfl
        (hc.setTimeout timeout).polled id hc.reads
      · simp [mpollerSetTimeout, hholder, Holder.replying]
      · simp [mpollerSetTimeout, Conn.tokens, Conn.polled, hholder]
  · cases hstep

/-- The section of `send_message_sync` links the entry as long as the service listens. -/
theorem inv_sendMessageSyncService (h : Inv s) (listening : 0 ≤ s.listenFd)
    (hstep : sendMessageSyncService s c = some s') : Inv s' := by
  have hc := h.conns c
  simp only [sendMessageSyncService, if_pos listening] at hstep
  split at hstep
  · next hholder =>
    cases hstep
    have hrep : (s.conn c).holder.replying = true := by rw [hholder]; rfl
    obtain ⟨hs, hidle, -⟩ := hc.replying hrep
    obtain ⟨hoff, -⟩ := hc.onIdle hs
    exact Inv.logCompleted (h.linkAlive hoff hidle
      (hc.linkedAlive hrep rfl rfl rfl rfl rfl rfl rfl rfl rfl rfl))
  · cases hstep

/-- The reply is left to the poller. -/
theorem inv_sendMessageAsync {timeout : Int} (h : Inv s)
    (hstep : sendMessageAsync s c timeout = some s') : Inv s' := by
  have hc := h.conns c
  simp only [sendMessageAsync] at hstep
  split at hstep
  · next hholder =>
    obtain ⟨hs, hidle, hw⟩ := hc.replying (by rw [hholder]; rfl)
    obtain ⟨hoff, hsession⟩ := hc.onIdle hs
    have hacc := hc.accepted (by rw [hs]; decide)
    rw [if_pos hs] at hstep
    split at hstep
    · next op timeout' hreg =>
      cases hstep
      refine h.upd ⟨hc.fresh, hc.alive, hc.idle, fun hk => absurd (hs.symm.trans hk) (by decide),
        fun _ => .inr (.inr (.inl (.inl rfl))), ?_, hc.session, fun _ => ?_, hc.msg, ?_,
        fun _ => ⟨hs, hidle⟩, fun p hp => ?_⟩
      · have hle := hc.once
        rw [Conn.tokens, Conn.polled] at hle ⊢
        simp only [hreg, hholder, Option.toList_some, List.length_singleton, reduceCtorEq,
          if_false, List.countP_append, List.countP_cons, List.countP_nil,
          PrState.terminal, Bool.false_eq_true] at hle ⊢
        exact hle
      · simp only [Conn.polled, Option.toList_some, List.length_singleton]
        omega
      · simp [Holder.replying]
      · rcases List.mem_append.mp hp with hp | hp
        · exact hc.reads p hp
        · rw [List.mem_singleton.mp hp]
          -- the replaced operation was a read
          cases hop : op with
          | read => rfl
          | write => exact absurd (.inl (by simp [hreg, hop])) hw
    · cases hstep
      refine h.upd (ConnOk.settled (fun ha => absurd ha hacc) (by simp) (by simp) hoff hidle rfl hw
        hsession hc.polled (fun _ => rfl) ?_ hc.reads)
      have hle := hc.once
      simpa [Conn.tokens, Conn.polled, hholder] using hle
  · cases hstep

/-- `shutdown` unlinks the entry from the idle list. -/
theorem inv_targetShutdown (h : Inv s) (hstep : targetShutdown s c = some s') : Inv s' := by
  have hc := h.conns c
  simp only [targetShutdown] at hstep
  split at hstep
  · next hguard =>
    cases hstep
    obtain ⟨hholder, hidle⟩ := hguard
    have hs := hc.idle hidle
    obtain ⟨hoff, hsession⟩ := hc.onIdle hs
    refine h.unlinkIdle hidle (hc.closed (hc.accepted (by rw [hs]; decide))
      (hc.notWriting hidle) hsession (hc.noMsg (by rw [hs]; decide)) hoff rfl (.inl rfl) rfl
      ?_ id rfl rfl rfl rfl rfl rfl)
    rw [show (mpollerDel { s.conn c with idle := false }).holder = .none from hholder]
    rfl
  · cases hstep

/-- `drain` unlinks the entry that it finds on the alive list. -/
theorem inv_drainOne (h : Inv s) (hon : c ∈ s.aliveList) : Inv (drainOne s c) := by
  have hc := h.conns c
  have hs := hc.alive hon
  obtain ⟨hidle, hrep, hw, hsession⟩ := hc.onAlive hon
  have hclosed : ConnOk False { mpollerDel (s.conn c) with state := .closing } :=
    hc.closed (hc.accepted (by rw [hs]; decide)) hw hsession (hc.noMsg (by rw [hs]; decide)) id rfl
      (.inl rfl) hidle hrep id rfl rfl rfl rfl rfl rfl
  exact (h.unlinkAlive (f := fun k => { mpollerDel k with state := .closing }) hon hclosed).logged
    trivial

/-- The drain takes its entries from the front of the alive list. -/
theorem inv_drainLoop (max : Int) : ∀ (cnt : Int) (entries : List C) (s : State C),
    s.aliveList = entries → Inv s → Inv (drainLoop max cnt entries s)
  | _, [], _, _, h => h
  | cnt, c :: rest, s, hlist, h => by
    simp only [drainLoop]
    split
    · exact h
    · refine inv_drainLoop max _ rest _ ?_ (inv_drainOne h (by simp [hlist]))
      simp [drainOne, State.unlinkAlive, hlist]

/-- `drain`, from one entry to the next. -/
theorem inv_drain (h : Inv s) (max : Int) : Inv (drain s max) :=
  inv_drainLoop max 0 s.aliveList s rfl h

end User

/-! ## The law -/

/-- The two branches that leave an entry in a list's state off that list are not taken. -/
def Kept (s : State C) : Label C → Prop
  | .createRequestSession c o => SessionMade s c o
  | .sendMessageSyncService _ => 0 ≤ s.listenFd
  | _ => True

/-- Every step but the two keeps the invariant. -/
theorem inv_step {s s' : State C} {a : Label C} (h : Inv s) (kept : Kept s a)
    (hstep : step s a = some s') : Inv s' := by
  cases a with
  | acceptConn => exact inv_acceptConn h hstep
  | createRequest => exact inv_createRequest h hstep
  | createRequestChecked => exact inv_createRequestChecked h hstep
  | createRequestService => exact inv_createRequestService h hstep
  | createRequestSession => exact inv_createRequestSession h kept hstep
  | appendMessage => exact inv_appendMessage h hstep
  | appendMessageDone => exact inv_appendMessageDone h hstep
  | readEnds => exact inv_readEnds h hstep
  | writeEnds => exact inv_writeEnds h hstep
  | handlePipe => exact inv_handlePipe h hstep
  | handleReadResult => exact inv_handleReadResult h hstep
  | handleIncomingRequestService => exact inv_handleIncomingRequestService h hstep
  | handleWriteResult => exact inv_handleWriteResult h hstep
  | handleReplyResultService => exact inv_handleReplyResultService h hstep
  | finish => exact inv_finish h hstep
  | replyReliable => exact inv_replyReliable h hstep
  | replyFails => exact inv_replyFails h hstep
  | sendMessageSync => exact inv_sendMessageSync h hstep
  | sendMessageSyncService => exact inv_sendMessageSyncService h kept hstep
  | sendMessageAsync => exact inv_sendMessageAsync h hstep
  | targetShutdown => exact inv_targetShutdown h hstep
  | drain max =>
    cases hstep
    exact inv_drain h max
  | shutdownService =>
    cases hstep
    exact ⟨h.nodup, h.conns, h.log⟩
  | shutdownServiceDrain =>
    simp only [step, shutdownServiceDrain] at hstep
    split at hstep
    · cases hstep
      have hclosed : Inv { s with shutdowns := s.shutdowns - 1 } := ⟨h.nodup, h.conns, h.log⟩
      exact inv_drain hclosed (-1)
    · cases hstep
  | deinit =>
    cases hstep
    exact ⟨h.nodup, h.conns, h.log⟩

/-- It holds in every run that avoids them. -/
theorem inductive_inv : InductiveInvariant (system C) Kept Inv where
  init := by
    rintro s ⟨listenFd, rfl⟩
    refine ⟨List.nodup_nil, fun c => ?_, by simp [State.listening]⟩
    simpa [State.listening] using ConnOk.absent
  step _ _ _ := inv_step

/-- Every entry that the code unlinked was on that very list then, and every entry that it linked
was on neither list. -/
def LinksOk (s : State C) : Prop := ∀ e ∈ s.log, e.Ok

/-- The law holds in every run that avoids the two branches. -/
theorem linksOk_of_kept {s : State C} (h : (system C).Reaches Kept s) : LinksOk s :=
  (inductive_inv.holds h).log

/-! ## Runs -/

/-- The condition, as a check that runs. -/
def keptB (s : State C) : Label C → Bool
  | .createRequestSession c (.null _) => (s.conn c).state ≠ .keepalive
  | .sendMessageSyncService _ => 0 ≤ s.listenFd
  | _ => true

omit [DecidableEq C] in
theorem kept_of_check (s : State C) (a : Label C) (h : keptB s a = true) : Kept s a := by
  cases a with
  | createRequestSession c o =>
    cases o with
    | null error =>
      intro error' _
      simpa [keptB] using h
    | session => intro error' he; cases he
  | sendMessageSyncService =>
    show 0 ≤ s.listenFd
    exact of_decide_eq_true h
  | _ => trivial

/-- A request comes in on a connection and is handed to the user. -/
def requestRun (c : Nat) : List (Label Nat) :=
  [.createRequest c, .createRequestService c, .createRequestSession c (.session 10 true 0),
    .appendMessageDone c, .handleReadResult c (.success, 0), .finish c 0]

/-- A reply that is sent at once, with a keep-alive timeout of 60. -/
def syncReplyRun (c : Nat) : List (Label Nat) :=
  [.replyReliable c, .sendMessageSync c 60, .sendMessageSyncService c, .finish c 0]

/-- A reply that the poller has sent, and whose keep-alive timeout is 60. -/
def asyncSentRun (c : Nat) : List (Label Nat) :=
  [.replyReliable c, .sendMessageAsync c 10, .handlePipe c, .handleReadResult c (.modified, 0),
    .writeEnds c (.finished, 0), .handleWriteResult c (.finished, 0) 60 true]

/-- A reply that the poller sends. -/
def asyncReplyRun (c : Nat) : List (Label Nat) :=
  asyncSentRun c ++ [.handleReplyResultService c, .finish c 0]

/-- Two requests on the connection 0, one on 1, whose replies leave both on the alive list; the next
request of 0 is shut down, and a drain finds 1. -/
def keptRun : List (Label Nat) :=
  .acceptConn 0 10 :: requestRun 0 ++ syncReplyRun 0 ++ requestRun 0 ++ asyncReplyRun 0 ++
    .acceptConn 1 10 :: requestRun 1 ++ syncReplyRun 1 ++ requestRun 0 ++
    [.targetShutdown 0, .drain (-1), .handlePipe 0, .handleReadResult 0 (.deleted, 0), .finish 0 0,
      .handlePipe 1, .handleReadResult 1 (.deleted, 0), .finish 1 0]

theorem linksOk_of_kept_run : ∃ s, (system Nat).Reaches Kept s ∧
    [.unlink .alive 1 true, .drained 1] <:+ s.log ∧ (s.conn 0).released = 1 ∧
    (s.conn 1).released = 1 ∧ LinksOk s := by
  have hrun : ((system Nat).runIf keptB (State.listening Nat 3) keptRun).map
      (fun s => (decide ([.unlink .alive 1 true, .drained 1] <:+ s.log),
        (s.conn 0).released, (s.conn 1).released)) = some (true, 1, 1) := by decide +kernel
  obtain ⟨s, hs, hlog⟩ := Option.map_eq_some_iff.mp hrun
  simp only [Prod.mk.injEq, decide_eq_true_eq] at hlog
  have hreach := System.reaches_of_runIf (M := system Nat) kept_of_check ⟨3, rfl⟩ hs
  exact ⟨s, hreach, hlog.1, hlog.2.1, hlog.2.2, linksOk_of_kept hreach⟩

theorem not_linksOk_of_run (as : List (Label Nat)) (list : ListName)
    (hrun : ((system Nat).run (State.listening Nat 3) as).map
      (fun s => decide (Event.unlink list 0 false ∈ s.log)) = some true) :
    ∃ s, (system Nat).Reachable s ∧ ¬ LinksOk s := by
  obtain ⟨s, hs, hlog⟩ := Option.map_eq_some_iff.mp hrun
  refine ⟨s, System.reachable_of_run ⟨3, rfl⟩ hs, fun hok => ?_⟩
  exact absurd (hok _ (of_decide_eq_true hlog)) (by simp [Event.Ok])

/-- `new_session` returns NULL for the second request of a connection: the error result that
follows unlinks the entry from the alive list again. -/
theorem newSession_null_unlinks_twice : ∃ s, (system Nat).Reachable s ∧ ¬ LinksOk s :=
  not_linksOk_of_run
    (.acceptConn 0 10 :: requestRun 0 ++ syncReplyRun 0 ++
      [.createRequest 0, .createRequestService 0, .createRequestSession 0 (.null 12),
        .handleReadResult 0 (.error, 12), .handleIncomingRequestService 0])
    .alive (by decide +kernel)

/-- The service is shut down before a synchronous reply completes: the end of the stream unlinks
the entry from the idle list, which it left when the reply began. -/
theorem late_reply_unlinks_twice : ∃ s, (system Nat).Reachable s ∧ ¬ LinksOk s :=
  not_linksOk_of_run
    (.acceptConn 0 10 :: requestRun 0 ++
      [.replyReliable 0, .sendMessageSync 0 60, .shutdownService, .shutdownServiceDrain,
        .sendMessageSyncService 0, .readEnds 0 (.finished, 0), .handleReadResult 0 (.finished, 0)])
    .idle (by decide +kernel)

end WorkflowKernel.Communicator.Server
