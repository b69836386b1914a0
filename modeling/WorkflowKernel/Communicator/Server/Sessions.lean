import WorkflowKernel.Communicator.Server.Release

/-!
# The sessions of a connection

Which session a `handle()` of the server side is called of, and how often. The sessions of a
connection are numbered as `create_request` makes them, by `entry->seq`, and `entry->session` is the
last one. A thread that leaves the sections takes it along, and calls `handle` of it later, when the
connection may already have another one. `Ledger` keeps what these threads carry and the calls.

`asked` is a call with `CS_STATE_TOREPLY`, and `closed` any other. `Standing` is what the entry's state
says about the calls of the last session, each counted from when it is settled that it will come.

## What is proved

- `turns_step`: what a step of the service makes of a connection.
- `ledger_sessions`: in every run of the model no session is asked twice or closed twice; the sessions
  before the last one are asked once and closed once; and when an entry is released, none of its
  sessions has been forgotten.
-/

namespace WorkflowKernel.Communicator.Server

open WorkflowKernel.Transition

/-! ## The ledger -/

/-- A service's connections with the sessions that the waiting threads carry, and the calls of
`handle()` by connection and session. -/
structure Ledger (C : Type) where
  server : State C
  carried : C → List Nat
  calls : List (C × Nat × CsState)

/-- What a thread that drops its reference calls. -/
def handleCall : Option Nat → Option (Option (CsState × Errno)) → Option (Nat × CsState)
  | some n, some (some h) => some (n, h.1)
  | _, _ => none

variable {C : Type} [DecidableEq C]

/-- The threads that leave the sections in a step of `s` carry `entry->session`. -/
def carry (s s' : State C) (c : C) : List Nat :=
  List.replicate ((s'.conn c).tails.length - (s.conn c).tails.length) (s.conn c).seq

/-- A step of the service to `s`. -/
def Ledger.moved (l : Ledger C) (s : State C) : Ledger C :=
  { l with server := s, carried := fun c => l.carried c ++ carry l.server s c }

/-- The step to `s` in which a thread makes its call and drops its reference. -/
def Ledger.finished (l : Ledger C) (s : State C) (c : C) (i : Nat) : Ledger C where
  server := s
  carried := Function.update l.carried c ((l.carried c).eraseIdx i)
  calls := l.calls ++ ((handleCall (l.carried c)[i]? (l.server.conn c).tails[i]?).map
    fun h => (c, h)).toList

/-- The step to `s`. -/
def Ledger.recorded (l : Ledger C) (a : Label C) (s : State C) : Ledger C :=
  match a with
  | .finish c i => l.finished s c i
  | _ => l.moved s

def Ledger.step (l : Ledger C) (a : Label C) : Option (Ledger C) :=
  (Server.step l.server a).map (l.recorded a)

/-- The service with the ledger. -/
def ledger (C : Type) [DecidableEq C] : System (Ledger C) (Label C) where
  Init l := ∃ listenFd, l = ⟨State.listening C listenFd, fun _ => [], []⟩
  step := Ledger.step

/-! ## The last session of a connection -/

/-- A call with a state that `p` is true of. -/
def isCall (p : CsState → Bool) : Option (CsState × Errno) → Bool
  | some h => p h.1
  | none => false

def asked (state : CsState) : Bool := decide (state = .toreply)

def closed (state : CsState) : Bool := decide (state ≠ .toreply)

/-- The last session has been asked `a` times and closed `b` times, or will be by a waiting thread. -/
structure Standing (k : Conn) (a b : Nat) : Prop where
  once : a ≤ 1 ∧ b ≤ 1
  fresh : k.state = .connecting ∨ k.state = .connected ↔ k.seq = 0
  none : k.seq = 0 → a = 0 ∧ b = 0
  coming : k.msg = true ∨ 0 < k.successes → a = 0 ∧ b = 0
  answering : k.idle = true ∨ k.holder.replying = true ∨ k.writing → a = 1 ∧ b = 0
  receiving : k.state = .receiving → 0 < k.tokens → b = 0
  error : k.state = .error → a = 1 ∧ (0 < k.tokens → b = 0)
  keepalive : k.state = .keepalive → a = 1 ∧ b = 1
  known : 0 < k.seq → 0 < a + b ∨ (k.state = .receiving ∧ 0 < k.tokens) ∨ 0 < k.successes

section Stages

variable {on : Prop} {k k' : Conn} {res : PrState × Errno} {a b : Nat}

/-- An edit that changes nothing that `Standing` reads, but may give up a message. -/
theorem Standing.same (h : Standing k a b) (state : k'.state = k.state) (seq : k'.seq = k.seq)
    (idle : k'.idle = k.idle) (replying : k'.holder.replying = k.holder.replying)
    (tokens : k'.tokens = k.tokens) (successes : k'.successes = k.successes)
    (writing : k'.writing → k.writing) (msg : k'.msg = true → k.msg = true) : Standing k' a b where
  once := h.once
  fresh := by rw [state, seq]; exact h.fresh
  none := by rw [seq]; exact h.none
  coming := by
    rw [successes]
    exact fun hc => h.coming (hc.imp_left msg)
  answering := by
    rw [idle, replying]
    exact fun ha => h.answering (ha.imp_right (Or.imp_right writing))
  receiving := by rw [state, tokens]; exact h.receiving
  error := by rw [state, tokens]; exact h.error
  keepalive := by rw [state]; exact h.keepalive
  known := by rw [seq, state, tokens, successes]; exact h.known

/-- A timeout settles nothing. -/
theorem Standing.setTimeout (h : Standing k a b) (timeout : Int) :
    Standing (mpollerSetTimeout timeout k) a b :=
  h.same rfl rfl rfl rfl (tokens_mpollerSetTimeout timeout) rfl
    (writing_mpollerSetTimeout timeout).mp id

/-- `mpoller_del`, when there is no write operation. -/
theorem Standing.mpollerDel (h : Standing k a b) : Standing (mpollerDel k) a b := by
  refine h.same rfl rfl rfl rfl tokens_mpollerDel rfl ?_ id
  rintro (hreg | hne)
  · cases hreg
  · exact .inr hne

/-- `create_request` returns NULL and leaves the session as it is. -/
theorem Standing.failRequest (h : Standing k a b) (error : Errno) : Standing (failRequest error k) a b := by
  unfold Server.failRequest
  split
  · next timeout hreg =>
    have hended := ended_concat (.error, error) k.readResults
    have hsucceeded := succeeded_concat (.error, error) k.readResults
    simp only [PrState.terminal] at hended hsucceeded
    have hone := registered_some hreg
    apply h.same <;> grind
  · apply h.same <;> grind

/-- `create_request` has a new session for an entry that it let pass. -/
theorem Standing.newSession (hc : Counted on k) (hphase : k.phase = .session) (phase : Phase)
    (msg : Bool) :
    Standing { k with seq := k.seq + 1, state := .receiving, phase := phase, msg := msg } 0 0 := by
  have hpolled := hc.polled (by rw [hphase]; decide)
  have hsession := hc.session hphase
  cases hc
  constructor <;> first | assumption | grind

/-- A complete message will have its session asked. -/
theorem Standing.messageDone (h : Standing k a b) (hc : Counted on k) (hmsg : k.msg = true) : Standing
    { k with
      state := .success
      msg := false
      readResults := k.readResults ++ [(.success, 0)] } a b := by
  have hended := ended_concat (.success, 0) k.readResults
  have hsucceeded := succeeded_concat (.success, 0) k.readResults
  simp only [PrState.terminal] at hended hsucceeded
  cases hc
  cases h
  constructor <;> first | assumption | grind

/-- The thread that puts the entry on the idle list asks the session. -/
theorem Standing.toIdle (h : Standing k a b) (hc : Counted on k) (hmem : res ∈ k.readResults)
    (hres : res.1 = .success) (hs : k.state = .success) (call : Option (CsState × Errno)) :
    Standing ({ k with
      readResults := k.readResults.erase res
      idle := true
      ref := k.ref + 1
      state := .idle }.leave call) (a + 1) b := by
  have hended := ended_erase hmem
  have hsucceeded := succeeded_erase hmem
  simp only [hres, PrState.terminal] at hended hsucceeded
  cases hc
  cases h
  constructor <;> first | assumption | grind

/-- So does the one that finds that the terminal result has overtaken it. -/
theorem Standing.overtaken (h : Standing k a b) (hc : Counted on k) (hmem : res ∈ k.readResults)
    (hres : res.1 = .success) (hs : k.state ≠ .success) (call : Option (CsState × Errno)) :
    Standing ({ k with readResults := k.readResults.erase res }.leave call) (a + 1) b := by
  have hended := ended_erase hmem
  have hsucceeded := succeeded_erase hmem
  simp only [hres, PrState.terminal] at hended hsucceeded
  cases hc
  cases h
  constructor <;> first | assumption | grind

/-- A terminal result before the message's leaves the session to that. -/
theorem Standing.overtakes (h : Standing k a b) (hc : Counted on k) (hmem : res ∈ k.readResults)
    (hres : res.1.terminal = true) (hs : k.state = .success) :
    Standing { k with readResults := k.readResults.erase res, state := .closing } a b := by
  obtain ⟨hended, hsucceeded⟩ := erase_terminal hres hmem
  cases hc
  cases h
  constructor <;> first | assumption | grind

/-- The terminal result closes the session that is being received or was not replied to. -/
theorem Standing.taken (h : Standing k a b) (hc : Counted on k) (hmem : res ∈ k.readResults)
    (hres : res.1.terminal = true) (hs : k.state = .receiving ∨ k.state = .error)
    (call : Option (CsState × Errno)) :
    Standing ({ k with readResults := k.readResults.erase res }.leave call) a (b + 1) := by
  obtain ⟨hended, hsucceeded⟩ := erase_terminal hres hmem
  cases hc
  cases h
  constructor <;> first | assumption | grind

/-- It finds no session to close. -/
theorem Standing.dropped (h : Standing k a b) (hc : Counted on k) (hmem : res ∈ k.readResults)
    (hres : res.1.terminal = true) (hs : k.state ≠ .receiving) {idle : Bool}
    (hidle : idle = true → k.idle = true) (call : Option (CsState × Errno)) :
    Standing ({ k with readResults := k.readResults.erase res, idle := idle }.leave call) a b := by
  obtain ⟨hended, hsucceeded⟩ := erase_terminal hres hmem
  cases hc
  cases h
  constructor <;> first | assumption | grind

/-- The result of a kept connection finds its session asked and closed. -/
theorem Standing.takenKeep (h : Standing k a b) (hmem : res ∈ k.readResults)
    (hres : res.1.terminal = true) (hs : k.state = .keepalive) :
    Standing { k with readResults := k.readResults.erase res, holder := .terminal } a b := by
  obtain ⟨hended, hsucceeded⟩ := erase_terminal hres hmem
  cases h
  constructor <;> first | assumption | grind

/-- The section behind it settles nothing more. -/
theorem Standing.handled (h : Standing k a b) (hc : Counted on k) (hholder : k.holder = .terminal)
    (call : Option (CsState × Errno)) : Standing ({ k with holder := .none }.leave call) a b := by
  cases hc
  cases h
  constructor <;> first | assumption | grind

/-- The operation of an entry with a write result is at its end. -/
theorem Counted.unregistered (h : Counted on k) (hmem : res ∈ k.writeResults) : k.reg = none := by
  have hlength := (h.onlyWrite hmem).1
  have hone := h.once
  rw [tokens_eq] at hone
  cases hreg : k.reg with
  | none => rfl
  | some r =>
    have hregistered := registered_some hreg
    omega

/-- A reply that was sent, or failed, closes its session. -/
theorem Standing.written (h : Standing k a b) (hc : Counted on k) (hmem : res ∈ k.writeResults)
    (call : Option (CsState × Errno)) :
    Standing ({ k with writeResults := k.writeResults.erase res }.leave call) a (b + 1) := by
  obtain ⟨hlength, hnil⟩ := hc.onlyWrite hmem
  have hreg := hc.unregistered hmem
  have hwriting : k.writing := .inr (List.ne_nil_of_mem hmem)
  have hstate := hc.writing hwriting
  cases hc
  cases h
  constructor <;> first | assumption | grind

/-- The reading goes on before it does. -/
theorem Standing.readd (h : Standing k a b) (hc : Counted on k) (hmem : res ∈ k.writeResults)
    (timeout : Int) (error : Errno) : Standing
    { k with
      writeResults := k.writeResults.erase res
      ref := k.ref + 1
      reg := some (.read, timeout)
      holder := .resultService error } a b := by
  obtain ⟨hlength, hnil⟩ := hc.onlyWrite hmem
  have hwriting : k.writing := .inr (List.ne_nil_of_mem hmem)
  have hstate := hc.writing hwriting
  have hone : registered (some (.read, timeout)) = 1 := rfl
  cases hc
  cases h
  constructor <;> first | assumption | grind

/-- A reply is completed. -/
theorem Standing.replied (h : Standing k a b) (hc : Counted on k) (hholder : k.holder.replying = true)
    {state : ConnState} (hs : state = .keepalive ∨ state = .closing ∨ state = k.state) {ref : Int}
    (call : Option (CsState × Errno)) :
    Standing ({ k with ref := ref, state := state, holder := .none }.leave call) a (b + 1) := by
  cases hc
  cases h
  constructor <;> first | assumption | grind

/-- The reply takes the entry off the idle list. -/
theorem Standing.taking (h : Standing k a b) (hc : Counted on k) (hidle : k.idle = true) :
    Standing { k with idle := false, holder := .replySend } a b := by
  cases hc
  cases h
  constructor <;> first | assumption | grind

/-- A reply that is left to the poller is closed with its result. -/
theorem Standing.sentAsync (h : Standing k a b) (hc : Counted on k) (hholder : k.holder = .replySend)
    {r : Op × Int} (hreg : k.reg = some r) (timeout : Int) : Standing
    { k with
      reg := some (.write, timeout)
      pipe := k.pipe ++ [(r.1, .modified)]
      holder := .none } a b := by
  have hremoved : removed (k.pipe ++ [(r.1, .modified)]) = removed k.pipe := by
    simp [removed, PrState.terminal]
  have hone := registered_some hreg
  have hone' : registered (some (.write, timeout)) = 1 := rfl
  cases hc
  cases h
  constructor <;> first | assumption | grind

/-- The reply is given up: the terminal result is to close the session. -/
theorem Standing.unsent (h : Standing k a b) (hc : Counted on k) (hholder : k.holder = .replySend)
    {state : ConnState} (hs : state = .error ∨ state = .receiving) (error : Errno) :
    Standing { k with error := error, state := state, holder := .none } a b := by
  cases hc
  cases h
  constructor <;> first | assumption | grind

/-- The entry leaves its list and is closed. -/
theorem Standing.unlisted (h : Standing k a b) (hc : Counted on k)
    (hs : k.idle = true ∨ k.state = .keepalive) :
    Standing { k with idle := false, state := .closing } a b := by
  cases hc
  cases h
  constructor <;> first | assumption | grind

end Stages

/-! ## A step of the service -/

/-- What a step makes of a connection. -/
inductive Turned (k k' : Conn) (a b : Nat) : Prop
  | keep (seq : k'.seq = k.seq) (tails : k'.tails = k.tails) (stage : Standing k' a b)
  /-- A thread leaves the sections. -/
  | leave (call : Option (CsState × Errno)) (seq : k'.seq = k.seq)
    (tails : k'.tails = k.tails ++ [call])
    (stage : Standing k' (a + (isCall asked call).toNat) (b + (isCall closed call).toNat))
  /-- There is a new session, and the last one is done with. -/
  | next (seq : k'.seq = k.seq + 1) (tails : k'.tails = k.tails)
    (former : k.seq = 0 ∨ (a = 1 ∧ b = 1)) (stage : Standing k' 0 0)

def Turns (s s' : State C) : Prop :=
  ∀ c a b, Standing (s.conn c) a b → Turned (s.conn c) (s'.conn c) a b

section Steps

variable {s s' : State C} {c : C} {res : PrState × Errno}

omit [DecidableEq C] in
theorem Turns.refl (s : State C) : Turns s s := fun _ _ _ h => .keep rfl rfl h

/-- An edit of one connection. -/
theorem Turns.upd {f : Conn → Conn}
    (here : ∀ a b, Standing (s.conn c) a b → Turned (s.conn c) (f (s.conn c)) a b) :
    Turns s (s.upd c f) := by
  intro d a b h
  by_cases hd : d = c
  · subst hd
    rw [conn_upd_self]
    exact here a b h
  · rw [conn_upd_of_ne s c f hd]
    exact .keep rfl rfl h

/-- An edit after which nobody has left. -/
theorem Turns.stay {f : Conn → Conn} (seq : ∀ k, (f k).seq = k.seq)
    (tails : ∀ k, (f k).tails = k.tails)
    (here : ∀ a b, Standing (s.conn c) a b → Standing (f (s.conn c)) a b) : Turns s (s.upd c f) :=
  .upd fun a b h => .keep (seq _) (tails _) (here a b h)

omit [DecidableEq C] in
/-- What is outside the connections does not matter. -/
theorem Turns.of_conn {t : State C} (h : Turns s t) (hconn : s'.conn = t.conn) : Turns s s' := by
  unfold Turns
  rw [hconn]
  exact h

/-- The idle list is a flag of the connection that is edited. -/
theorem conn_linkIdle_upd (s : State C) (c : C) (f : Conn → Conn) :
    ((s.linkIdle c).upd c f).conn = (s.upd c fun k => f { k with idle := true }).conn := by
  have hconn : ((s.linkIdle c).upd c f).conn =
    ((s.upd c fun k => { k with idle := true }).upd c f).conn := rfl
  rw [hconn, upd_upd]

theorem conn_unlinkIdle_upd (s : State C) (c : C) (f : Conn → Conn) :
    ((s.unlinkIdle c).upd c f).conn = (s.upd c fun k => f { k with idle := false }).conn := by
  have hconn : ((s.unlinkIdle c).upd c f).conn =
    ((s.upd c fun k => { k with idle := false }).upd c f).conn := rfl
  rw [hconn, upd_upd]

theorem turns_createRequest (hstep : createRequest s c = some s') : Turns s s' := by
  simp only [createRequest] at hstep
  split at hstep
  · cases hstep
    exact .stay (fun _ => rfl) (fun _ => rfl) fun a b h =>
      h.same rfl rfl rfl rfl rfl rfl id id
  · cases hstep

theorem turns_createRequestChecked (hstep : createRequestChecked s c = some s') : Turns s s' := by
  simp only [createRequestChecked] at hstep
  split at hstep
  · cases hstep
    exact .stay (fun _ => rfl) (fun _ => rfl) fun a b h =>
      h.same rfl rfl rfl rfl rfl rfl id id
  · cases hstep

theorem failRequest_seq (error : Errno) (k : Conn) : (failRequest error k).seq = k.seq := by
  unfold failRequest
  split <;> rfl

theorem failRequest_tails (error : Errno) (k : Conn) : (failRequest error k).tails = k.tails := by
  unfold failRequest
  split <;> rfl

/-- The section of `create_request` passes an entry on, or lets its message fail. -/
theorem turns_createRequestService (hstep : createRequestService s c = some s') : Turns s s' := by
  simp only [createRequestService] at hstep
  split at hstep
  · split at hstep
    · cases hstep
      exact Turns.stay (s := s.unlinkAlive c) (fun _ => rfl) (fun _ => rfl) fun a b h =>
        h.same rfl rfl rfl rfl rfl rfl id id
    · split at hstep
      · cases hstep
        exact .stay (fun _ => rfl) (fun _ => rfl) fun a b h =>
          h.same rfl rfl rfl rfl rfl rfl id id
      · cases hstep
        exact .stay (failRequest_seq _) (failRequest_tails _) fun a b h => h.failRequest _
  · cases hstep

/-- A new session finds the last one asked and closed. -/
theorem turns_createRequestSession {o : NewSession} (href : RefInv s)
    (hstep : createRequestSession s c o = some s') : Turns s s' := by
  have hc := href.conns c
  simp only [createRequestSession] at hstep
  split at hstep
  · next hphase =>
    have hsession := (hc.session hphase).1
    have hformer : ∀ a b, Standing (s.conn c) a b → (s.conn c).seq = 0 ∨ (a = 1 ∧ b = 1) := by
      intro a b h
      rcases hsession with hs | hs
      · exact .inr (h.keepalive hs)
      · exact .inl (h.fresh.mp (.inr hs))
    cases o with
    | null error =>
      cases hstep
      exact .stay (failRequest_seq _) (failRequest_tails _) fun a b h => h.failRequest _
    | session timeout messageIn error =>
      cases messageIn with
      | true =>
        cases hstep
        rw [upd_upd]
        refine .upd fun a b h => .next rfl rfl (hformer a b h) ?_
        exact (Standing.newSession hc hphase .rest true).setTimeout timeout
      | false =>
        cases hstep
        rw [upd_upd]
        refine .upd fun a b h => .next (failRequest_seq ..) (failRequest_tails ..)
          (hformer a b h) ?_
        exact ((Standing.newSession hc hphase (s.conn c).phase (s.conn c).msg).setTimeout
          timeout).failRequest error
  · cases hstep

theorem turns_appendMessage {timeout : Int} (hstep : appendMessage s c timeout = some s') :
    Turns s s' := by
  simp only [appendMessage] at hstep
  split at hstep
  · cases hstep
    exact .stay (fun _ => rfl) (fun _ => rfl) fun a b h => h.setTimeout timeout
  · cases hstep

/-- The message of the session is complete. -/
theorem turns_appendMessageDone (href : RefInv s) (hstep : appendMessageDone s c = some s') :
    Turns s s' := by
  simp only [appendMessageDone] at hstep
  split at hstep
  · next hguard =>
    cases hstep
    exact .stay (fun _ => rfl) (fun _ => rfl) fun a b h =>
      (h.messageDone (href.conns c) hguard.1).setTimeout (-1)
  · cases hstep

/-- The end of a read operation. -/
theorem turns_readEnds (hstep : readEnds s c res = some s') : Turns s s' := by
  simp only [readEnds] at hstep
  split at hstep
  · next hguard =>
    obtain ⟨hreg, -, hres⟩ := hguard
    cases hstep
    obtain ⟨hended, hsucceeded⟩ := concat_terminal (ends_terminal hres) (s.conn c).readResults
    have hone := registered_map hreg
    refine .stay (fun _ => rfl) (fun _ => rfl) fun a b h => h.same rfl rfl rfl rfl ?_ ?_ ?_ ?_
    all_goals grind
  · cases hstep

theorem turns_writeEnds (hstep : writeEnds s c res = some s') : Turns s s' := by
  simp only [writeEnds] at hstep
  split at hstep
  · next hguard =>
    obtain ⟨hreg, -, -⟩ := hguard
    cases hstep
    have hone := registered_map hreg
    refine .stay (fun _ => rfl) (fun _ => rfl) fun a b h => h.same rfl rfl rfl rfl ?_ rfl ?_ id
    · grind
    · exact fun _ => .inl hreg
  · cases hstep

/-- The end of a deleted one. -/
theorem turns_handlePipe (href : RefInv s) (hstep : handlePipe s c = some s') : Turns s s' := by
  have hc := href.conns c
  simp only [handlePipe] at hstep
  split at hstep
  · cases hstep
  · next op state rest hpipe =>
    split at hstep
    · cases hstep
      obtain ⟨rfl, hstate⟩ := hc.reads (op, state) (by simp [hpipe])
      have hended := ended_concat (state, 0) (s.conn c).readResults
      have hsucceeded := succeeded_concat (state, 0) (s.conn c).readResults
      have hremoved := removed_cons (Op.read, state) rest
      rw [← hpipe] at hremoved
      refine .stay (fun _ => rfl) (fun _ => rfl) fun a b h => h.same rfl rfl rfl rfl ?_ ?_ ?_ ?_
      all_goals grind
    · cases hstep

/-! ### The handlers -/

/-- A terminal result stands for no `CS_STATE_TOREPLY`. -/
theorem csResult_ne (res : PrState × Errno) :
    isCall asked (some (csResult res)) = false ∧ isCall closed (some (csResult res)) = true := by
  unfold csResult
  split
  · exact ⟨rfl, rfl⟩
  · exact ⟨rfl, rfl⟩
  · exact ⟨rfl, rfl⟩

/-- A handler takes a result of a read operation, and asks or closes the session. -/
theorem turns_handleReadResult (href : RefInv s) (hstep : handleReadResult s c res = some s') :
    Turns s s' := by
  have hc := href.conns c
  obtain ⟨hnever, halways⟩ := csResult_ne res
  simp only [handleReadResult] at hstep
  split at hstep
  · next hmem =>
    split at hstep
    · next hres =>
      cases hstep
      have hended := ended_erase hmem
      have hsucceeded := succeeded_erase hmem
      simp only [hres, PrState.terminal] at hended hsucceeded
      refine .stay (fun _ => rfl) (fun _ => rfl) fun a b h => h.same rfl rfl rfl rfl ?_ ?_ ?_ ?_
      all_goals grind
    · next hmodified =>
      simp only [handleIncomingRequest, conn_upd_self] at hstep
      split at hstep
      · next hholder =>
        split at hstep
        · next hres =>
          split at hstep
          · next hs =>
            cases hstep
            refine Turns.of_conn ?_ (conn_linkIdle_upd ..)
            rw [upd_upd]
            exact .upd fun a b h => .leave _ rfl rfl (h.toIdle hc hmem hres hs _)
          · next hs =>
            cases hstep
            rw [upd_upd]
            exact .upd fun a b h => .leave _ rfl rfl (h.overtaken hc hmem hres hs _)
        · next hsuccess =>
          have hres : res.1.terminal = true := by
            cases hr : res.1 <;> first | rfl | exact absurd hr hsuccess | exact absurd hr hmodified
          split at hstep
          · next hs =>
            cases hstep
            rw [upd_upd]
            exact .stay (fun _ => rfl) (fun _ => rfl) fun a b h => h.takenKeep hmem hres hs
          · next hs =>
            cases hstep
            refine Turns.of_conn ?_ (conn_unlinkIdle_upd ..)
            rw [upd_upd]
            exact .upd fun a b h => .leave _ rfl rfl
              (h.dropped hc hmem hres (by simp [hs]) (by simp) none)
          · next hs =>
            cases hstep
            rw [upd_upd]
            exact .upd fun a b h => .leave _ rfl rfl (h.taken hc hmem hres (.inr hs) _)
          · next hs =>
            cases hstep
            rw [upd_upd]
            refine .upd fun a b h => .leave _ rfl rfl ?_
            rw [hnever, halways]
            exact h.taken hc hmem hres (.inl hs) _
          · next hs =>
            cases hstep
            rw [upd_upd]
            exact .stay (fun _ => rfl) (fun _ => rfl) fun a b h => h.overtakes hc hmem hres hs
          · next hkeep hidle herror hreceiving hs =>
            cases hstep
            rw [upd_upd]
            exact .upd fun a b h => .leave _ rfl rfl
              (h.dropped hc hmem hres hreceiving id none)
      · cases hstep
  · cases hstep

/-- The thread behind the section has nothing to call. -/
theorem turns_handleIncomingRequestService (href : RefInv s)
    (hstep : handleIncomingRequestService s c = some s') : Turns s s' := by
  have hc := href.conns c
  simp only [handleIncomingRequestService] at hstep
  split at hstep
  · next hholder =>
    cases hstep
    split
    · exact Turns.upd (s := s.unlinkAlive c) fun a b h =>
        .leave none rfl rfl (h.handled hc hholder none)
    · exact .upd fun a b h => .leave none rfl rfl (h.handled hc hholder none)
  · cases hstep

/-- A handler takes the result of a reply, and closes the session here or behind its section. -/
theorem turns_handleWriteResult {timeout : Int} {added : Bool} (href : RefInv s)
    (hstep : handleWriteResult s c res timeout added = some s') : Turns s s' := by
  have hc := href.conns c
  obtain ⟨hnever, halways⟩ := csResult_ne res
  simp only [handleWriteResult] at hstep
  split at hstep
  · next hmem =>
    have hwritten : ∀ call, isCall asked call = false → isCall closed call = true →
        Turns s ((s.upd c fun k => { k with writeResults := k.writeResults.erase res }).upd c
          fun k => k.leave call) := by
      intro call hasked hclosed
      rw [upd_upd]
      refine .upd fun a b h => .leave call rfl rfl ?_
      rw [hasked, hclosed]
      exact h.written hc hmem call
    have hres := hc.writes res hmem
    simp only [handleReplyResult, conn_upd_self] at hstep
    split at hstep
    · split at hstep
      · split at hstep
        · next hholder =>
          split at hstep
          · cases hstep
            rw [upd_upd]
            exact .stay (fun _ => rfl) (fun _ => rfl) fun a b h =>
              h.readd hc hmem timeout res.2
          · cases hstep
            exact hwritten _ rfl rfl
        · cases hstep
      · cases hstep
        exact hwritten _ rfl rfl
    · cases hstep
      exact hwritten _ hnever halways
    · cases hstep
      exact hwritten _ hnever halways
    · cases hstep
      exact hwritten _ hnever halways
    · next hfinished herror hdeleted hstopped =>
      cases hr : res.1 <;> simp_all [PrState.terminal]
  · cases hstep

/-- The section of `handle_reply_result`, and the call behind it. -/
theorem turns_handleReplyResultService (href : RefInv s)
    (hstep : handleReplyResultService s c = some s') : Turns s s' := by
  have hc := href.conns c
  simp only [handleReplyResultService] at hstep
  split at hstep
  · next error hholder =>
    have hreplying : (s.conn c).holder.replying = true := by rw [hholder]; rfl
    cases hstep
    split
    · refine Turns.of_conn (t := (s.upd c fun k => { k with state := .keepalive }).upd c fun k =>
        { k with holder := .none }.leave (some (.success, error))) ?_ rfl
      rw [upd_upd]
      exact .upd fun a b h => .leave _ rfl rfl (h.replied hc hreplying (.inl rfl) _)
    · refine Turns.of_conn (t := (s.upd c fun k => { mpollerDel k with state := .closing }).upd c
        fun k => { k with holder := .none }.leave (some (.success, error))) ?_ rfl
      rw [upd_upd]
      have hw := (hc.replying hreplying).2.2
      exact .upd fun a b h => .leave _ rfl rfl
        (h.mpollerDel.replied (hc.mpollerDel hw) hreplying (.inr (.inl rfl)) _)
  · cases hstep

/-! ### The user -/

/-- The reply takes the entry; nothing is called yet. -/
theorem turns_replyReliable (href : RefInv s) (hstep : replyReliable s c = some s') :
    Turns s s' := by
  have hc := href.conns c
  simp only [replyReliable] at hstep
  split at hstep
  · next hguard =>
    cases hstep
    refine Turns.of_conn ?_ (conn_unlinkIdle_upd ..)
    exact .stay (fun _ => rfl) (fun _ => rfl) fun a b h => h.taking hc hguard.2
  · cases hstep

/-- A reply that fails leaves the call to the terminal result. -/
theorem turns_replyFails {error : Errno} (href : RefInv s)
    (hstep : replyFails s c error = some s') : Turns s s' := by
  have hc := href.conns c
  simp only [replyFails] at hstep
  split at hstep
  · next hholder =>
    cases hstep
    have hw := (hc.replying (by rw [hholder]; rfl)).2.2
    exact .stay (fun _ => rfl) (fun _ => rfl) fun a b h =>
      h.mpollerDel.unsent (hc.mpollerDel hw) hholder (.inl rfl) error
  · cases hstep

/-- A reply on a connection that is not kept is closed at once. -/
theorem turns_sendMessageSync {timeout : Int} (href : RefInv s)
    (hstep : sendMessageSync s c timeout = some s') : Turns s s' := by
  have hc := href.conns c
  simp only [sendMessageSync] at hstep
  split at hstep
  · next hholder =>
    have hreplying : (s.conn c).holder.replying = true := by rw [hholder]; rfl
    have hw := (hc.replying hreplying).2.2
    split at hstep
    · cases hstep
      refine Turns.of_conn (t := s.upd c fun k =>
        { mpollerDel { k with ref := k.ref + 1 } with
          state := .closing
          holder := .none }.leave (some (.success, 0))) ?_ rfl
      exact .upd fun a b h => .leave _ rfl rfl
        (h.mpollerDel.replied (hc.mpollerDel hw) hreplying (.inr (.inl rfl)) _)
    · cases hstep
      refine .stay (fun _ => rfl) (fun _ => rfl) fun a b h => Standing.setTimeout ?_ timeout
      refine h.same rfl rfl rfl (by rw [hholder]; rfl) ?_ rfl id id
      rw [tokens_eq, tokens_eq, hholder]
      rfl
  · cases hstep

/-- One on a connection that is kept, behind the section. -/
theorem turns_sendMessageSyncService (href : RefInv s)
    (hstep : sendMessageSyncService s c = some s') : Turns s s' := by
  have hc := href.conns c
  simp only [sendMessageSyncService] at hstep
  split at hstep
  · next hholder =>
    have hreplying : (s.conn c).holder.replying = true := by rw [hholder]; rfl
    cases hstep
    split
    · refine Turns.of_conn (t := (s.upd c fun k => { k with state := .keepalive }).upd c fun k =>
        { k with holder := .none }.leave (some (.success, 0))) ?_ rfl
      rw [upd_upd]
      exact .upd fun a b h => .leave _ rfl rfl (h.replied hc hreplying (.inl rfl) _)
    · refine Turns.of_conn (t := s.upd c fun k =>
        { k with holder := .none }.leave (some (.success, 0))) ?_ rfl
      exact .upd fun a b h => .leave _ rfl rfl (h.replied hc hreplying (.inr (.inr rfl)) _)
  · cases hstep

/-- One that the poller sends, with its result. -/
theorem turns_sendMessageAsync {timeout : Int} (href : RefInv s)
    (hstep : sendMessageAsync s c timeout = some s') : Turns s s' := by
  have hc := href.conns c
  simp only [sendMessageAsync] at hstep
  split at hstep
  · next hholder =>
    split at hstep
    · split at hstep
      · next op t hreg =>
        cases hstep
        exact .upd fun a b h => .keep rfl rfl (h.sentAsync hc hholder hreg timeout)
      · cases hstep
        exact .stay (fun _ => rfl) (fun _ => rfl) fun a b h =>
          h.unsent hc hholder (.inr rfl) _
    · next hs => exact absurd (hc.replying (by rw [hholder]; rfl)).1 hs
  · cases hstep

/-- `shutdown` leaves the session to the terminal result. -/
theorem turns_targetShutdown (href : RefInv s) (hstep : targetShutdown s c = some s') :
    Turns s s' := by
  have hc := href.conns c
  simp only [targetShutdown] at hstep
  split at hstep
  · next hguard =>
    cases hstep
    have hw : ¬ (s.conn c).writing := by
      intro hw
      have hidle := (hc.writing hw).2
      rw [hguard.2] at hidle
      cases hidle
    refine Turns.of_conn ?_ (conn_unlinkIdle_upd ..)
    exact .stay (fun _ => rfl) (fun _ => rfl) fun a b h =>
      h.mpollerDel.unlisted (hc.mpollerDel hw) (.inl hguard.2)
  · cases hstep

/-! ### Drain -/

/-- A step in which no thread leaves and no session begins. -/
def Stays (s s' : State C) : Prop :=
  ∀ c, (s'.conn c).seq = (s.conn c).seq ∧ (s'.conn c).tails = (s.conn c).tails ∧
    ∀ a b, Standing (s.conn c) a b → Standing (s'.conn c) a b

omit [DecidableEq C] in
theorem Stays.turns (h : Stays s s') : Turns s s' :=
  fun c a b hstage => .keep (h c).1 (h c).2.1 ((h c).2.2 a b hstage)

/-- A drained entry had its last session asked and closed. -/
theorem stays_drainOne (href : RefInv s) (hon : c ∈ s.aliveList) : Stays s (drainOne s c) := by
  have hc := href.conns c
  have hs := hc.alive hon
  have hw : ¬ (s.conn c).writing := by
    intro hw
    rw [(hc.writing hw).1] at hs
    cases hs
  have hidle : (s.conn c).idle = false := hc.notIdle (by simp [hs])
  have hconn : (drainOne s c).conn = (s.upd c fun k => { mpollerDel k with state := .closing }).conn :=
    rfl
  intro d
  rw [hconn]
  by_cases hd : d = c
  · subst hd
    rw [conn_upd_self]
    refine ⟨rfl, rfl, fun a b h => ?_⟩
    have hclosed := h.mpollerDel.unlisted (hc.mpollerDel hw) (.inr hs)
    rwa [← hidle] at hclosed
  · rw [conn_upd_of_ne s c _ hd]
    exact ⟨rfl, rfl, fun _ _ h => h⟩

theorem stays_drainLoop (max : Int) : ∀ (cnt : Int) (entries : List C) (s : State C),
    s.aliveList = entries → RefInv s → Stays s (drainLoop max cnt entries s)
  | _, [], _, _, _ => fun _ => ⟨rfl, rfl, fun _ _ h => h⟩
  | cnt, c :: rest, s, hlist, href => by
    simp only [drainLoop]
    split
    · exact fun _ => ⟨rfl, rfl, fun _ _ h => h⟩
    · have hon : c ∈ s.aliveList := by simp [hlist]
      have hone := stays_drainOne href hon
      have hrest := stays_drainLoop max (cnt + 1) rest (drainOne s c)
        (by simp [drainOne, State.unlinkAlive, hlist]) (refInv_drainOne href hon)
      intro d
      exact ⟨(hrest d).1.trans (hone d).1, (hrest d).2.1.trans (hone d).2.1,
        fun a b h => (hrest d).2.2 a b ((hone d).2.2 a b h)⟩

/-! ### Every step but the last of a thread -/

/-- A new entry has no session. -/
theorem turns_acceptConn {timeout : Int} (href : RefInv s)
    (hstep : acceptConn s c timeout = some s') : Turns s s' := by
  have hc := href.conns c
  simp only [acceptConn] at hstep
  split at hstep
  · cases hstep
  · next hnew =>
    cases hstep
    obtain ⟨hs, hrefs⟩ := hc.fresh (by simpa using hnew)
    have htails : (s.conn c).tails = [] := by
      rw [Conn.refs] at hrefs
      exact List.eq_nil_of_length_eq_zero (by omega)
    refine .upd fun a b h => ?_
    have hseq := h.fresh.mp (.inl hs)
    refine .keep ?_ ?_ ?_
    · rw [hseq]
      split <;> rfl
    · rw [htails]
      split <;> rfl
    · have hadded : Standing { Conn.absent with
          accepted := true
          state := .connected
          ref := 1
          reg := some (.read, timeout) } a b := by
        have hnone := h.none hseq
        constructor <;> simp [Conn.absent, Conn.writing, Conn.successes, succeeded,
          Holder.replying, hnone]
      split
      · exact hadded.mpollerDel
      · exact hadded

/-- What any step but the last one of a thread makes of the connections. -/
theorem turns_step {l : Label C} (href : RefInv s) (hstep : step s l = some s')
    (hfinish : ∀ c i, l ≠ .finish c i) : Turns s s' := by
  cases l with
  | acceptConn => exact turns_acceptConn href hstep
  | createRequest => exact turns_createRequest hstep
  | createRequestChecked => exact turns_createRequestChecked hstep
  | createRequestService => exact turns_createRequestService hstep
  | createRequestSession => exact turns_createRequestSession href hstep
  | appendMessage => exact turns_appendMessage hstep
  | appendMessageDone => exact turns_appendMessageDone href hstep
  | readEnds => exact turns_readEnds hstep
  | writeEnds => exact turns_writeEnds hstep
  | handlePipe => exact turns_handlePipe href hstep
  | handleReadResult => exact turns_handleReadResult href hstep
  | handleIncomingRequestService => exact turns_handleIncomingRequestService href hstep
  | handleWriteResult => exact turns_handleWriteResult href hstep
  | handleReplyResultService => exact turns_handleReplyResultService href hstep
  | finish c i => exact absurd rfl (hfinish c i)
  | replyReliable => exact turns_replyReliable href hstep
  | replyFails => exact turns_replyFails href hstep
  | sendMessageSync => exact turns_sendMessageSync href hstep
  | sendMessageSyncService => exact turns_sendMessageSyncService href hstep
  | sendMessageAsync => exact turns_sendMessageAsync href hstep
  | targetShutdown => exact turns_targetShutdown href hstep
  | drain max =>
    cases hstep
    exact (stays_drainLoop max 0 s.aliveList s rfl href).turns
  | shutdownService =>
    cases hstep
    exact Turns.refl s
  | shutdownServiceDrain =>
    simp only [step, shutdownServiceDrain] at hstep
    split at hstep
    · cases hstep
      exact (stays_drainLoop (-1) 0 s.aliveList { s with shutdowns := s.shutdowns - 1 } rfl
        ⟨href.nodup, href.conns⟩).turns
    · cases hstep
  | deinit =>
    cases hstep
    exact Turns.refl s

end Steps

/-! ## Every run -/

/-- The calls that a list of waiting threads will make of the session `n`. -/
def waiting (p : CsState → Bool) (n : Nat) (carried : List Nat)
    (tails : List (Option (CsState × Errno))) : Nat :=
  (carried.zip tails).countP fun x => x.1 = n && isCall p x.2

/-- The calls made of the session `n` of `c`. -/
def Ledger.called (l : Ledger C) (p : CsState → Bool) (c : C) (n : Nat) : Nat :=
  l.calls.countP fun x => x.1 = c && x.2.1 = n && p x.2.2

/-- The calls of the session `n` of `c` that are made or will be. -/
def Ledger.settled (l : Ledger C) (p : CsState → Bool) (c : C) (n : Nat) : Nat :=
  l.called p c n + waiting p n (l.carried c) (l.server.conn c).tails

structure LedgerInv (l : Ledger C) : Prop where
  refs : RefInv l.server
  length : ∀ c, (l.carried c).length = (l.server.conn c).tails.length
  stage : ∀ c, Standing (l.server.conn c) (l.settled asked c (l.server.conn c).seq)
    (l.settled closed c (l.server.conn c).seq)
  zero : ∀ c, l.settled asked c 0 = 0 ∧ l.settled closed c 0 = 0
  former : ∀ c n, 0 < n → n < (l.server.conn c).seq →
    l.settled asked c n = 1 ∧ l.settled closed c n = 1
  later : ∀ p c n, (l.server.conn c).seq < n → l.settled p c n = 0

section Runs

variable {l l' : Ledger C} {p : CsState → Bool} {c : C} {n : Nat} {carried : List Nat}
  {tails : List (Option (CsState × Errno))}

/-- The threads that wait and those that join them. -/
theorem waiting_append {carried' : List Nat} {tails' : List (Option (CsState × Errno))}
    (hlength : carried.length = tails.length) :
    waiting p n (carried ++ carried') (tails ++ tails') =
      waiting p n carried tails + waiting p n carried' tails' := by
  rw [waiting, List.zip_append hlength, List.countP_append]
  rfl

theorem waiting_cons (m : Nat) (call : Option (CsState × Errno)) :
    waiting p n (m :: carried) (call :: tails) =
      waiting p n carried tails + if m = n && isCall p call then 1 else 0 := by
  rw [waiting, List.zip_cons_cons, List.countP_cons]
  rfl

/-- The threads that leave in one step carry one session. -/
theorem waiting_replicate (m : Nat) (e : List (Option (CsState × Errno))) :
    waiting p n (List.replicate e.length m) e = if m = n then e.countP (isCall p) else 0 := by
  induction e with
  | nil => exact (ite_self 0).symm
  | cons call e ih =>
    rw [List.length_cons, List.replicate_succ, waiting_cons, ih, List.countP_cons]
    by_cases hm : m = n
    · simp [hm]
    · simp [hm]

/-- A waiting thread makes its call. -/
theorem waiting_eraseIdx : ∀ {carried : List Nat} {tails : List (Option (CsState × Errno))}
    {i : Nat}, i < carried.length → i < tails.length → waiting p n carried tails =
      waiting p n (carried.eraseIdx i) (tails.eraseIdx i) +
        (handleCall carried[i]? tails[i]?).toList.countP fun h => h.1 = n && p h.2
  | [], _, _, hi, _ => absurd hi (Nat.not_lt_zero _)
  | _ :: _, [], _, _, hi => absurd hi (Nat.not_lt_zero _)
  | m :: carried, call :: tails, 0, _, _ => by
    rw [waiting_cons, List.eraseIdx_cons_zero, List.eraseIdx_cons_zero]
    cases call with
    | none => simp [handleCall, isCall]
    | some h => simp [handleCall, isCall, List.countP_cons]
  | m :: carried, call :: tails, i + 1, hi, hi' => by
    have hrest := waiting_eraseIdx (Nat.lt_of_succ_lt_succ hi) (Nat.lt_of_succ_lt_succ hi')
    rw [waiting_cons, hrest, List.eraseIdx_cons_succ, List.eraseIdx_cons_succ, waiting_cons,
      List.getElem?_cons_succ, List.getElem?_cons_succ]
    omega

/-- The call that a thread makes is one of the session it carries. -/
theorem called_finished (s : State C) (i : Nat) (d : C) :
    (l.finished s c i).called p d n = l.called p d n + if d = c then
      (handleCall (l.carried c)[i]? (l.server.conn c).tails[i]?).toList.countP fun h =>
        h.1 = n && p h.2 else 0 := by
  rw [Ledger.called, Ledger.finished, List.countP_append]
  congr 1
  cases handleCall (l.carried c)[i]? (l.server.conn c).tails[i]? with
  | none => simp
  | some h =>
    by_cases hd : d = c
    · simp [hd, List.countP_cons]
    · simp [hd, Ne.symm hd]

/-- What `finish` does to the connections. -/
theorem finish_conn {s s' : State C} {i : Nat} (hstep : finish s c i = some s') :
    i < (s.conn c).tails.length ∧ s'.conn = (s.upd c fun k =>
      { k with
        tails := k.tails.eraseIdx i
        ref := k.ref - 1
        released := if k.ref - 1 = 0 then k.released + 1 else k.released }).conn := by
  simp only [finish, Option.bind_eq_bind, Option.bind_eq_some_iff] at hstep
  obtain ⟨call, hcall, hstep⟩ := hstep
  cases hstep
  exact ⟨(List.getElem?_eq_some_iff.mp hcall).1, rfl⟩

/-- A thread that makes its call settles nothing new. -/
theorem settled_finished (h : LedgerInv l) {s : State C} {i : Nat}
    (hstep : finish l.server c i = some s) (d : C) :
    (l.finished s c i).settled p d n = l.settled p d n := by
  obtain ⟨hi, hconn⟩ := finish_conn hstep
  have hi' : i < (l.carried c).length := by rw [h.length c]; exact hi
  rw [Ledger.settled, called_finished]
  show _ + waiting p n (Function.update l.carried c ((l.carried c).eraseIdx i) d)
    (s.conn d).tails = _
  rw [hconn]
  by_cases hd : d = c
  · subst hd
    rw [Function.update_self, conn_upd_self, if_pos rfl, Ledger.settled, waiting_eraseIdx hi' hi]
    exact (Nat.add_right_comm ..).trans (Nat.add_assoc ..)
  · rw [Function.update_of_ne hd, conn_upd_of_ne _ c _ hd, if_neg hd]
    rfl

/-- The last step of a thread keeps the ledger's account. -/
theorem ledgerInv_finished (h : LedgerInv l) {s : State C} {i : Nat}
    (hstep : finish l.server c i = some s) : LedgerInv (l.finished s c i) := by
  obtain ⟨hi, hconn⟩ := finish_conn hstep
  have hseq : ∀ d, (s.conn d).seq = (l.server.conn d).seq := by
    intro d
    rw [hconn]
    by_cases hd : d = c
    · subst hd
      rw [conn_upd_self]
    · rw [conn_upd_of_ne _ c _ hd]
  have hsettled := fun p d n => settled_finished (p := p) (n := n) h hstep d
  constructor
  · exact refInv_finish h.refs hstep
  · intro d
    show (Function.update l.carried c ((l.carried c).eraseIdx i) d).length = (s.conn d).tails.length
    rw [hconn]
    by_cases hd : d = c
    · subst hd
      rw [Function.update_self, conn_upd_self]
      have hlength := h.length d
      rw [List.length_eraseIdx_of_lt hi, List.length_eraseIdx_of_lt (hlength ▸ hi), hlength]
    · rw [Function.update_of_ne hd, conn_upd_of_ne _ c _ hd]
      exact h.length d
  · intro d
    show Standing (s.conn d) ((l.finished s c i).settled asked d (s.conn d).seq)
      ((l.finished s c i).settled closed d (s.conn d).seq)
    rw [hsettled, hsettled, hseq, hconn]
    have hstage := h.stage d
    by_cases hd : d = c
    · subst hd
      rw [conn_upd_self]
      exact hstage.same rfl rfl rfl rfl rfl rfl id id
    · rw [conn_upd_of_ne _ c _ hd]
      exact hstage
  · intro d
    rw [hsettled, hsettled]
    exact h.zero d
  · intro d n hpos hn
    change n < (s.conn d).seq at hn
    rw [hseq] at hn
    rw [hsettled, hsettled]
    exact h.former d n hpos hn
  · intro p d n hn
    change (s.conn d).seq < n at hn
    rw [hseq] at hn
    rw [hsettled]
    exact h.later p d n hn

theorem countP_singleton (p : CsState → Bool) (call : Option (CsState × Errno)) :
    [call].countP (isCall p) = (isCall p call).toNat := by
  cases hcall : isCall p call <;> simp [hcall]

/-- The threads that leave in a step settle the last session. -/
theorem settled_moved {s : State C} {e : List (Option (CsState × Errno))}
    (htails : (s.conn c).tails = (l.server.conn c).tails ++ e)
    (hlength : (l.carried c).length = (l.server.conn c).tails.length) :
    (l.moved s).settled p c n = l.settled p c n +
      if (l.server.conn c).seq = n then e.countP (isCall p) else 0 := by
  have hcarry : carry l.server s c = List.replicate e.length (l.server.conn c).seq := by
    rw [carry, htails, List.length_append, Nat.add_sub_cancel_left]
  show l.called p c n + waiting p n (l.carried c ++ carry l.server s c) (s.conn c).tails = _
  rw [Ledger.settled, hcarry, htails, waiting_append hlength, waiting_replicate, Nat.add_assoc]

/-- A step settles nothing of the sessions before the last one. -/
theorem settled_moved_of_ne {s : State C} {e : List (Option (CsState × Errno))}
    (htails : (s.conn c).tails = (l.server.conn c).tails ++ e)
    (hlength : (l.carried c).length = (l.server.conn c).tails.length)
    (hn : (l.server.conn c).seq ≠ n) : (l.moved s).settled p c n = l.settled p c n := by
  rw [settled_moved htails hlength, if_neg hn, Nat.add_zero]

/-- A step in which nobody leaves settles nothing. -/
theorem settled_moved_nil {s : State C} (htails : (s.conn c).tails = (l.server.conn c).tails)
    (hlength : (l.carried c).length = (l.server.conn c).tails.length) :
    (l.moved s).settled p c n = l.settled p c n := by
  rw [settled_moved (e := []) (by rw [htails, List.append_nil]) hlength, List.countP_nil, ite_self,
    Nat.add_zero]

/-- So does every other step. -/
theorem ledgerInv_moved (h : LedgerInv l) {s : State C} (hrefs : RefInv s)
    (hturns : Turns l.server s) : LedgerInv (l.moved s) := by
  have hcases := fun d => hturns d _ _ (h.stage d)
  constructor
  · exact hrefs
  · intro d
    show (l.carried d ++ carry l.server s d).length = (s.conn d).tails.length
    have hle : (l.server.conn d).tails.length ≤ (s.conn d).tails.length := by
      rcases hcases d with ⟨-, htails, -⟩ | ⟨call, -, htails, -⟩ | ⟨-, htails, -⟩
      all_goals simp [htails]
    rw [List.length_append, carry, List.length_replicate, h.length d]
    omega
  · intro d
    have hlength := h.length d
    show Standing (s.conn d) ((l.moved s).settled asked d (s.conn d).seq)
      ((l.moved s).settled closed d (s.conn d).seq)
    rcases hcases d with ⟨hseq, htails, hstage⟩ | ⟨call, hseq, htails, hstage⟩ |
      ⟨hseq, htails, -, hstage⟩
    · rw [settled_moved_nil htails hlength, settled_moved_nil htails hlength, hseq]
      exact hstage
    · rw [settled_moved htails hlength, settled_moved htails hlength, hseq, if_pos rfl, if_pos rfl,
        countP_singleton, countP_singleton]
      exact hstage
    · have hnew : ∀ p, l.settled p d ((l.server.conn d).seq + 1) = 0 :=
        fun p => h.later p d _ (Nat.lt_succ_self _)
      rw [settled_moved_nil htails hlength, settled_moved_nil htails hlength, hseq, hnew, hnew]
      exact hstage
  · intro d
    have hlength := h.length d
    rcases hcases d with ⟨-, htails, -⟩ | ⟨call, hseq, htails, hstage⟩ | ⟨-, htails, -⟩
    · rw [settled_moved_nil htails hlength, settled_moved_nil htails hlength]
      exact h.zero d
    · by_cases hzero : (l.server.conn d).seq = 0
      · have hnone := hstage.none (hseq.trans hzero)
        rw [settled_moved htails hlength, settled_moved htails hlength, if_pos hzero, if_pos hzero,
          countP_singleton, countP_singleton]
        rwa [hzero] at hnone
      · rw [settled_moved_of_ne htails hlength hzero, settled_moved_of_ne htails hlength hzero]
        exact h.zero d
    · rw [settled_moved_nil htails hlength, settled_moved_nil htails hlength]
      exact h.zero d
  · intro d n hpos hn
    have hlength := h.length d
    change n < (s.conn d).seq at hn
    rcases hcases d with ⟨hseq, htails, -⟩ | ⟨call, hseq, htails, -⟩ | ⟨hseq, htails, hformer, -⟩
    · rw [settled_moved_nil htails hlength, settled_moved_nil htails hlength]
      exact h.former d n hpos (hseq ▸ hn)
    · have hne : (l.server.conn d).seq ≠ n := by omega
      rw [settled_moved_of_ne htails hlength hne, settled_moved_of_ne htails hlength hne]
      exact h.former d n hpos (hseq ▸ hn)
    · rw [settled_moved_nil htails hlength, settled_moved_nil htails hlength]
      rcases Nat.lt_or_ge n (l.server.conn d).seq with hlt | hge
      · exact h.former d n hpos hlt
      · obtain rfl : n = (l.server.conn d).seq := by omega
        rcases hformer with hzero | hdone
        · omega
        · exact hdone
  · intro p d n hn
    have hlength := h.length d
    change (s.conn d).seq < n at hn
    rcases hcases d with ⟨hseq, htails, -⟩ | ⟨call, hseq, htails, -⟩ | ⟨hseq, htails, -⟩
    · rw [settled_moved_nil htails hlength]
      exact h.later p d n (by omega)
    · rw [settled_moved_of_ne htails hlength (by omega)]
      exact h.later p d n (by omega)
    · rw [settled_moved_nil htails hlength]
      exact h.later p d n (by omega)

/-- A step with its ledger. -/
theorem ledgerInv_step {a : Label C} (h : LedgerInv l) (hstep : Ledger.step l a = some l') :
    LedgerInv l' := by
  obtain ⟨s, hs, hl'⟩ := Option.map_eq_some_iff.mp hstep
  have hrefs := refInv_step h.refs hs
  cases a with
  | finish c i =>
    subst hl'
    exact ledgerInv_finished h hs
  | _ =>
    subst hl'
    exact ledgerInv_moved h hrefs (turns_step h.refs hs (by simp))

/-- The account is right in every run. -/
theorem inductive_ledgerInv : InductiveInvariant (ledger C) (fun _ _ => True) LedgerInv where
  init := by
    rintro l ⟨listenFd, rfl⟩
    refine ⟨refInv_listening C listenFd, fun _ => rfl, fun _ => ?_, fun _ => ⟨rfl, rfl⟩,
      fun _ n _ hn => absurd hn (Nat.not_lt_zero n),
      fun _ _ _ _ => rfl⟩
    constructor <;> simp [State.listening, Conn.absent, Conn.writing, Conn.successes, succeeded,
      Holder.replying, Ledger.settled, Ledger.called, waiting]
  step _ _ _ h _ := ledgerInv_step h

/-! ## The calls are the service's -/

/-- Only the last step of a thread calls `handle`. -/
theorem handled_step {s s' : State C} {a : Label C} (hstep : step s a = some s')
    (ha : ∀ c i, a ≠ .finish c i) : s'.handled = s.handled := by
  have hdrain : ∀ (max cnt : Int) (entries : List C) (s : State C),
      (drainLoop max cnt entries s).handled = s.handled := by
    intro max cnt entries
    induction entries generalizing cnt with
    | nil => exact fun _ => rfl
    | cons c rest ih =>
      intro s
      simp only [drainLoop]
      split
      · rfl
      · exact ih (cnt + 1) (drainOne s c)
  cases a
  case finish c i => exact absurd rfl (ha c i)
  case drain max =>
    cases hstep
    exact hdrain max 0 s.aliveList s
  case shutdownServiceDrain =>
    simp only [step, shutdownServiceDrain] at hstep
    split at hstep
    · cases hstep
      exact hdrain (-1) 0 s.aliveList _
    · cases hstep
  all_goals
    simp only [step, acceptConn, createRequest, createRequestChecked, createRequestService,
      createRequestSession, appendMessage, appendMessageDone, readEnds, writeEnds, handlePipe,
      handleReadResult, handleIncomingRequest, handleIncomingRequestService, handleWriteResult,
      handleReplyResult, handleReplyResultService, replyReliable, replyFails, sendMessageSync,
      sendMessageSyncService, sendMessageAsync, targetShutdown, shutdownService] at hstep
    repeat' split at hstep
    all_goals cases hstep
    all_goals rfl

/-- The calls of the ledger are those of the service. -/
def Ledger.Agrees (l : Ledger C) : Prop :=
  (l.calls.map fun x => (x.1, x.2.2)) = l.server.handled.map fun x => (x.1, x.2.1)

/-- A thread that drops its reference makes the call that the ledger notes. -/
theorem agrees_finished (h : LedgerInv l) (hagrees : l.Agrees) {s : State C} {i : Nat}
    (hstep : finish l.server c i = some s) : (l.finished s c i).Agrees := by
  simp only [finish, Option.bind_eq_bind, Option.bind_eq_some_iff] at hstep
  obtain ⟨call, hcall, hstep⟩ := hstep
  cases hstep
  obtain ⟨hi, -⟩ := List.getElem?_eq_some_iff.mp hcall
  have hcarried : ∃ n, (l.carried c)[i]? = some n :=
    ⟨_, List.getElem?_eq_getElem (h.length c ▸ hi)⟩
  obtain ⟨n, hn⟩ := hcarried
  show ((l.calls ++ ((handleCall (l.carried c)[i]? (l.server.conn c).tails[i]?).map
      fun h => (c, h)).toList).map fun x => (x.1, x.2.2)) =
    (l.server.handled ++ call.toList.map fun h => (c, h)).map fun x => (x.1, x.2.1)
  rw [hcall, hn, List.map_append, List.map_append, hagrees]
  congr 1
  cases call with
  | none => rfl
  | some h => rfl

/-- Nothing else calls `handle`. -/
theorem inductive_agrees :
    InductiveInvariant (ledger C) (fun _ _ => True) fun l => LedgerInv l ∧ l.Agrees where
  init := by
    rintro l ⟨listenFd, rfl⟩
    exact ⟨inductive_ledgerInv.init _ ⟨listenFd, rfl⟩, rfl⟩
  step := by
    rintro l a l' ⟨h, hagrees⟩ - hstep
    refine ⟨ledgerInv_step h hstep, ?_⟩
    change Ledger.step l a = some l' at hstep
    obtain ⟨s, hs, hl'⟩ := Option.map_eq_some_iff.mp hstep
    cases a with
    | finish c i =>
      subst hl'
      exact agrees_finished h hagrees hs
    | _ =>
      subst hl'
      show (l.calls.map fun x => (x.1, x.2.2)) = s.handled.map fun x => (x.1, x.2.1)
      rw [handled_step hs (by simp)]
      exact hagrees

/-! ## The law -/

/-- The calls of `handle()` and the sessions of the connections. -/
structure Sessions (l : Ledger C) : Prop where
  calls : l.Agrees
  known : ∀ x ∈ l.calls, 1 ≤ x.2.1 ∧ x.2.1 ≤ (l.server.conn x.1).seq
  once : ∀ c n, l.called asked c n ≤ 1 ∧ l.called closed c n ≤ 1
  /-- A new session finds the former ones asked and closed, up to threads that are about to call. -/
  former : ∀ c n, 0 < n → n < (l.server.conn c).seq →
    l.settled asked c n = 1 ∧ l.settled closed c n = 1
  /-- No session of a released entry is forgotten. -/
  released : ∀ c, (l.server.conn c).released = 1 → ∀ n, 0 < n → n ≤ (l.server.conn c).seq →
    0 < l.called asked c n + l.called closed c n

/-- No session is asked or closed twice, by the threads that wait neither. -/
theorem settled_le_one (h : LedgerInv l) (c : C) (n : Nat) :
    l.settled asked c n ≤ 1 ∧ l.settled closed c n ≤ 1 := by
  rcases Nat.lt_trichotomy n (l.server.conn c).seq with hlt | rfl | hgt
  · rcases Nat.eq_zero_or_pos n with rfl | hpos
    · have hzero := h.zero c
      omega
    · have hformer := h.former c n hpos hlt
      omega
  · exact (h.stage c).once
  · rw [h.later asked c n hgt, h.later closed c n hgt]
    exact ⟨Nat.zero_le 1, Nat.zero_le 1⟩

/-- What the account says about the calls. -/
theorem Sessions.of_inv (h : LedgerInv l) (hagrees : l.Agrees) : Sessions l := by
  constructor
  case calls => exact hagrees
  case known =>
    intro x hx
    have hpos : 0 < l.settled asked x.1 x.2.1 + l.settled closed x.1 x.2.1 := by
      have hmade : 0 < l.called asked x.1 x.2.1 ∨ 0 < l.called closed x.1 x.2.1 := by
        by_cases hstate : x.2.2 = .toreply
        · exact .inl (List.countP_pos_iff.mpr ⟨x, hx, by simp [asked, hstate]⟩)
        · exact .inr (List.countP_pos_iff.mpr ⟨x, hx, by simp [closed, hstate]⟩)
      rw [Ledger.settled, Ledger.settled]
      omega
    constructor
    · by_contra hn
      have hzero := h.zero x.1
      rw [show x.2.1 = 0 by omega] at hpos
      omega
    · by_contra hn
      rw [h.later asked x.1 _ (by omega), h.later closed x.1 _ (by omega)] at hpos
      exact Nat.lt_irrefl 0 hpos
  case once =>
    intro c n
    have hone := settled_le_one h c n
    rw [Ledger.settled, Ledger.settled] at hone
    omega
  case former => exact h.former
  case released =>
    intro c hreleased n hpos hn
    have hc := h.refs.conns c
    have hzero : (l.server.conn c).refs = 0 := by
      by_contra hrefs
      have hcount := hc.released
      rw [if_neg (fun hgone => hrefs hgone.2)] at hcount
      omega
    obtain ⟨-, -, -, -, -, htails, -, hreads⟩ := hc.gone hzero
    have hsuccesses : (l.server.conn c).successes = 0 :=
      List.countP_eq_zero.mpr fun r hr => by simp [hreads r hr]
    have hsettled : ∀ p, l.settled p c n = l.called p c n := by
      intro p
      rw [Ledger.settled, htails, waiting, List.zip_nil_right, List.countP_nil, Nat.add_zero]
    rw [← hsettled, ← hsettled]
    rcases Nat.lt_or_eq_of_le hn with hlt | rfl
    · have hformer := h.former c n hpos hlt
      omega
    · have hgone := hzero
      rw [Conn.refs] at hgone
      rcases (h.stage c).known hpos with hsome | ⟨-, htoken⟩ | hsuccess
      · exact hsome
      · omega
      · omega

end Runs

/-- Every session is asked at most once and closed at most once, in every run. -/
theorem ledger_sessions {l : Ledger C} (h : (ledger C).Reachable l) : Sessions l :=
  have hinv := inductive_agrees.holds h
  .of_inv hinv.1 hinv.2

end WorkflowKernel.Communicator.Server
