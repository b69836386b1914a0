import WorkflowKernel.Communicator.Server.Model
import Mathlib.Data.List.Perm.Basic

/-!
# What the state of an entry says about its lists

`entry->list` serves the service's alive list and the target's idle list, and the code infers from
`entry->state` which of the two an entry is on. `ConnOk` is what makes the inference right: an
entry on a list is in the list's state, and an entry in a list's state that is not on it is in the
hands of a thread that will not use the inference, or has no operation in the poller left whose
result could.

The operation is the invariant's backbone. A connection has at most one (`Conn.tokens`): in the
poller's table, removed and in the pipe, or as a terminal result that is queued or being handled.
-/

namespace WorkflowKernel.Communicator.Server

open WorkflowKernel.Transition

/-- The operation of a connection in the poller, as long as nothing has been handled that ends it:
in the table or in the pipe. -/
def Conn.polled (k : Conn) : Nat :=
  k.reg.toList.length + k.pipe.countP fun p => p.2.terminal

/-- The operation of a connection, wherever it is. -/
def Conn.tokens (k : Conn) : Nat :=
  k.polled + k.readResults.countP (fun r => r.1.terminal) + k.writeResults.length +
    if k.holder = .terminal then 1 else 0

/-- The operation is an asynchronous send. -/
def Conn.writing (k : Conn) : Prop := k.reg.map Prod.fst = some .write ∨ k.writeResults ≠ []

/-- A thread that completes a reply holds the target's mutex. -/
def Holder.replying : Holder → Bool
  | .replySend | .replyService | .resultService _ => true
  | _ => false

/-- What holds of a connection that is on the alive list or, if not `on`, is not. -/
structure ConnOk (on : Prop) (k : Conn) : Prop where
  fresh : k.accepted = false → k.state = .connecting
  alive : on → k.state = .keepalive
  idle : k.idle = true → k.state = .idle
  keepalive : k.state = .keepalive → on ∨ k.phase = .session ∨ k.tokens = 0
  offIdle : k.state = .idle → k.idle = true ∨ k.holder.replying = true ∨ k.writing ∨ k.tokens = 0
  once : k.tokens ≤ 1
  session : k.phase = .session → (k.state = .keepalive ∨ k.state = .connected) ∧ ¬ on
  polled : k.phase ≠ .rest → 1 ≤ k.polled
  msg : k.msg = true → k.state = .receiving
  replying : k.holder.replying = true → k.state = .idle ∧ k.idle = false ∧ ¬ k.writing
  writing : k.writing → k.state = .idle ∧ k.idle = false
  reads : ∀ p ∈ k.pipe, p.1 = .read

/-! ## Edits of one connection -/

section Edits

variable {on : Prop} {k k' : Conn}

/-- An edit that keeps the state and the lists, and keeps or ends the operation. -/
theorem ConnOk.retoken (h : ConnOk on k) (accepted : k'.accepted = k.accepted)
    (state : k'.state = k.state) (idle : k'.idle = k.idle)
    (replying : k'.holder.replying = k.holder.replying)
    (tokens : k'.tokens = k.tokens ∨ k'.tokens = 0) (writing : k'.writing ↔ k.writing)
    (session : k'.phase = .session ↔ k.phase = .session)
    (polled : k'.phase ≠ .rest → 1 ≤ k'.polled) (msg : k'.msg = true → k.msg = true)
    (reads : ∀ p ∈ k'.pipe, p.1 = .read) : ConnOk on k' where
  fresh := by rw [accepted, state]; exact h.fresh
  alive := by rw [state]; exact h.alive
  idle := by rw [state, idle]; exact h.idle
  keepalive hs := by
    rw [session]
    rcases tokens with htok | htok <;> rw [htok]
    · exact h.keepalive (state ▸ hs)
    · exact .inr (.inr rfl)
  offIdle hs := by
    rw [idle, replying, writing]
    rcases tokens with htok | htok <;> rw [htok]
    · exact h.offIdle (state ▸ hs)
    · exact .inr (.inr (.inr rfl))
  once := by
    have hle := h.once
    omega
  session := by rw [session, state]; exact h.session
  polled := polled
  msg hm := by rw [state]; exact h.msg (msg hm)
  replying := by rw [replying, state, idle, writing]; exact h.replying
  writing := by rw [writing, state, idle]; exact h.writing
  reads := reads

/-- An edit into a state that stands for no list. -/
theorem ConnOk.settled (fresh : k'.accepted = false → k'.state = .connecting)
    (noKeep : k'.state ≠ .keepalive) (noIdle : k'.state ≠ .idle) (off : ¬ on)
    (idle : k'.idle = false) (replying : k'.holder.replying = false) (writing : ¬ k'.writing)
    (phase : k'.phase ≠ .session) (polled : k'.phase ≠ .rest → 1 ≤ k'.polled)
    (msg : k'.msg = true → k'.state = .receiving) (once : k'.tokens ≤ 1)
    (reads : ∀ p ∈ k'.pipe, p.1 = .read) : ConnOk on k' where
  fresh := fresh
  alive := fun hon => absurd hon off
  idle := by simp [idle]
  keepalive := fun hs => absurd hs noKeep
  offIdle := fun hs => absurd hs noIdle
  once := once
  session := fun hs => absurd hs phase
  polled := polled
  msg := msg
  replying := by simp [replying]
  writing := fun hw => absurd hw writing
  reads := reads

/-- A state that stands for no list belongs to an entry on neither list and in no thread's
hands. -/
theorem ConnOk.loose (h : ConnOk on k) (noKeep : k.state ≠ .keepalive) (noIdle : k.state ≠ .idle) :
    ¬ on ∧ k.idle = false ∧ k.holder.replying = false ∧ ¬ k.writing := by
  refine ⟨fun hon => noKeep (h.alive hon), ?_, ?_, fun hw => noIdle (h.writing hw).1⟩
  · by_contra hidle
    exact noIdle (h.idle (by simpa using hidle))
  · by_contra hrep
    exact noIdle (h.replying (by simpa using hrep)).1

/-- An entry that is on the alive list is nowhere else. -/
theorem ConnOk.onAlive (h : ConnOk on k) (hon : on) :
    k.idle = false ∧ k.holder.replying = false ∧ ¬ k.writing ∧ k.phase ≠ .session := by
  have hs := h.alive hon
  have hne : k.state ≠ .idle := by rw [hs]; decide
  refine ⟨?_, ?_, fun hw => hne (h.writing hw).1, fun hp => (h.session hp).2 hon⟩
  · by_contra hidle
    exact hne (h.idle (by simpa using hidle))
  · by_contra hrep
    exact hne (h.replying (by simpa using hrep)).1

/-- An entry that is idle, on the list or in a replying thread's hands, is not on the alive list, is
not being sent to, and `create_request` has not let it pass. -/
theorem ConnOk.onIdle (h : ConnOk on k) (hs : k.state = .idle) : ¬ on ∧ k.phase ≠ .session := by
  refine ⟨fun hon => ?_, fun hp => ?_⟩
  · rw [h.alive hon] at hs
    cases hs
  · rcases (h.session hp).1 with hs' | hs' <;> rw [hs'] at hs <;> cases hs

theorem ConnOk.notWriting (h : ConnOk on k) (hidle : k.idle = true) : ¬ k.writing := by
  intro hw
  rw [(h.writing hw).2] at hidle
  cases hidle

theorem ConnOk.accepted (h : ConnOk on k) (hs : k.state ≠ .connecting) : k.accepted ≠ false :=
  fun ha => hs (h.fresh ha)

end Edits

/-! ## Where the operation is -/

section Tokens

variable {k : Conn}

@[simp] theorem polled_mpollerDel : (mpollerDel k).polled = k.polled := by
  cases hreg : k.reg <;> simp [Conn.polled, mpollerDel, hreg, PrState.terminal, Nat.add_comm]

@[simp] theorem tokens_mpollerDel : (mpollerDel k).tokens = k.tokens := by
  rw [Conn.tokens, polled_mpollerDel]
  rfl

@[simp] theorem polled_mpollerSetTimeout (timeout : Int) :
    (mpollerSetTimeout timeout k).polled = k.polled := by
  cases hreg : k.reg <;> simp [Conn.polled, mpollerSetTimeout, hreg]

@[simp] theorem tokens_mpollerSetTimeout (timeout : Int) :
    (mpollerSetTimeout timeout k).tokens = k.tokens := by
  rw [Conn.tokens, polled_mpollerSetTimeout]
  rfl

@[simp] theorem writing_mpollerSetTimeout (timeout : Int) :
    (mpollerSetTimeout timeout k).writing ↔ k.writing := by
  simp [Conn.writing, mpollerSetTimeout, Function.comp_def]

theorem tokens_pos_of_read {res : PrState × Errno} (hmem : res ∈ k.readResults)
    (hres : res.1.terminal = true) :
    1 ≤ k.readResults.countP fun r => r.1.terminal :=
  List.countP_pos_iff.mpr ⟨res, hmem, hres⟩

end Tokens

/-! ## The edits of the source -/

section Steps

variable {on : Prop} {k : Conn} {res : PrState × Errno}

theorem ConnOk.absent : ConnOk False Conn.absent := by
  constructor <;> simp [Conn.absent, Conn.tokens, Conn.polled, Conn.writing, Holder.replying]

/-- `create_request` failed for an entry that it had not let pass, or in a state of no list. -/
theorem ConnOk.failRequest (h : ConnOk on k) (error : Errno)
    (unlisted : k.phase ≠ .session ∨ (k.state ≠ .keepalive ∧ k.state ≠ .idle)) :
    ConnOk on (failRequest error k) := by
  have htok : (Server.failRequest error k).tokens = k.tokens := by
    simp only [Server.failRequest]
    split
    · next timeout hreg =>
      simp [Conn.tokens, Conn.polled, hreg, PrState.terminal, List.countP_append]
      omega
    · rfl
  have hwriting : (Server.failRequest error k).writing ↔ k.writing := by
    simp only [Server.failRequest]
    split
    · next timeout hreg => simp [Conn.writing, hreg]
    · rfl
  have hfields : (Server.failRequest error k).accepted = k.accepted ∧
      (Server.failRequest error k).state = k.state ∧ (Server.failRequest error k).idle = k.idle ∧
      (Server.failRequest error k).holder = k.holder ∧
      (Server.failRequest error k).phase = .rest ∧ (Server.failRequest error k).msg = false ∧
      (Server.failRequest error k).pipe = k.pipe := by
    simp only [Server.failRequest]
    split <;> simp
  obtain ⟨hacc, hstate, hidle, hholder, hphase, hmsg, hpipe⟩ := hfields
  by_cases hsession : k.phase = .session
  · obtain ⟨noKeep, noIdle⟩ := unlisted.resolve_left (not_not_intro hsession)
    obtain ⟨hoff, hidle', hrep, hw⟩ := h.loose noKeep noIdle
    refine ConnOk.settled (by rw [hacc, hstate]; exact h.fresh) (by rwa [hstate])
      (by rwa [hstate]) hoff (by rwa [hidle]) (by rwa [hholder]) (by rwa [hwriting])
      (by simp [hphase]) (by simp [hphase]) (by simp [hmsg]) (by rw [htok]; exact h.once)
      (by rw [hpipe]; exact h.reads)
  · refine h.retoken hacc hstate hidle (by rw [hholder]) (.inl htok) hwriting ?_ (by simp [hphase])
      (by simp [hmsg]) (by rw [hpipe]; exact h.reads)
    simp [hphase, hsession]

theorem ConnOk.setTimeout (h : ConnOk on k) (timeout : Int) :
    ConnOk on (mpollerSetTimeout timeout k) :=
  h.retoken rfl rfl rfl rfl (.inl (tokens_mpollerSetTimeout timeout))
    (writing_mpollerSetTimeout timeout) Iff.rfl
    (by rw [polled_mpollerSetTimeout]; exact h.polled) id h.reads

theorem ConnOk.leave (h : ConnOk on k) (call : Option (CsState × Errno)) :
    ConnOk on (k.leave call) :=
  h.retoken rfl rfl rfl rfl (.inl rfl) Iff.rfl Iff.rfl h.polled id h.reads

/-- Deleting the operation and moving to a state of no list. -/
theorem ConnOk.closed {on' : Prop} {k' : Conn} (h : ConnOk on k) (hacc : k.accepted ≠ false)
    (noWriting : ¬ k.writing) (noSession : k.phase ≠ .session) (noMsg : k.msg = false)
    (off : ¬ on') (accepted : k'.accepted = k.accepted)
    (state : k'.state = .closing ∨ k'.state = .error) (idle : k'.idle = false)
    (replying : k'.holder.replying = false) (held : k'.holder = .terminal → k.holder = .terminal)
    (phase : k'.phase = k.phase) (msg : k'.msg = k.msg) (reg : k'.reg = none)
    (pipe : k'.pipe = (mpollerDel k).pipe) (readResults : k'.readResults = k.readResults)
    (writeResults : k'.writeResults = k.writeResults) : ConnOk on' k' := by
  have hpolled : k'.polled = k.polled := by
    rw [← polled_mpollerDel (k := k), Conn.polled, Conn.polled, reg, pipe]
    rfl
  have htok : k'.tokens ≤ 1 := by
    have hle := h.once
    rw [Conn.tokens] at hle ⊢
    rw [hpolled, readResults, writeResults]
    by_cases hterm : k'.holder = .terminal
    · simpa [hterm, held hterm] using hle
    · simp only [hterm, if_false]
      omega
  have hw : ¬ k'.writing := by
    simp only [Conn.writing, not_or, reg, writeResults] at noWriting ⊢
    exact ⟨by simp, noWriting.2⟩
  refine ConnOk.settled (fun ha => absurd (accepted ▸ ha) hacc) ?_ ?_ off idle replying hw
    (by rwa [phase]) (by rw [phase, hpolled]; exact h.polled) (by simp [msg, noMsg]) htok ?_
  · rcases state with hs | hs <;> rw [hs] <;> decide
  · rcases state with hs | hs <;> rw [hs] <;> decide
  · rw [pipe]
    intro p hp
    rcases List.mem_append.mp hp with hp | hp
    · exact h.reads p hp
    · -- the operation of an entry that is not being sent to is a read
      obtain ⟨r, hr, rfl⟩ := List.mem_map.mp hp
      have hreg : k.reg = some r := by simpa using hr
      cases hop : r.1 with
      | read => rfl
      | write => exact absurd (.inl (by simp [hreg, hop])) noWriting

theorem ConnOk.noMsg (h : ConnOk on k) (hs : k.state ≠ .receiving) : k.msg = false := by
  by_contra hmsg
  exact hs (h.msg (by simpa using hmsg))

/-- The entry is linked into the alive list by the thread that completes its reply. -/
theorem ConnOk.linkedAlive {k' : Conn} (h : ConnOk on k) (hrep : k.holder.replying = true)
    (state : k'.state = .keepalive) (idle : k'.idle = k.idle) (accepted : k'.accepted = k.accepted)
    (holder : k'.holder = .none) (phase : k'.phase = k.phase) (msg : k'.msg = k.msg)
    (reg : k'.reg = k.reg) (pipe : k'.pipe = k.pipe) (readResults : k'.readResults = k.readResults)
    (writeResults : k'.writeResults = k.writeResults) : ConnOk True k' := by
  obtain ⟨hs, hidle, hw⟩ := h.replying hrep
  have hpolled : k'.polled = k.polled := by rw [Conn.polled, Conn.polled, reg, pipe]
  have hterm : k.holder ≠ .terminal := by
    intro ht
    rw [ht] at hrep
    cases hrep
  have hw' : ¬ k'.writing := by rwa [Conn.writing, reg, writeResults]
  constructor
  · exact fun ha => absurd (accepted ▸ ha) (h.accepted (by rw [hs]; decide))
  · exact fun _ => state
  · simp [idle, hidle]
  · exact fun _ => .inl trivial
  · simp [state]
  · have hle := h.once
    rw [Conn.tokens] at hle ⊢
    simpa [hpolled, readResults, writeResults, holder, hterm] using hle
  · intro hp
    exact absurd (phase ▸ hp) (h.onIdle hs).2
  · rw [phase, hpolled]
    exact h.polled
  · simp [msg, h.noMsg (by rw [hs]; decide)]
  · simp [holder, Holder.replying]
  · exact fun hw'' => absurd hw'' hw'
  · rw [pipe]
    exact h.reads

/-- A terminal result taken from the queue was the operation, so nothing else is. -/
theorem ConnOk.taken (h : ConnOk on k) (hmem : res ∈ k.readResults)
    (hres : res.1.terminal = true) :
    k.holder ≠ .terminal ∧ ¬ k.writing ∧ k.phase = .rest ∧ k.tokens = 1 ∧
      ({ k with readResults := k.readResults.erase res } : Conn).tokens = 0 := by
  have hle := h.once
  have hpos := tokens_pos_of_read hmem hres
  have herase : (k.readResults.erase res).countP (fun r => r.1.terminal) =
      k.readResults.countP (fun r => r.1.terminal) - 1 := by
    have hperm := (List.perm_cons_erase hmem).countP_eq fun r => r.1.terminal
    rw [List.countP_cons, if_pos hres] at hperm
    omega
  have hpolled : ({ k with readResults := k.readResults.erase res } : Conn).polled = k.polled := rfl
  rw [Conn.tokens] at hle
  have hone : k.holder ≠ .terminal := by
    intro ht
    simp only [ht, if_true] at hle
    omega
  refine ⟨hone, ?_, ?_, ?_, ?_⟩
  · rintro (hreg | hne)
    · have hone : 1 ≤ k.polled := by
        cases hk : k.reg <;> simp [hk, Conn.polled] at hreg ⊢
      omega
    · have := List.length_pos_iff.mpr hne
      omega
  · by_contra hphase
    have := h.polled hphase
    omega
  · rw [Conn.tokens]
    simp only [hone, if_false] at hle ⊢
    omega
  · rw [Conn.tokens, hpolled]
    simp only [hone, if_false] at hle ⊢
    omega

/-- The write result taken from the queue was the operation. -/
theorem ConnOk.takenWrite (h : ConnOk on k) (hmem : res ∈ k.writeResults) :
    k.state = .idle ∧ k.idle = false ∧ k.phase = .rest ∧ k.reg = none ∧
      k.holder ≠ .terminal ∧ k.polled = 0 ∧
      k.readResults.countP (fun r => r.1.terminal) = 0 ∧ k.writeResults.erase res = [] := by
  have hle := h.once
  have hpos : 1 ≤ k.writeResults.length := List.length_pos_of_mem hmem
  have hw : k.writing := .inr (List.ne_nil_of_mem hmem)
  obtain ⟨hs, hidle⟩ := h.writing hw
  rw [Conn.tokens] at hle
  have hpolled : k.polled = 0 := by omega
  refine ⟨hs, hidle, ?_, ?_, ?_, hpolled, by omega, ?_⟩
  · by_contra hphase
    have := h.polled hphase
    omega
  · rw [Conn.polled] at hpolled
    cases hreg : k.reg with
    | none => rfl
    | some r => simp [hreg] at hpolled
  · intro ht
    simp only [ht, if_true] at hle
    omega
  · have hlen := List.length_erase_of_mem hmem
    exact List.eq_nil_of_length_eq_zero (by omega)

/-- A terminal result that is being handled is the operation, so nothing else is. -/
theorem ConnOk.handled (h : ConnOk on k) (hholder : k.holder = .terminal) :
    k.phase = .rest ∧ 1 ≤ k.tokens ∧ ({ k with holder := .none } : Conn).tokens = 0 := by
  have hle := h.once
  simp only [Conn.tokens, hholder, if_true] at hle ⊢
  refine ⟨?_, by omega, ?_⟩
  · by_contra hp
    have hpos := h.polled hp
    omega
  · simp only [Conn.polled] at hle
    simp only [Conn.polled, reduceCtorEq, if_false]
    omega

/-- It has been handled. -/
theorem ConnOk.finished {on' : Prop} (h : ConnOk on k) (hholder : k.holder = .terminal)
    (off : on' → on) : ConnOk on' { k with holder := .none } := by
  obtain ⟨hphase, -, hzero⟩ := h.handled hholder
  refine ⟨h.fresh, fun ho => h.alive (off ho), h.idle, fun _ => .inr (.inr hzero),
    fun _ => .inr (.inr (.inr hzero)), ?_, fun hp => ?_, h.polled, h.msg, ?_, h.writing, h.reads⟩
  · omega
  · exact absurd (hphase.symm.trans hp) (by decide)
  · simp [Holder.replying]

end Steps

end WorkflowKernel.Communicator.Server
