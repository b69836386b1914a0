import WorkflowKernel.Communicator.Server.Lists

/-!
# Who holds an entry

`entry->ref` counts the operation in the poller, wherever it is, the threads that have left their
sections or complete a reply, and, when the terminal result overtook it, the success result, which
the handler of the terminal result leaves its reference to. `Counted` says so, with what the entry's
state tells about them, and each edit that the code makes keeps it. Unlike `ConnOk` it holds in
every run, since no reference depends on the two lists.
-/

namespace WorkflowKernel.Communicator.Server

open WorkflowKernel.Transition

/-! ## Counts -/

/-- The operation in the poller's table. -/
def registered (reg : Option (Op × Int)) : Nat := reg.toList.length

/-- The removed nodes in the pipe that are an operation's end. -/
def removed (pipe : List (Op × PrState)) : Nat := pipe.countP fun p => p.2.terminal

/-- The terminal results in the queue. -/
def ended (results : List (PrState × Errno)) : Nat := results.countP fun r => r.1.terminal

/-- The success results in the queue. -/
def succeeded (results : List (PrState × Errno)) : Nat := results.countP fun r => r.1 = .success

@[grind =] def Conn.successes (k : Conn) : Nat := succeeded k.readResults

/-- The reference of a thread that completes a reply. -/
@[grind =] def Holder.refs : Holder → Nat
  | .replyService | .resultService _ => 1
  | _ => 0

/-- The references to an entry. -/
@[grind =] def Conn.refs (k : Conn) : Nat :=
  k.tokens + k.tails.length + k.holder.refs + if k.state = .closing then k.successes else 0

structure Counted (on : Prop) (k : Conn) : Prop where
  fresh : k.accepted = false → k.state = .connecting ∧ k.refs = 0
  alive : on → k.state = .keepalive
  idle : k.idle = true → k.state = .idle
  once : k.tokens ≤ 1
  session : k.phase = .session → (k.state = .keepalive ∨ k.state = .connected) ∧ ¬ on
  polled : k.phase ≠ .rest → 1 ≤ k.polled
  msg : k.msg = true → k.state = .receiving ∧ 1 ≤ k.polled
  replying : k.holder.replying = true → k.state = .idle ∧ k.idle = false ∧ ¬ k.writing
  writing : k.writing → k.state = .idle ∧ k.idle = false
  reads : ∀ p ∈ k.pipe, p.1 = .read ∧ p.2 ≠ .success
  writes : ∀ r ∈ k.writeResults, r.1.terminal = true
  success : k.state = .success → k.successes = 1
  successes : 0 < k.successes → k.successes = 1 ∧ (k.state = .success ∨ k.state = .closing)
  handling : k.holder = .terminal → k.state = .keepalive ∨ k.state = .closing
  held : k.idle = true ∨ k.holder.replying = true ∨ k.state = .success → k.tokens = 1
  listed : on → k.tokens = 1
  ref : k.ref = k.refs
  released : k.released = if k.accepted ∧ k.refs = 0 then 1 else 0

section Sums

variable {k : Conn} {res : PrState × Errno} {results : List (PrState × Errno)}

/-- What the poller has of an entry. -/
@[grind =] theorem polled_eq (k : Conn) : k.polled = registered k.reg + removed k.pipe := rfl

/-- And its terminal results. -/
@[grind =] theorem tokens_eq (k : Conn) : k.tokens = registered k.reg + removed k.pipe +
    ended k.readResults + k.writeResults.length + if k.holder = .terminal then 1 else 0 := rfl

/-- A result that is taken is counted out of the terminal ones or of the successes. -/
theorem ended_erase (h : res ∈ results) :
    ended (results.erase res) + (if res.1.terminal = true then 1 else 0) = ended results := by
  have hperm := (List.perm_cons_erase h).countP_eq fun r => r.1.terminal
  rw [List.countP_cons] at hperm
  exact hperm.symm

theorem succeeded_erase (h : res ∈ results) :
    succeeded (results.erase res) + (if res.1 = .success then 1 else 0) = succeeded results := by
  have hperm := (List.perm_cons_erase h).countP_eq fun r => decide (r.1 = .success)
  rw [List.countP_cons] at hperm
  simpa [succeeded] using hperm.symm

/-- A result that comes is counted with them. -/
theorem ended_concat (res : PrState × Errno) (results : List (PrState × Errno)) :
    ended (results ++ [res]) =
    ended results + if res.1.terminal = true then 1 else 0 := by
  simp [ended, List.countP_append, List.countP_cons]

theorem succeeded_concat (res : PrState × Errno) (results : List (PrState × Errno)) :
    succeeded (results ++ [res]) =
    succeeded results + if res.1 = .success then 1 else 0 := by
  simp [succeeded, List.countP_append, List.countP_cons]

/-- A deleted node in the pipe is worth a terminal result. -/
theorem removed_cons (p : Op × PrState) (pipe : List (Op × PrState)) :
    removed (p :: pipe) = removed pipe + if p.2.terminal = true then 1 else 0 := by
  simp [removed, List.countP_cons]

/-- A registration counts one. -/
@[grind =] theorem registered_none : registered none = 0 := rfl

theorem registered_some {reg : Option (Op × Int)} {r : Op × Int} (h : reg = some r) :
    registered reg = 1 := by
  rw [h]
  rfl

theorem registered_map {reg : Option (Op × Int)} {op : Op} (h : reg.map Prod.fst = some op) :
    registered reg = 1 := by
  obtain ⟨r, hr, -⟩ := Option.map_eq_some_iff.mp h
  exact registered_some hr

/-- A terminal result is no success result. -/
theorem concat_terminal (h : res.1.terminal = true) (results : List (PrState × Errno)) :
    ended (results ++ [res]) = ended results + 1 ∧
      succeeded (results ++ [res]) = succeeded results := by
  have hne : res.1 ≠ .success := by
    intro hres
    rw [hres] at h
    cases h
  rw [ended_concat, succeeded_concat, if_pos h, if_neg hne]
  exact ⟨rfl, rfl⟩

/-- A terminal result is taken. -/
theorem erase_terminal (h : res.1.terminal = true) (hmem : res ∈ results) :
    ended (results.erase res) + 1 = ended results ∧
      succeeded (results.erase res) = succeeded results := by
  have hne : res.1 ≠ .success := by
    intro hres
    rw [hres] at h
    cases h
  have hended := ended_erase hmem
  have hsucceeded := succeeded_erase hmem
  rw [if_pos h] at hended
  rw [if_neg hne] at hsucceeded
  exact ⟨hended, hsucceeded⟩

end Sums

attribute [grind =] Conn.leave Conn.writing Holder.replying

/-! ## Edits of one connection -/

section Edits

variable {on : Prop} {k k' : Conn} {res : PrState × Errno}

/-- Before it is accepted an entry has no reference. -/
theorem Counted.absent : Counted False Conn.absent := by
  constructor <;> simp [Conn.absent, Conn.refs, Conn.tokens, Conn.polled, Conn.writing,
    Holder.replying, Holder.refs, Conn.successes, succeeded]

/-- Somebody holds the entry, so it is there. -/
theorem Counted.there (h : Counted on k) (hrefs : 0 < k.refs) : k.accepted = true := by
  by_contra hacc
  have hzero := (h.fresh (Bool.eq_false_iff.mpr hacc)).2
  omega

/-- An edit that moves the operation on and keeps the references, the state and the idle list. -/
theorem Counted.retoken (h : Counted on k)
    (same : k'.accepted = k.accepted ∧ k'.state = k.state ∧ k'.idle = k.idle ∧
      k'.holder = k.holder ∧ k'.tails = k.tails ∧ k'.ref = k.ref ∧ k'.released = k.released)
    (tokens : k'.tokens = k.tokens) (successes : k'.successes = k.successes)
    (writing : k'.writing → k.writing) (session : k'.phase = .session → k.phase = .session)
    (polled : k'.phase ≠ .rest → 1 ≤ k'.polled) (msg : k'.msg = true → k.msg = true ∧ 1 ≤ k'.polled)
    (reads : ∀ p ∈ k'.pipe, p.1 = .read ∧ p.2 ≠ .success)
    (writes : ∀ r ∈ k'.writeResults, r.1.terminal = true) : Counted on k' := by
  obtain ⟨haccepted, hstate, hidle, hholder, htails, href, hreleased⟩ := same
  have hrefs : k'.refs = k.refs := by
    simp only [Conn.refs, tokens, htails, hholder, hstate, successes]
  constructor
  · rw [haccepted, hstate, hrefs]
    exact h.fresh
  · rw [hstate]
    exact h.alive
  · rw [hidle, hstate]
    exact h.idle
  · rw [tokens]
    exact h.once
  · intro hs
    rw [hstate]
    exact h.session (session hs)
  · exact polled
  · intro hm
    rw [hstate]
    exact ⟨(h.msg (msg hm).1).1, (msg hm).2⟩
  · intro hr
    rw [hholder] at hr
    rw [hstate, hidle]
    exact ⟨(h.replying hr).1, (h.replying hr).2.1, fun hw => (h.replying hr).2.2 (writing hw)⟩
  · intro hw
    rw [hstate, hidle]
    exact h.writing (writing hw)
  · exact reads
  · exact writes
  · rw [hstate, successes]
    exact h.success
  · rw [hstate, successes]
    exact h.successes
  · rw [hholder, hstate]
    exact h.handling
  · rw [hidle, hholder, hstate, tokens]
    exact h.held
  · rw [tokens]
    exact h.listed
  · rw [href, hrefs]
    exact h.ref
  · rw [hreleased, haccepted, hrefs]
    exact h.released

/-- The poller thread moves on in `create_request`. -/
theorem Counted.phase (h : Counted on k) (hpolled : 1 ≤ k.polled) {p : Phase} (hp : p ≠ .session) :
    Counted on { k with phase := p } :=
  { h with
    session := fun hs => absurd hs hp
    polled := fun _ => hpolled }

theorem Counted.setTimeout (h : Counted on k) (timeout : Int) :
    Counted on (mpollerSetTimeout timeout k) := by
  have hpolled := polled_mpollerSetTimeout (k := k) timeout
  refine h.retoken ⟨rfl, rfl, rfl, rfl, rfl, rfl, rfl⟩ (tokens_mpollerSetTimeout timeout) rfl
    (writing_mpollerSetTimeout timeout).mp id ?_ ?_ h.reads h.writes
  · rw [hpolled]
    exact h.polled
  · intro hm
    rw [hpolled]
    exact ⟨hm, (h.msg hm).2⟩

/-- `create_request` lets the entry pass. -/
theorem Counted.pass (h : Counted on k) (hphase : k.phase = .service)
    (hs : k.state = .keepalive ∨ k.state = .connected) :
    Counted False { k with phase := .session } := by
  have hpolled := h.polled (by rw [hphase]; decide)
  exact { h with
    alive := False.elim
    session := fun _ => ⟨hs, id⟩
    polled := fun _ => hpolled
    listed := False.elim }

theorem Counted.failRequest (h : Counted on k) (error : Errno) :
    Counted on (failRequest error k) := by
  unfold Server.failRequest
  split
  · next timeout hreg =>
    have hended := ended_concat (.error, error) k.readResults
    have hsucceeded := succeeded_concat (.error, error) k.readResults
    simp only [PrState.terminal] at hended hsucceeded
    have hone := registered_some hreg
    cases h
    constructor <;> first | assumption | grind
  · exact { h with
      session := by simp
      polled := by simp
      msg := by simp }

/-- A session is made for an entry that passed the section. -/
theorem Counted.newSession (h : Counted on k) (hphase : k.phase = .session) (phase : Phase)
    (hne : phase ≠ .session) (msg : Bool) :
    Counted on { k with seq := k.seq + 1, state := .receiving, phase := phase, msg := msg } := by
  have hpolled := h.polled (by rw [hphase]; decide)
  have hsession := h.session hphase
  cases h
  constructor <;> first | assumption | grind

/-- A complete message leaves the registration behind. -/
theorem Counted.messageDone (h : Counted on k) (hmsg : k.msg = true) : Counted on
    { k with
      state := .success
      msg := false
      readResults := k.readResults ++ [(.success, 0)] } := by
  have hended := ended_concat (.success, 0) k.readResults
  have hsucceeded := succeeded_concat (.success, 0) k.readResults
  simp only [PrState.terminal] at hended hsucceeded
  cases h
  constructor <;> first | assumption | grind

theorem Counted.readEnds (h : Counted on k) (hreg : k.reg.map Prod.fst = some .read)
    (hphase : k.phase = .rest) (hres : res.1.terminal = true) : Counted on
    { k with reg := none, msg := false, readResults := k.readResults ++ [res] } := by
  obtain ⟨hended, hsucceeded⟩ := concat_terminal hres k.readResults
  have hone := registered_map hreg
  cases h
  constructor <;> first | assumption | grind

theorem Counted.writeEnds (h : Counted on k) (hreg : k.reg.map Prod.fst = some .write)
    (hphase : k.phase = .rest) (hres : res.1.terminal = true) : Counted on
    { k with reg := none, writeResults := k.writeResults ++ [res] } := by
  have hone := registered_map hreg
  cases h
  constructor <;> first | assumption | grind

/-- A removed read node comes out of the pipe. -/
theorem Counted.piped (h : Counted on k) {p : Op × PrState} {rest : List (Op × PrState)}
    (hpipe : k.pipe = p :: rest) (hphase : k.phase = .rest) : Counted on
    { k with pipe := rest, msg := false, readResults := k.readResults ++ [(p.2, 0)] } := by
  have hended := ended_concat (p.2, 0) k.readResults
  have hsucceeded := succeeded_concat (p.2, 0) k.readResults
  have hread := h.reads p (by simp [hpipe])
  have hremoved := removed_cons p rest
  rw [← hpipe] at hremoved
  cases h
  constructor <;> first | assumption | grind

/-! ### A result is handled -/

theorem Counted.notIdle (h : Counted on k) (hs : k.state ≠ .idle) : k.idle = false := by
  by_contra hidle
  exact hs (h.idle (by simpa using hidle))

/-- The result of a modified read operation is dropped without a reference. -/
theorem Counted.modified (h : Counted on k) (hmem : res ∈ k.readResults)
    (hres : res.1 = .modified) : Counted on { k with readResults := k.readResults.erase res } := by
  have hended := ended_erase hmem
  have hsucceeded := succeeded_erase hmem
  simp only [hres, PrState.terminal] at hended hsucceeded
  cases h
  constructor <;> first | assumption | grind

/-- The handler of the success result makes the entry idle and takes a reference. -/
theorem Counted.toIdle (h : Counted on k) (hmem : res ∈ k.readResults) (hres : res.1 = .success)
    (hholder : k.holder = .none) (hs : k.state = .success) (call : Option (CsState × Errno)) :
    Counted on ({ k with
      readResults := k.readResults.erase res
      idle := true
      ref := k.ref + 1
      state := .idle }.leave call) := by
  have hended := ended_erase hmem
  have hsucceeded := succeeded_erase hmem
  simp only [hres, PrState.terminal] at hended hsucceeded
  cases h
  constructor <;> first | assumption | grind

/-- The terminal result has been handled already, and left its reference. -/
theorem Counted.overtaken (h : Counted on k) (hmem : res ∈ k.readResults) (hres : res.1 = .success)
    (hs : k.state ≠ .success) (call : Option (CsState × Errno)) :
    Counted on ({ k with readResults := k.readResults.erase res }.leave call) := by
  have hended := ended_erase hmem
  have hsucceeded := succeeded_erase hmem
  simp only [hres, PrState.terminal] at hended hsucceeded
  cases h
  constructor <;> first | assumption | grind

/-- The terminal result is handled before the success result. -/
theorem Counted.overtakes (h : Counted on k) (hmem : res ∈ k.readResults)
    (hres : res.1.terminal = true) (hs : k.state = .success) :
    Counted on { k with readResults := k.readResults.erase res, state := .closing } := by
  obtain ⟨hended, hsucceeded⟩ := erase_terminal hres hmem
  cases h
  constructor <;> first | assumption | grind

/-- The handler of a terminal result leaves with the operation's reference. -/
theorem Counted.taken (h : Counted on k) (hmem : res ∈ k.readResults)
    (hres : res.1.terminal = true) (hholder : k.holder = .none) (hs : k.state ≠ .success)
    (hkeep : k.state ≠ .keepalive) (hidle : k.idle = false) (call : Option (CsState × Errno)) :
    Counted on ({ k with readResults := k.readResults.erase res }.leave call) := by
  obtain ⟨hended, hsucceeded⟩ := erase_terminal hres hmem
  cases h
  constructor <;> first | assumption | grind

/-- A terminal result takes its entry off the idle list. -/
theorem Counted.takenIdle (h : Counted on k) (hmem : res ∈ k.readResults)
    (hres : res.1.terminal = true) (hholder : k.holder = .none) (hs : k.state = .idle)
    (call : Option (CsState × Errno)) :
    Counted on ({ k with readResults := k.readResults.erase res, idle := false }.leave call) := by
  obtain ⟨hended, hsucceeded⟩ := erase_terminal hres hmem
  cases h
  constructor <;> first | assumption | grind

/-- It goes for the service's mutex. -/
theorem Counted.takenKeep (h : Counted on k) (hmem : res ∈ k.readResults)
    (hres : res.1.terminal = true) (hholder : k.holder = .none) (hs : k.state = .keepalive) :
    Counted on { k with readResults := k.readResults.erase res, holder := .terminal } := by
  obtain ⟨hended, hsucceeded⟩ := erase_terminal hres hmem
  cases h
  constructor <;> first | assumption | grind

/-- The thread that took it has been through the section. -/
theorem Counted.handled {on' : Prop} (h : Counted on k) (hholder : k.holder = .terminal)
    (off : ¬ on') (call : Option (CsState × Errno)) :
    Counted on' ({ k with holder := .none }.leave call) := by
  cases h
  constructor <;> first | assumption | grind

theorem Counted.onlyWrite (h : Counted on k) (hmem : res ∈ k.writeResults) :
    k.writeResults.length = 1 ∧ k.writeResults.erase res = [] := by
  have hpos := List.length_pos_of_mem hmem
  have hone := h.once
  rw [tokens_eq] at hone
  have hlength := List.length_erase_of_mem hmem
  exact ⟨by omega, List.eq_nil_of_length_eq_zero (by omega)⟩

/-- The handler of a write result leaves with the operation's reference. -/
theorem Counted.written (h : Counted on k) (hmem : res ∈ k.writeResults)
    (call : Option (CsState × Errno)) :
    Counted on ({ k with writeResults := k.writeResults.erase res }.leave call) := by
  obtain ⟨hlength, hnil⟩ := h.onlyWrite hmem
  have hwriting := h.writing (.inr (List.ne_nil_of_mem hmem))
  cases h
  constructor <;> first | assumption | grind

/-- The entry is registered for reading again. -/
theorem Counted.readd (h : Counted on k) (hmem : res ∈ k.writeResults) (hholder : k.holder = .none)
    (timeout : Int) (error : Errno) : Counted on
    { k with
      writeResults := k.writeResults.erase res
      ref := k.ref + 1
      reg := some (.read, timeout)
      holder := .resultService error } := by
  obtain ⟨hlength, hnil⟩ := h.onlyWrite hmem
  have hwriting := h.writing (.inr (List.ne_nil_of_mem hmem))
  have hone : registered (some (.read, timeout)) = 1 := rfl
  cases h
  constructor <;> first | assumption | grind

/-- `handle_reply_result` links the entry into the alive list, or `send_message_sync` does. -/
theorem Counted.kept (h : Counted on k) (hholder : k.holder = .replyService ∨
    ∃ error, k.holder = .resultService error) (call : Option (CsState × Errno)) :
    Counted True ({ k with state := .keepalive, holder := .none }.leave call) := by
  cases h
  constructor <;> first | assumption | grind

/-- `send_message_sync` finds `listen_fd` closed. -/
theorem Counted.late (h : Counted on k) (hholder : k.holder = .replyService)
    (call : Option (CsState × Errno)) : Counted on ({ k with holder := .none }.leave call) := by
  cases h
  constructor <;> first | assumption | grind

/-- The operation of an entry that is not being sent to is a read. -/
theorem reg_read {r : Op × Int} (hw : ¬ k.writing) (hreg : k.reg = some r) : r.1 = .read := by
  cases hop : r.1 with
  | read => rfl
  | write => exact absurd (.inl (by simp [hreg, hop])) hw

theorem Counted.mpollerDel (h : Counted on k) (hw : ¬ k.writing) : Counted on (mpollerDel k) := by
  have hpolled := polled_mpollerDel (k := k)
  refine h.retoken ⟨rfl, rfl, rfl, rfl, rfl, rfl, rfl⟩ tokens_mpollerDel rfl ?_ id ?_ ?_ ?_ h.writes
  · rintro (hreg | hne)
    · cases hreg
    · exact .inr hne
  · rw [hpolled]
    exact h.polled
  · intro hm
    rw [hpolled]
    exact ⟨hm, (h.msg hm).2⟩
  · intro p hp
    rcases List.mem_append.mp hp with hp | hp
    · exact h.reads p hp
    · obtain ⟨r, hr, rfl⟩ := List.mem_map.mp hp
      exact ⟨reg_read hw (by simpa using hr), by simp⟩

/-- `handle_reply_result` finds `listen_fd` closed. -/
theorem Counted.resultLate (h : Counted on k) {error : Errno}
    (hholder : k.holder = .resultService error) (call : Option (CsState × Errno)) :
    Counted on ({ k with state := .closing, holder := .none }.leave call) := by
  cases h
  constructor <;> first | assumption | grind

/-- A thread drops its reference, and releases the entry if it was the last. -/
theorem Counted.finish (h : Counted on k) {i : Nat} (hi : i < k.tails.length) : Counted on
    { k with
      tails := k.tails.eraseIdx i
      ref := k.ref - 1
      released := if k.ref - 1 = 0 then k.released + 1 else k.released } := by
  have hlength := List.length_eraseIdx_of_lt hi
  have hpos : 0 < k.refs := by
    rw [Conn.refs]
    omega
  have hacc := h.there hpos
  cases h
  constructor <;> first | assumption | grind

/-- The reference of the idle list goes to the reply, -/
theorem Counted.replyReliable (h : Counted on k) (hidle : k.idle = true)
    (hholder : k.holder = .none) : Counted on { k with idle := false, holder := .replySend } := by
  cases h
  constructor <;> first | assumption | grind

/-- and from there back to the terminal result that is to come, -/
theorem Counted.replyFails (h : Counted on k) (hholder : k.holder = .replySend) (error : Errno) :
    Counted on { k with error := error, state := .error, holder := .none } := by
  cases h
  constructor <;> first | assumption | grind

/-- to the thread that leaves a closed connection, -/
theorem Counted.sentClose (h : Counted on k) (hholder : k.holder = .replySend)
    (call : Option (CsState × Errno)) :
    Counted on ({ k with ref := k.ref + 1, state := .closing, holder := .none }.leave call) := by
  cases h
  constructor <;> first | assumption | grind

/-- to the one at the section, -/
theorem Counted.sentKeep (h : Counted on k) (hholder : k.holder = .replySend) :
    Counted on { k with ref := k.ref + 1, holder := .replyService } := by
  cases h
  constructor <;> first | assumption | grind

/-- or to the write operation. -/
theorem Counted.sentAsync (h : Counted on k) (hholder : k.holder = .replySend) {r : Op × Int}
    (hreg : k.reg = some r) (timeout : Int) : Counted on
    { k with
      reg := some (.write, timeout)
      pipe := k.pipe ++ [(r.1, .modified)]
      holder := .none } := by
  have hremoved : removed (k.pipe ++ [(r.1, .modified)]) = removed k.pipe := by
    simp [removed, PrState.terminal]
  have hone := registered_some hreg
  have hone' : registered (some (.write, timeout)) = 1 := rfl
  have hreplying := h.replying (by rw [hholder]; rfl)
  have hread := reg_read hreplying.2.2 hreg
  cases h
  constructor <;> first | assumption | grind

theorem Counted.sentNowhere (h : Counted on k) (hholder : k.holder = .replySend) :
    Counted on { k with state := .receiving, holder := .none } := by
  cases h
  constructor <;> first | assumption | grind

/-- `shutdown` has the reference of the idle list. -/
theorem Counted.shutdown (h : Counted on k) (hidle : k.idle = true) (hholder : k.holder = .none) :
    Counted on { k with idle := false, state := .closing } := by
  cases h
  constructor <;> first | assumption | grind

theorem Counted.drained (h : Counted on k) (hon : on) :
    Counted False { k with state := .closing } := by
  cases h
  constructor <;> first | assumption | grind

end Edits

end WorkflowKernel.Communicator.Server
