import WorkflowKernel.Communicator.Client.Account

/-!
# The stages of a connection

At any time an entry is in one of nine stages (`Stage`). A stage says which operation is outstanding,
whether a success result is, which states the entry can have, whether it is on the idle list and
whether `request_idle_conn` has it. `ConnOk` adds what the steps rely on besides, and that the
reference count is the number of things that hold a reference.

The two stages that two handlers make are `replied` and `overtaken`: a terminal result that is
handled before the success result of the same connection leaves its reference to it.
-/

namespace WorkflowKernel.Communicator.Client

open WorkflowKernel.Lib.Exchange

inductive Stage
  /-- Up to the read or the write operation. -/
  | connecting
  /-- The request is sent asynchronously. -/
  | writing
  /-- The reply is awaited, or the end of a connection that could not send. -/
  | waiting
  /-- The reply is complete and its result not yet handled. -/
  | replied
  /-- On the idle list. -/
  | idle
  /-- `request_idle_conn` has unlinked it and not yet sent. -/
  | requested
  /-- The connection is to be closed. -/
  | closing
  /-- The connection has ended before the result of its reply was handled. -/
  | overtaken
  /-- No operation is left. -/
  | over
  deriving DecidableEq

/-- The operation outstanding in a stage. -/
def Stage.operation : Stage → Option Op
  | .connecting => some .connect
  | .writing => some .write
  | .waiting | .replied | .idle | .requested | .closing => some .read
  | .overtaken | .over => none

def Stage.count (g : Stage) (op : Op) : Nat := if g.operation = some op then 1 else 0

/-- The success results outstanding in a stage. -/
def Stage.successes : Stage → Nat
  | .replied | .overtaken => 1
  | _ => 0

/-- The references that are held for these. -/
def Stage.refs : Stage → Nat
  | .over => 0
  | _ => 1

/-- The states of an entry in a stage. -/
def Stage.allows : Stage → ConnState → Bool
  | .connecting, .connecting | .connecting, .receiving => true
  | .writing, .idle | .writing, .connecting | .writing, .receiving => true
  | .waiting, .receiving | .waiting, .error => true
  | .replied, .success => true
  | .idle, .idle | .requested, .idle => true
  | .closing, .closing | .overtaken, .closing => true
  | .over, _ => true
  | _, _ => false

section Defs

variable {S : Type}

/-- `request_idle_conn` has not yet sent. -/
def Holder.busy : Holder S → Bool
  | .taken _ | .sending _ | .failing _ => true
  | _ => false

/-- The session of a call that adds an operation. -/
def Task.begun : Task S → Option S
  | .addConnect s | .addRead s _ => some s
  | _ => none

/-- An entry in a stage; `on` says whether it is on the idle list. -/
structure Conn.At (on : Prop) (g : Stage) (k : Conn S) : Prop where
  count : ∀ op, k.count (.operation op) = g.count op
  successes : k.successes = g.successes
  state : g.allows k.state = true
  on : on ↔ g = .idle
  busy : k.holder.busy = true ↔ g = .requested

/-- What holds of a launched entry between two steps. -/
structure ConnOk (on : Prop) (g : Stage) (k : Conn S) : Prop where
  launched : k.launched = true
  stage : k.At on g
  /-- While it connects an entry is in nobody else's hands. -/
  connect : g = .connecting → k.tails = 0 ∧ k.holder = .none ∧ k.phase = .out
  /-- The poller thread reads a node that has not ended, or one that was replaced by a write
  operation that has not. -/
  phase : k.phase ≠ .out → k.polled .read = 1 ∨
    k.polled .write = 1 ∧ k.state = .idle ∧ k.msg = false ∧ k.phase ≠ .done
  msg : k.msg = true → k.polled .read = 1 ∧ (k.state = .receiving ∨ k.phase = .done)
  stray : k.count .stray = 0
  session : k.session.isSome = true
  begun : ∀ t ∈ k.tasks, ∀ s, t.begun = some s → k.session = some s
  adding : ∀ s rest, .addRead s rest ∈ k.tasks → k.state = .receiving ∧ rest ≠ .decref
  installs : ∀ s, k.holder.installs = some s → k.session = some s
  /-- The entry outlives the section that `request_idle_conn` has on its mutex. -/
  held : k.holder ≠ .none → 0 < g.count .read + g.count .write + k.count .sync
  ref : k.released = 0 ∧ k.ref = (g.refs + k.tails : Nat) ∧ 0 < g.refs + k.tails ∨
    k.released = 1 ∧ g.refs + k.tails = 0

end Defs

/-! ## Which stage it is -/

section Stages

variable {S : Type} {on : Prop} {k : Conn S} {g : Stage}

/-- A connection with a read operation is in the stage that its state says. -/
theorem Conn.At.reading (h : k.At on g) (hread : 0 < k.count (.operation .read)) :
    match k.state with
    | .receiving | .error => g = .waiting
    | .success => g = .replied
    | .idle => g = .idle ∨ g = .requested
    | .closing => g = .closing
    | _ => False := by
  have hcount := h.count .read
  have hstate := h.state
  cases g <;> cases hs : k.state <;> simp_all [Stage.count, Stage.operation, Stage.allows]

theorem Stage.writing_of (h : g.operation = some .write) : g = .writing := by
  cases g <;> simp_all [Stage.operation]

theorem Stage.connecting_of (h : g.operation = some .connect) : g = .connecting := by
  cases g <;> simp_all [Stage.operation]

/-- The read operation is to end with a `handle()` while the reply is awaited, and when
`request_idle_conn` has given the entry a session. -/
theorem Conn.At.awaited (h : k.At on g) :
    (if k.awaits then k.count (.operation .read) else 0) =
      if g = .waiting ∨ k.holder.installs.isSome = true then 1 else 0 := by
  have hcount := h.count .read
  have hstate := h.state
  have hbusy := h.busy
  rw [hcount]
  cases hk : k.holder <;> cases g <;> cases hs : k.state <;>
    simp_all [Conn.awaits, Stage.count, Stage.operation, Stage.allows, Holder.installs,
      Holder.busy]

/-- A connection with a success result has its state, or the terminal result has overtaken it. -/
theorem Conn.At.success (h : k.At on g) (hsuccess : 0 < k.successes) :
    g = .replied ∧ k.state = .success ∨ g = .overtaken ∧ k.state = .closing := by
  have hcount := h.successes
  have hstate := h.state
  cases g <;> cases hs : k.state <;> simp_all [Stage.successes, Stage.allows]

/-- The state of an idle entry. -/
theorem Conn.At.idle (h : k.At on g) (hg : g = .idle ∨ g = .requested) : k.state = .idle := by
  have hstate := h.state
  rcases hg with rfl | rfl <;> cases hs : k.state <;> simp_all [Stage.allows]

/-- A stage without a success result. -/
theorem Conn.At.notDone (h : k.At on g) (hg : g.successes = 0) :
    k.count .success = 0 ∧ k.phase ≠ .done := by
  have hsuccess := h.successes
  rw [Conn.successes, hg] at hsuccess
  refine ⟨by omega, fun hdone => ?_⟩
  simp [hdone] at hsuccess

theorem Conn.At.off (h : k.At on g) (hg : g ≠ .idle) : ¬ on := fun hon => hg (h.on.mp hon)

theorem Conn.At.free (h : k.At on g) (hg : g ≠ .requested) : k.holder.busy = false := by
  by_contra hbusy
  exact hg (h.busy.mp (by simpa using hbusy))

theorem Holder.installs_of_free {x : Holder S} (h : x.busy = false) : x.installs = .none := by
  cases x <;> simp_all [Holder.busy, Holder.installs]

/-- A stage in which the entry is neither listed nor in the hands of `request_idle_conn`. -/
theorem Conn.At.loose (count : ∀ op, k.count (.operation op) = g.count op)
    (successes : k.successes = g.successes) (state : g.allows k.state = true) (off : ¬ on)
    (free : k.holder.busy = false) (hidle : g ≠ .idle) (hrequested : g ≠ .requested) :
    k.At on g where
  count := count
  successes := successes
  state := state
  on := ⟨fun hon => absurd hon off, fun e => absurd e hidle⟩
  busy := ⟨fun hb => by simp [free] at hb, fun e => absurd e hrequested⟩

end Stages

/-! ## Edits that keep the stage -/

section Moves

variable {S : Type} {on : Prop} {g : Stage} {k k' : Conn S}

/-- A task's role is outstanding. -/
theorem ConnOk.has (h : ConnOk on g k) {t : Task S} (ht : t ∈ k.tasks) {op : Op}
    (hrole : t.role = .operation op) : g.operation = some op := by
  have hpos := count_pos (Conn.mem_task.mpr ht)
  rw [show Item.role (.task t) = .operation op from hrole, h.stage.count, Stage.count] at hpos
  by_contra hne
  simp [hne] at hpos

/-- A removed node has ended its operation or is a replaced read operation. -/
theorem ConnOk.ends (h : ConnOk on g k) {op : Op} {state : PrState} (hp : (op, state) ∈ k.pipe) :
    state.terminal = true ∨ op = .read ∧ state = .modified := by
  have hpos : 0 < k.count (Item.role (.removed op state : Item S)) :=
    count_pos (List.mem_append_left _ (List.mem_append_right _ (List.mem_map_of_mem hp)))
  by_contra hne
  obtain ⟨hterminal, hread⟩ := not_or.mp hne
  rw [Item.role, if_neg hterminal, if_neg hread, h.stray] at hpos
  exact absurd hpos (Nat.lt_irrefl 0)

/-- A result is a success result or a dropped one if it ends no operation. -/
theorem ConnOk.reads (h : ConnOk on g k) {op : Op} {state : PrState} {error : Errno}
    (ht : .result op state error ∈ k.tasks) : state.terminal = true ∨ op = .read := by
  have hpos : 0 < k.count (Task.role (.result op state error : Task S)) :=
    count_pos (Conn.mem_task.mpr ht)
  by_contra hne
  obtain ⟨hterminal, hread⟩ := not_or.mp hne
  rw [Task.role, if_neg hterminal, if_neg hread, h.stray] at hpos
  exact absurd hpos (Nat.lt_irrefl 0)

/-- While it connects the poller thread does not read. -/
theorem ConnOk.quiet (h : ConnOk on g k) (hg : g = .connecting) :
    k.tails = 0 ∧ k.holder = .none ∧ k.phase = .out ∧ k.msg = false := by
  obtain ⟨htails, hholder, hphase⟩ := h.connect hg
  refine ⟨htails, hholder, hphase, ?_⟩
  by_contra hm
  have hpolled := (h.msg (by simpa using hm)).1
  have hle := k.polled_le .read
  rw [h.stage.count, hg] at hle
  simp [Stage.count, Stage.operation] at hle
  omega

/-- Who adds an operation has the one that it comes after. -/
theorem ConnOk.notBegun (h : ConnOk on g k) (hwrite : g.count .write = 0)
    (hconnect : g.count .connect = 0) {t : Task S} (ht : t ∈ k.tasks) : t.begun = .none := by
  by_contra hne
  have role : t.role = .operation .connect ∨ t.role = .operation .write := by
    cases t with
    | addConnect s => exact .inl rfl
    | addRead s rest => cases rest <;> simp [Task.role, Rest.op]
    | _ => exact absurd rfl hne
  rcases role with hrole | hrole
  · simp [Stage.count, h.has ht hrole] at hconnect
  · simp [Stage.count, h.has ht hrole] at hwrite

theorem ConnOk.notAdding (h : ConnOk on g k) (hwrite : g.count .write = 0)
    (hconnect : g.count .connect = 0) (s : S) (rest : Rest) : .addRead s rest ∉ k.tasks := by
  intro ht
  cases h.notBegun hwrite hconnect ht

/-- Where the poller thread stands when the entry has a read operation and awaits no message. -/
theorem ConnOk.unread (h : ConnOk on g k) (hwrite : g.count .write = 0)
    (hstate : k.state ≠ .receiving) (hdone : k.phase ≠ .done) :
    (k.phase ≠ .out → k.polled .read = 1) ∧ k.msg = false := by
  refine ⟨fun hne => (h.phase hne).resolve_right fun hw => ?_, ?_⟩
  · have hle := k.polled_le .write
    rw [h.stage.count, hwrite] at hle
    omega
  · by_contra hm
    rcases (h.msg (by simpa using hm)).2 with hs | hs
    · exact hstate hs
    · exact hdone hs

/-- What has a role of an entry keeps it, wherever it goes. -/
theorem ConnOk.moved (h : ConnOk on g k)
    (counts : ∀ r, r ≠ .nothing → k'.count r = k.count r) (state : k'.state = k.state)
    (holder : k'.holder = k.holder) (launched : k'.launched = k.launched)
    (session : k'.session = k.session) (ref : k'.ref = k.ref) (released : k'.released = k.released)
    (done : k'.phase = .done ↔ k.phase = .done) (phase : k'.phase ≠ .out → k.phase ≠ .out)
    (msg : k'.msg = true → k.msg = true)
    (polled : k'.phase ≠ .out ∨ k'.msg = true → ∀ op, k'.polled op = k.polled op)
    (begun : ∀ t ∈ k'.tasks, t ∈ k.tasks ∨ t.begun = none) : ConnOk on g k' := by
  have sync := counts .sync (by simp)
  have tails : k'.tails = k.tails := by rw [Conn.tails, sync, counts .decref (by simp)]; rfl
  have successes : k'.successes = k.successes := by
    simp only [Conn.successes, counts .success (by simp), done]
  have old : ∀ t ∈ k'.tasks, ∀ s, t.begun = some s → t ∈ k.tasks := fun t ht s hs =>
    (begun t ht).resolve_right (by simp [hs])
  exact {
    launched := launched.trans h.launched
    stage := ⟨fun op => (counts _ (by simp)).trans (h.stage.count op),
      successes.trans h.stage.successes, state ▸ h.stage.state, h.stage.on, holder ▸ h.stage.busy⟩
    connect := fun hc => by
      obtain ⟨htails, hholder, hphase⟩ := h.connect hc
      exact ⟨tails.trans htails, holder.trans hholder, by_contra fun hne => phase hne hphase⟩
    phase := fun hne => by
      rw [polled (.inl hne), polled (.inl hne), state, Ne, done]
      rcases h.phase (phase hne) with hread | ⟨hwrite, hidle, hmsg, hdone⟩
      · exact .inl hread
      · refine .inr ⟨hwrite, hidle, ?_, hdone⟩
        by_contra htrue
        rw [msg (by simpa using htrue)] at hmsg
        cases hmsg
    msg := fun hm => by
      rw [polled (.inr hm), state, done]
      exact h.msg (msg hm)
    stray := (counts .stray (by simp)).trans h.stray
    session := by rw [session]; exact h.session
    begun := fun t ht s hs => by rw [session]; exact h.begun t (old t ht s hs) s hs
    adding := fun s rest ht => by rw [state]; exact h.adding s rest (old _ ht s rfl)
    installs := by rw [holder, session]; exact h.installs
    held := by rw [holder, sync]; exact h.held
    ref := by rw [released, ref, tails]; exact h.ref }

end Moves

end WorkflowKernel.Communicator.Client
