import WorkflowKernel.Communicator.Client.Invariant

/-!
# What the steps do to a connection

Each edit of an entry keeps `ConnOk`, and the sessions that wait for their `handle()` stay the same
(`Kept`), except where `handle()` is called and where the entry is given a session.
-/

namespace WorkflowKernel.Communicator.Client

open WorkflowKernel.Lib.Exchange

variable {S : Type} [DecidableEq S] {on : Prop} {g : Stage} {k k' : Conn S}

/-- An edit of a connection that is then in stage `g'`, and on the idle list if `on'`. -/
structure Kept (on' : Prop) (g' : Stage) (k k' : Conn S) : Prop where
  ok : ConnOk on' g' k'
  owners : ∀ s, k'.owners s = k.owners s

theorem Kept.trans {on' on'' : Prop} {g' g'' : Stage} {k'' : Conn S} (h : Kept on' g' k k')
    (h' : Kept on'' g'' k' k'') : Kept on'' g'' k k'' :=
  ⟨h'.ok, fun s => (h'.owners s).trans (h.owners s)⟩

/-- The sessions that wait, by the stage. -/
theorem ConnOk.owners (h : ConnOk on g k) (s : S) :
    k.owners s = total (Item.due k.session s) k.items +
      if k.session = some s then
        (if g = .waiting ∨ k.holder.installs.isSome = true then 1 else 0) +
          if k.phase = .done then 1 else 0
      else 0 := by
  rw [Conn.owners, h.stage.awaited]

/-- One thing gives way to another with the same role, for the same session. -/
theorem ConnOk.swapped (h : ConnOk on g k) {a b : Item S}
    (hx : Exchanged k.items k'.items [a] [b]) (role : b.role = a.role)
    (due : ∀ s, b.due k.session s = a.due k.session s)
    (state : k'.state = k.state) (holder : k'.holder = k.holder) (launched : k'.launched = k.launched)
    (session : k'.session = k.session) (ref : k'.ref = k.ref) (released : k'.released = k.released)
    (done : k'.phase = .done ↔ k.phase = .done) (phase : k'.phase ≠ .out → k.phase ≠ .out)
    (msg : k'.msg = true → k.msg = true)
    (polled : k'.phase ≠ .out ∨ k'.msg = true → ∀ op, b.polled op = a.polled op)
    (begun : ∀ t ∈ k'.tasks, t ∈ k.tasks ∨ t.begun = none) : Kept on g k k' := by
  have ok : ConnOk on g k' := h.moved (fun r _ => count_exchanged hx role r) state holder launched
    session ref released done phase msg (fun hp op => hx.same (polled hp op)) begun
  refine ⟨ok, fun s => ?_⟩
  rw [h.owners, ok.owners, session, holder, hx.same (due s)]
  simp only [done]

/-! ## The poller thread -/

section Poller

theorem ConnOk.mpollerDel (h : ConnOk on g k) : Kept on g k (mpollerDel k) := by
  cases hreg : k.reg with
  | none =>
    rw [mpollerDel_none hreg]
    exact ⟨h, fun _ => rfl⟩
  | some op =>
    refine h.swapped (exchanged_mpollerDel hreg) rfl (fun _ => rfl) rfl rfl rfl rfl rfl rfl Iff.rfl
      id id (fun _ op' => ?_) fun t ht => .inl ht
    simp [Item.polled, PrState.terminal]

/-- The poller thread goes on in `__poller_handle_read`. -/
theorem ConnOk.rephased (h : ConnOk on g k) {p : Phase} {m : Bool}
    (done : k.phase ≠ .done) (done' : p ≠ .done) (phase : p ≠ .out → k.phase ≠ .out)
    (msg : m = true → k.msg = true) : Kept on g k { k with phase := p, msg := m } where
  ok := h.moved (fun _ _ => rfl) rfl rfl rfl rfl rfl rfl
    ⟨fun e => absurd e done', fun e => absurd e done⟩ phase msg (fun _ _ => rfl)
    fun _ ht => .inl ht
  owners s := by simp [Conn.owners, Conn.items, Conn.awaits, Conn.count, done, done']

theorem ConnOk.endRead (h : ConnOk on g k) (hdone : k.phase ≠ .done) {res : PrState × Errno}
    (hres : res.1.terminal = true) : Kept on g k (endRead res k) := by
  simp only [Client.endRead]
  split
  · next hreg =>
    refine h.swapped (exchanged_end hreg (.result .read res.1 res.2)) (if_pos hres)
      (fun s => due_result hres) rfl rfl rfl rfl rfl rfl
      ⟨fun e => absurd e (by simp [Conn.put]), fun e => absurd e hdone⟩
      (fun hne => absurd rfl hne) (fun hm => Bool.noConfusion hm) ?_ fun t ht => ?_
    · rintro (hne | hm)
      · exact absurd rfl hne
      · cases hm
    · rcases List.mem_append.mp ht with ht | ht
      · exact .inl ht
      · obtain rfl : t = _ := List.mem_singleton.mp ht
        exact .inr rfl
  · exact h.rephased hdone (by simp) (fun hne => absurd rfl hne) (fun hm => Bool.noConfusion hm)

theorem ConnOk.pollEnds (h : ConnOk on g k) {op : Op} (hreg : k.reg = some op)
    (hphase : k.phase = .out) {res : PrState × Errno} (hres : res.1.terminal = true) :
    Kept on g k ({ k with reg := none, msg := false }.put (.result op res.1 res.2)) := by
  refine h.swapped (exchanged_end hreg (.result op res.1 res.2)) (if_pos hres)
    (fun s => due_result hres) rfl rfl rfl rfl rfl rfl Iff.rfl id (fun hm => Bool.noConfusion hm) ?_
    fun t ht => ?_
  · rintro (hne | hm)
    · exact absurd hphase hne
    · cases hm
  · rcases List.mem_append.mp ht with ht | ht
    · exact .inl ht
    · obtain rfl : t = _ := List.mem_singleton.mp ht
      exact .inr rfl

theorem ConnOk.handlePipe (h : ConnOk on g k) {op : Op} {state : PrState}
    {rest : List (Op × PrState)} (hpipe : k.pipe = (op, state) :: rest) (hphase : k.phase = .out) :
    Kept on g k ({ k with
      pipe := rest
      msg := if state = PrState.modified then k.msg else false }.put (.result op state 0)) := by
  have hends := h.ends (hpipe ▸ List.mem_cons_self : (op, state) ∈ k.pipe)
  refine h.swapped (exchanged_pipe hpipe (.result op state 0)) ?_ (fun s => ?_) rfl rfl rfl rfl rfl
    rfl Iff.rfl id ?_ ?_ fun t ht => ?_
  · cases state <;> simp_all [Item.role, Task.role, PrState.terminal]
  · cases state <;> simp_all [Item.due, Item.role, Task.role, PrState.terminal]
  · simp only [Conn.put]
    split <;> simp
  · rintro (hne | hm)
    · exact absurd hphase hne
    · obtain rfl : state = .modified := by
        by_contra hne
        simp [Conn.put, hne] at hm
      simp [Item.polled, PrState.terminal]
  · rcases List.mem_append.mp ht with ht | ht
    · exact .inl ht
    · obtain rfl : t = _ := List.mem_singleton.mp ht
      exact .inr rfl

theorem ConnOk.pollRead (h : ConnOk on g k) (hreg : k.reg = some .read) (hphase : k.phase = .out) :
    Kept on g k { k with phase := .loop } := by
  have hitem : Item.registered .read ∈ k.items := by simp [Conn.items, hreg]
  have hpolled : 0 < k.polled .read := le_total (w := Item.polled .read) hitem
  have hle := k.polled_le .read
  have hread := h.stage.count .read
  have hone : k.polled .read = 1 := by
    cases g <;> simp [Stage.count, Stage.operation] at hread <;> omega
  have hsuccess := h.stage.successes
  simp only [Conn.successes, hphase] at hsuccess
  refine ⟨{ h with
    stage := { h.stage with successes := hsuccess }
    connect := fun hg => ?_
    phase := fun _ => .inl hone
    msg := fun hm => ⟨hone, .inl ?_⟩ }, fun s => by
      simp [Conn.owners, Conn.items, Conn.count, Conn.awaits, hphase]⟩
  · simp [hg, Stage.count, Stage.operation] at hread
    omega
  · exact (h.msg hm).2.resolve_right (by simp [hphase])

/-- `create_reply` has a message for the session that waits. -/
theorem ConnOk.createReply (h : ConnOk on g k) (hphase : k.phase = .create)
    (hstate : k.state = .receiving) : Kept on g k { k with phase := .loop, msg := true } := by
  have hone : k.polled .read = 1 :=
    (h.phase (by simp [hphase])).resolve_right fun hwrite => by simp [hstate] at hwrite
  have hsuccess := h.stage.successes
  simp only [Conn.successes, hphase] at hsuccess
  refine ⟨{ h with
    stage := { h.stage with successes := hsuccess }
    connect := fun hg => ?_
    phase := fun _ => .inl hone
    msg := fun _ => ⟨hone, .inl hstate⟩ }, fun s => by
      simp [Conn.owners, Conn.items, Conn.count, Conn.awaits, hphase]⟩
  exact absurd (h.connect hg).2.2 (by simp [hphase])

/-- The reply is complete. -/
theorem ConnOk.appendMessage (h : ConnOk on g k) (hphase : k.phase = .loop) (hmsg : k.msg = true) :
    Kept on .replied k { k with state := .success, phase := .done } := by
  obtain ⟨hpolled, hstate⟩ := h.msg hmsg
  have hle := k.polled_le .read
  have hstage := h.stage.reading (by omega)
  rw [hstate.resolve_right (by simp [hphase])] at hstage
  subst hstage
  have hsuccess := h.stage.successes
  simp only [Conn.successes, hphase, Stage.successes] at hsuccess
  have hfree := h.stage.free (by simp)
  have hnone := h.notAdding rfl rfl
  have ok : ConnOk on .replied { k with state := .success, phase := .done } := { h with
    stage := .loose h.stage.count (congrArg (· + 1) hsuccess) rfl (h.stage.off (by simp)) hfree
      (by simp) (by simp)
    connect := fun hg => by cases hg
    phase := fun _ => .inl hpolled
    msg := fun _ => ⟨hpolled, .inr rfl⟩
    adding := fun s rest ht => absurd ht (hnone s rest) }
  refine ⟨ok, fun s => ?_⟩
  rw [h.owners, ok.owners]
  simp only [Holder.installs_of_free hfree, hphase]
  simp [Conn.items]

/-- The success result goes to the queue. -/
theorem ConnOk.callback (h : ConnOk on g k) (hphase : k.phase = .done) :
    Kept on g k
      ({ k with phase := .loop, msg := false }.put (.result .read .success 0)) := by
  have hpolled : k.polled .read = 1 :=
    (h.phase (by simp [hphase])).resolve_right fun hwrite => hwrite.2.2.2 hphase
  have hsuccess := h.stage.successes
  simp only [Conn.successes, hphase] at hsuccess
  have counts : ∀ r, r ≠ .success →
      ({ k with phase := .loop, msg := false }.put (.result .read .success 0)).count r =
        k.count r := fun r hr => by
    rw [count_put, if_neg (by simpa [Task.role, PrState.terminal] using hr.symm)]
    rfl
  have hone : ({ k with phase := .loop, msg := false }.put
      (.result .read .success 0)).count .success = k.count .success + 1 := by
    rw [count_put]
    rfl
  have ok : ConnOk on g ({ k with phase := .loop, msg := false }.put
      (.result .read .success 0)) := { h with
    stage := { h.stage with
      count := fun op => (counts _ (by simp)).trans (h.stage.count op)
      successes := by rw [Conn.successes, hone]; exact hsuccess }
    connect := fun hg => absurd (h.connect hg).2.2 (by simp [hphase])
    phase := fun _ => .inl ((polled_put _ _ _).trans hpolled)
    msg := fun hm => Bool.noConfusion hm
    begun := fun t ht => (List.mem_append.mp ht).elim (h.begun t) fun hnew s hs => by
      rw [List.mem_singleton.mp hnew] at hs
      cases hs
    adding := fun s rest ht => (List.mem_append.mp ht).elim (h.adding s rest) fun hnew => by
      cases List.mem_singleton.mp hnew
    stray := (counts _ (by simp)).trans h.stray
    held := by rw [counts _ (by simp)]; exact h.held
    ref := by rw [Conn.tails, counts _ (by simp), counts _ (by simp)]; exact h.ref }
  refine ⟨ok, fun s => ?_⟩
  rw [h.owners, ok.owners, due_put]
  by_cases hs : k.session = some s <;>
    simp [Item.due, Item.role, Task.role, Role.due, PrState.terminal, Conn.put, Conn.items, hphase,
      hs]
  omega

end Poller

end WorkflowKernel.Communicator.Client
