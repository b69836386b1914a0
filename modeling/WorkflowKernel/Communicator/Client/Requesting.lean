import WorkflowKernel.Communicator.Client.Polling

/-!
# A request and its connection

What `request_idle_conn` and `request_new_conn` do to an entry. An entry that is taken from the idle
list has a read operation and no session that waits, so that it can be given one; whatever becomes of
sending, the read or the write operation then ends with the `handle()` of that session.
-/

namespace WorkflowKernel.Communicator.Client

open WorkflowKernel.Lib.Exchange

variable {S : Type} [DecidableEq S] {on : Prop} {g : Stage} {k k' : Conn S}

/-! ## `request_idle_conn` -/

section Idle

theorem ConnOk.taken (h : ConnOk on g k) (hon : on) (hholder : k.holder = .none) (s : S) :
    Kept False .requested k { k with holder := .taken s } := by
  obtain rfl : g = .idle := h.stage.on.mp hon
  have ok : ConnOk False .requested { k with holder := .taken s } := { h with
    stage := {
      count := h.stage.count
      successes := h.stage.successes
      state := by rw [h.stage.idle (.inl rfl)]; rfl
      on := by simp
      busy := by simp [Holder.busy] }
    connect := fun hg => by cases hg
    installs := fun s hs => by cases hs
    held := fun _ => by simp [Stage.count, Stage.operation] }
  refine ⟨ok, fun x => ?_⟩
  rw [h.owners, ok.owners]
  simp [hholder, Holder.installs, Conn.items]

/-- The entry gets its new session. -/
theorem ConnOk.given (h : ConnOk on .requested k) {s₀ : S} (hholder : k.holder = .taken s₀) (s : S) :
    ConnOk on .requested { k with session := some s, holder := .sending s } ∧
      ∀ x, ({ k with session := some s, holder := .sending s } : Conn S).owners x =
        k.owners x + if s = x then 1 else 0 := by
  obtain ⟨hsuccess, hdone⟩ := h.stage.notDone rfl
  have ok : ConnOk on .requested { k with session := some s, holder := .sending s } := { h with
    stage := { h.stage with busy := by simp [Holder.busy] }
    connect := fun hg => by cases hg
    session := rfl
    begun := fun t ht x hx => by rw [h.notBegun rfl rfl ht] at hx; cases hx
    installs := fun x hx => hx
    held := fun _ => by simp [Stage.count, Stage.operation] }
  refine ⟨ok, fun x => ?_⟩
  rw [h.owners, ok.owners, due_session (h.stage.count .write) (h.stage.count .connect) hsuccess
    k.session (some s)]
  simp [hholder, Holder.installs, Conn.items, hdone]

/-- The registration of the entry has ended. -/
theorem ConnOk.refused (h : ConnOk on .requested k) {s : S} (hholder : k.holder = .taken s) :
    Kept on .closing k { k with state := .closing, holder := .none } := by
  obtain ⟨hsuccess, hdone⟩ := h.stage.notDone rfl
  have hstate := h.stage.idle (.inr rfl)
  obtain ⟨hphase, hmsg⟩ := h.unread rfl (by simp [hstate]) hdone
  have ok : ConnOk on .closing { k with state := .closing, holder := .none } := { h with
    stage := .loose h.stage.count h.stage.successes rfl (h.stage.off (by simp)) rfl (by simp)
      (by simp)
    connect := fun hg => by cases hg
    phase := fun hne => .inl (hphase hne)
    msg := fun hm => by rw [hmsg] at hm; cases hm
    adding := fun s rest ht => absurd ht (h.notAdding rfl rfl s rest)
    installs := fun s hs => by cases hs
    held := fun hne => absurd rfl hne }
  refine ⟨ok, fun x => ?_⟩
  rw [h.owners, ok.owners]
  simp [hholder, Holder.installs, Conn.items]

/-- The entry awaits the reply, or its end if it could not send. -/
theorem ConnOk.sent (h : ConnOk on .requested k) {s : S} (hinstalls : k.holder.installs = some s)
    {state : ConnState} (hstate : state = .receiving ∨ state = .error) :
    Kept on .waiting k { k with state := state, holder := .leaving s } := by
  obtain ⟨hsuccess, hdone⟩ := h.stage.notDone rfl
  obtain ⟨hphase, hmsg⟩ := h.unread rfl (by simp [h.stage.idle (.inr rfl)]) hdone
  have ok : ConnOk on .waiting { k with state := state, holder := .leaving s } := { h with
    stage := .loose h.stage.count h.stage.successes (by rcases hstate with rfl | rfl <;> rfl)
      (h.stage.off (by simp)) rfl (by simp) (by simp)
    connect := fun hg => by cases hg
    phase := fun hne => .inl (hphase hne)
    msg := fun hm => by rw [hmsg] at hm; cases hm
    adding := fun s rest ht => absurd ht (h.notAdding rfl rfl s rest)
    installs := fun s hs => by cases hs
    held := fun _ => by simp [Stage.count, Stage.operation] }
  refine ⟨ok, fun x => ?_⟩
  rw [h.owners, ok.owners]
  simp [hinstalls, Conn.items]

/-- The message could not be sent. -/
theorem ConnOk.fails (h : ConnOk on .requested k) {s : S} (hinstalls : k.holder.installs = some s)
    (error : Errno) :
    Kept on .requested k (Client.mpollerDel { k with error := error, holder := .failing s }) := by
  have ok : ConnOk on .requested { k with error := error, holder := .failing s } := { h with
    stage := { h.stage with busy := by simp [Holder.busy] }
    connect := fun hg => by cases hg
    installs := fun x hx => by
      obtain rfl : s = x := Option.some.inj hx
      exact h.installs s hinstalls
    held := fun _ => by simp [Stage.count, Stage.operation] }
  have hk : Kept on .requested k { k with error := error, holder := .failing s } :=
    ⟨ok, fun x => by
      rw [h.owners, ok.owners, hinstalls]
      rfl⟩
  exact hk.trans ok.mpollerDel

/-- The read operation gives way to a write operation. -/
theorem ConnOk.replaced (h : ConnOk on .requested k) {s : S} (hinstalls : k.holder.installs = some s)
    {op : Op} (hreg : k.reg = some op) :
    Kept on .writing k
      { k with reg := some .write, pipe := k.pipe ++ [(op, .modified)], holder := .leaving s } := by
  obtain ⟨hsuccess, hdone⟩ := h.stage.notDone rfl
  have hstate := h.stage.idle (.inr rfl)
  obtain ⟨hphase, hmsg⟩ := h.unread rfl (by simp [hstate]) hdone
  have hitem : Item.registered op ∈ k.items := by simp [Conn.items, hreg]
  obtain rfl : op = .read := by
    have hpos : 0 < k.count (.operation op) := count_pos hitem
    rw [h.stage.count] at hpos
    cases op <;> simp_all [Stage.count, Stage.operation]
  have hx := exchanged_mpollerMod hreg
  let k' : Conn S :=
    { k with reg := some .write, pipe := k.pipe ++ [(.read, .modified)], holder := .leaving s }
  have counts : ∀ op, k'.count (.operation op) = Stage.writing.count op := fun op => by
    have htotal : k'.count (.operation op) + _ = k.count (.operation op) + _ := hx _
    rw [h.stage.count] at htotal
    cases op <;>
      simpa [Item.is, Item.role, PrState.terminal, Stage.count, Stage.operation] using htotal
  have others : ∀ r, (∀ op, r ≠ .operation op) → r ≠ .nothing → k'.count r = k.count r :=
    fun r hop hr => by
      have htotal : k'.count r + _ = k.count r + _ := hx _
      simpa [Item.is, Item.role, PrState.terminal, (hop _).symm, hr.symm] using htotal
  have hpolled : k'.polled .write = 1 := by
    have htotal : k'.polled .write + _ = k.polled .write + _ := hx _
    have hle := k.polled_le .write
    rw [h.stage.count] at hle
    simp [Item.polled, PrState.terminal, Stage.count, Stage.operation] at htotal hle
    omega
  have sync := others .sync (by simp) (by simp)
  have decref := others .decref (by simp) (by simp)
  have ok : ConnOk on .writing k' := { h with
    stage := .loose counts
      (by rw [Conn.successes, others .success (by simp) (by simp)]; exact h.stage.successes)
      (by simp [k', hstate, Stage.allows]) (h.stage.off (by simp)) rfl (by simp) (by simp)
    connect := fun hg => by cases hg
    phase := fun _ => .inr ⟨hpolled, hstate, hmsg, hdone⟩
    msg := fun hm => by rw [show k'.msg = k.msg from rfl, hmsg] at hm; cases hm
    stray := (others .stray (by simp) (by simp)).trans h.stray
    installs := fun x hx => by cases hx
    held := fun _ => by simp [Stage.count, Stage.operation]
    ref := by rw [Conn.tails, sync, decref]; exact h.ref }
  refine ⟨ok, fun x => ?_⟩
  have htotal : total (Item.due k.session x) k'.items + _ = total (Item.due k.session x) k.items + _ :=
    hx _
  rw [h.owners, ok.owners, hinstalls, show k'.holder.installs = .none from rfl,
    show k'.session = k.session from rfl, show k'.phase = k.phase from rfl]
  by_cases hs : k.session = some x <;>
    simp [Item.due, Item.role, Role.due, PrState.terminal, hs, hdone] at htotal ⊢ <;> omega

/-- `request_idle_conn` leaves. -/
theorem ConnOk.left (h : ConnOk on g k) {s : S} (hholder : k.holder = .leaving s) :
    Kept on g k { k with holder := .none } := by
  have hbusy := h.stage.busy
  rw [hholder] at hbusy
  have ok : ConnOk on g { k with holder := .none } := { h with
    stage := { h.stage with busy := hbusy }
    connect := fun hg => ⟨(h.connect hg).1, rfl, (h.connect hg).2.2⟩
    installs := fun s hs => by cases hs
    held := fun hne => absurd rfl hne }
  refine ⟨ok, fun x => ?_⟩
  rw [h.owners, ok.owners]
  simp [hholder, Holder.installs, Conn.items]

end Idle

/-! ## `request_new_conn` -/

section New

theorem ConnOk.launch (s : S) :
    let k := { Conn.absent S with launched := true, ref := 1, session := some s }
    ConnOk False .connecting (k.put (.addConnect s)) ∧
      ∀ x, (k.put (.addConnect s)).owners x = if s = x then 1 else 0 := by
  intro k
  have hitems : (k.put (.addConnect s)).items = [.task (.addConnect s)] := rfl
  have ok : ConnOk False .connecting (k.put (.addConnect s)) := {
    launched := rfl
    stage := .loose (fun op => by cases op <;> rfl) rfl rfl id rfl (by simp) (by simp)
    connect := fun _ => ⟨rfl, rfl, rfl⟩
    phase := fun hne => absurd rfl hne
    msg := fun hm => Bool.noConfusion hm
    stray := rfl
    session := rfl
    begun := fun t ht x hx => by
      rw [List.mem_singleton.mp ht] at hx
      exact hx
    adding := fun x rest ht => by cases List.mem_singleton.mp ht
    installs := fun x hx => by cases hx
    held := fun hne => absurd rfl hne
    ref := .inl ⟨rfl, rfl, Nat.one_pos⟩ }
  refine ⟨ok, fun x => ?_⟩
  rw [ok.owners, hitems]
  simp [Item.due, k, Conn.absent, Conn.put, Holder.installs]

/-- The new entry is registered. -/
theorem ConnOk.connects (h : ConnOk on g k) {s : S} (ht : .addConnect s ∈ k.tasks)
    (hreg : k.reg = none) : Kept on g k { k.take (.addConnect s) with reg := some .connect } := by
  have hx : Exchanged k.items { k.take (.addConnect s) with reg := some .connect }.items
      [.task (.addConnect s)] [.registered .connect] :=
    (exchanged_take ht).trans (exchanged_register (k := k.take (.addConnect s)) hreg .connect)
  have hsession := h.begun _ ht s rfl
  refine h.swapped hx rfl (fun x => ?_) rfl rfl rfl rfl rfl rfl Iff.rfl id id (fun hp => ?_)
    fun t ht => .inl (List.mem_of_mem_erase ht)
  · simp [Item.due, Item.role, Role.due, hsession]
  · obtain ⟨-, -, hphase, hmsg⟩ := h.quiet (Stage.connecting_of (h.has ht rfl))
    rcases hp with hp | hp
    · exact absurd hphase hp
    · exact Bool.noConfusion (hmsg.symm.trans hp)

/-- The entry is released by its only thread. -/
theorem ConnOk.release (h : ConnOk on g k) {t : Task S} (ht : t ∈ k.tasks)
    (hrole : t.role = .operation .connect) :
    ConnOk on .over (releaseConn (k.take t)) ∧
      ∀ s, (releaseConn (k.take t)).owners s + Item.due k.session s (.task t) = k.owners s := by
  obtain rfl := Stage.connecting_of (h.has ht hrole)
  obtain ⟨htails, hholder, hphase, hmsg⟩ := h.quiet rfl
  let k' := releaseConn (k.take t)
  have counts : ∀ r, k'.count r + (if t.role = r then 1 else 0) = k.count r := count_take ht
  have others : ∀ r, r ≠ .operation .connect → k'.count r = k.count r := fun r hr => by
    simpa [hrole, hr.symm] using counts r
  have tails : k'.tails = 0 := by
    rw [Conn.tails, others .sync (by simp), others .decref (by simp)]
    exact htails
  have released : k.released = 0 := by
    rcases h.ref with ⟨hzero, -, -⟩ | ⟨-, hrefs⟩
    · exact hzero
    · simp [Stage.refs] at hrefs
  have ok : ConnOk on .over k' := { h with
    stage := .loose (fun op => by
        have hcount := counts (.operation op)
        rw [hrole, h.stage.count] at hcount
        cases op <;> simpa [Stage.count, Stage.operation] using hcount)
      (by rw [Conn.successes, others .success (by simp)]; exact h.stage.successes)
      (by simp [Stage.allows]) (h.stage.off (by simp)) (h.stage.free (by simp)) (by simp) (by simp)
    connect := fun hg => by cases hg
    phase := fun hne => absurd hphase hne
    msg := fun hm => Bool.noConfusion (hmsg.symm.trans hm)
    stray := (others .stray (by simp)).trans h.stray
    begun := fun t ht => h.begun t (List.mem_of_mem_erase ht)
    adding := fun s rest ht => h.adding s rest (List.mem_of_mem_erase ht)
    held := fun hne => absurd hholder hne
    ref := .inr ⟨congrArg (· + 1) released, by rw [tails]; rfl⟩ }
  refine ⟨ok, fun s => ?_⟩
  have htotal : total (Item.due k.session s) k'.items + _ = _ := due_take ht k.session s
  have installs : k.holder.installs = .none := by rw [hholder]; rfl
  rw [h.owners, ok.owners, show k'.session = k.session from rfl,
    show k'.holder.installs = k.holder.installs from rfl, show k'.phase = k.phase from rfl]
  simp only [installs, hphase]
  simp
  omega

end New

end WorkflowKernel.Communicator.Client
