import WorkflowKernel.Communicator.Client.Requesting

/-!
# Results and their handlers

What the handler threads do to an entry. A terminal result ends its operation: the reference goes to
the end of the handler's work (`ConnOk.over`), or to the success result that it has overtaken
(`ConnOk.overtaken`).
-/

namespace WorkflowKernel.Communicator.Client

open WorkflowKernel.Lib.Exchange

variable {S : Type} [DecidableEq S] {on : Prop} {g : Stage} {k k' : Conn S} {t t' : Task S}

/-! ## Tasks that go and come -/

section Tasks

theorem count_swap (ht : t ∈ k.tasks) (t' : Task S) (r : Role) :
    ((k.take t).put t').count r + (if t.role = r then 1 else 0) =
      k.count r + if t'.role = r then 1 else 0 := by
  have htake := count_take ht r
  have hput := count_put t' (k.take t) r
  omega

theorem due_swap (ht : t ∈ k.tasks) (t' : Task S) (session : Option S) (s : S) :
    total (Item.due session s) ((k.take t).put t').items + Item.due session s (.task t) =
      total (Item.due session s) k.items + Item.due session s (.task t') := by
  have htake := due_take ht session s
  have hput := due_put t' (k.take t) session s
  omega

omit [DecidableEq S] in
theorem mem_put {u : Task S} : u ∈ (k.put t').tasks ↔ u ∈ k.tasks ∨ u = t' := by
  simp [Conn.put]

theorem mem_swap {u : Task S} (hu : u ∈ ((k.take t).put t').tasks) : u ∈ k.tasks ∨ u = t' :=
  (mem_put.mp hu).imp_left List.mem_of_mem_erase

/-- A step that leaves the other things that matter to the sessions alone. -/
theorem ConnOk.compare {on' : Prop} {g' : Stage} (h : ConnOk on g k) (ok : ConnOk on' g' k')
    (session : k'.session = k.session) (holder : k'.holder = k.holder) (phase : k'.phase = k.phase)
    (waiting : g' = .waiting ↔ g = .waiting) {s : S} {a b : Nat}
    (htotal : total (Item.due k.session s) k'.items + a =
      total (Item.due k.session s) k.items + b) : k'.owners s + a = k.owners s + b := by
  rw [h.owners, ok.owners, session, holder, phase]
  simp only [waiting]
  omega

/-- A result that stands for nothing goes. -/
theorem ConnOk.dropped (h : ConnOk on g k) (ht : t ∈ k.tasks) (hrole : t.role = .nothing)
    (hdue : ∀ s, Item.due k.session s (.task t) = 0) : Kept on g k (k.take t) := by
  have ok : ConnOk on g (k.take t) := h.moved (fun r hr => by
      have hcount := count_take ht r
      rw [hrole, if_neg hr.symm] at hcount
      exact hcount) rfl rfl rfl rfl rfl rfl Iff.rfl id id (fun _ op => polled_take ht op)
    fun u hu => .inl (List.mem_of_mem_erase hu)
  refine ⟨ok, fun s => ?_⟩
  have howners := h.compare ok rfl rfl rfl Iff.rfl (b := 0) (due_take ht k.session s)
  rw [hdue s] at howners
  exact howners

/-- A task gives way to another with the same role, for the same session. -/
theorem ConnOk.passed (h : ConnOk on g k) (ht : t ∈ k.tasks) (hrole : t'.role = t.role)
    (hdue : ∀ s, Item.due k.session s (.task t') = Item.due k.session s (.task t))
    (hbegun : t'.begun = none) : Kept on g k ((k.take t).put t') :=
  h.swapped (exchanged_swap ht t') hrole hdue rfl rfl rfl rfl rfl rfl Iff.rfl id id
    (fun _ _ => rfl) fun _ hu => (mem_swap hu).imp_right fun e =>
      (congrArg Task.begun e).trans hbegun

/-- `session->handle` is called. -/
theorem ConnOk.handle (h : ConnOk on g k) {s : S} {state : CsState} {error : Errno} {rest : Rest}
    (ht : .handle s state error rest ∈ k.tasks) :
    ConnOk on g ((k.take (.handle s state error rest)).put (.finish rest)) ∧
      ∀ x, ((k.take (.handle s state error rest)).put (.finish rest)).owners x +
        (if s = x then 1 else 0) = k.owners x := by
  have ok : ConnOk on g ((k.take (.handle s state error rest)).put (.finish rest)) :=
    h.moved (fun r _ => count_exchanged (exchanged_swap ht (.finish rest)) rfl r) rfl rfl rfl rfl rfl
      rfl Iff.rfl id id (fun _ _ => (exchanged_swap ht (.finish rest)).same rfl)
      fun u hu => (mem_swap hu).imp_right fun e => by rw [e]; rfl
  refine ⟨ok, fun x => ?_⟩
  exact h.compare ok rfl rfl rfl Iff.rfl (due_swap ht (.finish rest) k.session x)

/-- Nobody polls an operation whose end is in a handler's hands. -/
theorem ConnOk.ended (h : ConnOk on g k) (ht : t ∈ k.tasks) {op : Op}
    (hrole : t.role = .operation op) : k.phase = .out ∧ k.msg = false := by
  have hpolled : ∀ op', k.polled op' = 0 := fun op' => by
    have hle := (k.take t).polled_le op'
    have hcount := count_take ht (.operation op')
    rw [polled_take ht] at hle
    rw [hrole, h.stage.count, Stage.count, h.has ht hrole] at hcount
    by_cases hop : op = op' <;> simp [hop] at hcount <;> omega
  refine ⟨?_, ?_⟩
  · by_contra hne
    rcases h.phase hne with hp | ⟨hp, -⟩ <;> rw [hpolled] at hp <;> cases hp
  · by_contra hm
    have hp := (h.msg (by simpa using hm)).1
    rw [hpolled] at hp
    cases hp

end Tasks

/-! ## The end of an operation -/

section Ends

/-- Taking a task with an operation leaves the other roles as they are. -/
theorem count_ended (ht : t ∈ k.tasks) {op : Op} (hrole : t.role = .operation op)
    {r : Role} (hr : r ≠ .operation op) : (k.take t).count r = k.count r := by
  have hcount := count_take ht r
  rwa [hrole, if_neg hr.symm] at hcount

theorem ConnOk.noOperation (h : ConnOk on g k) (ht : t ∈ k.tasks) {op : Op}
    (hrole : t.role = .operation op) (op' : Op) : (k.take t).count (.operation op') = 0 := by
  have hcount := count_take ht (.operation op')
  rw [hrole, h.stage.count, Stage.count, h.has ht hrole] at hcount
  by_cases hop : op = op' <;> simp [hop] at hcount <;> omega

/-- The operation ends, and its reference is left to the end of the handler's work. -/
theorem ConnOk.over (h : ConnOk on g k) (ht : t ∈ k.tasks) {op : Op}
    (hrole : t.role = .operation op) (hconnect : g ≠ .connecting) (hsuccess : g.successes = 0)
    (hfree : g ≠ .requested) (hrole' : t'.role = .sync ∨ t'.role = .decref ∧ k.holder = .none)
    (hbegun : t'.begun = none)
    (hdue : ∀ s, Item.due k.session s (.task t') = Item.due k.session s (.task t) +
      if k.session = some s ∧ g = .waiting then 1 else 0) :
    Kept False .over k ((k.take t).put t') := by
  obtain ⟨hphase, hmsg⟩ := h.ended ht hrole
  obtain ⟨hnone, hdone⟩ := h.stage.notDone hsuccess
  have free := h.stage.free hfree
  have operations : ∀ op', ((k.take t).put t').count (.operation op') = 0 := fun op' => by
    rw [count_put, h.noOperation ht hrole, if_neg]
    rcases hrole' with hr | ⟨hr, -⟩ <;> simp [hr]
  have success : ((k.take t).put t').count .success = 0 := by
    rw [count_put, count_ended ht hrole (by simp), hnone, if_neg]
    rcases hrole' with hr | ⟨hr, -⟩ <;> simp [hr]
  have tails : ((k.take t).put t').tails = k.tails + 1 := by
    simp only [Conn.tails, count_put]
    rw [count_ended ht hrole (by simp), count_ended ht hrole (by simp)]
    rcases hrole' with hr | ⟨hr, -⟩ <;> simp [hr] <;> omega
  have refs : g.refs = 1 := by
    have hop := h.has ht hrole
    cases g <;> simp_all [Stage.refs, Stage.operation]
  have ok : ConnOk False .over ((k.take t).put t') := { h with
    stage := .loose (fun op' => operations op') (by
        rw [Conn.successes, success, if_neg]
        · rfl
        · exact hdone)
      (by simp [Stage.allows]) id free (by simp) (by simp)
    connect := fun hg => by cases hg
    phase := fun hne => absurd hphase hne
    msg := fun hm => Bool.noConfusion (hmsg.symm.trans hm)
    stray := by
      rw [count_put, count_ended ht hrole (by simp), h.stray, if_neg]
      rcases hrole' with hr | ⟨hr, -⟩ <;> simp [hr]
    begun := fun u hu s hs => (mem_swap hu).elim (fun hu => h.begun u hu s hs) fun e => by
      rw [e, hbegun] at hs
      cases hs
    adding := fun s rest hu => (mem_swap hu).elim (h.adding s rest) fun e => by
      rw [← e] at hbegun
      cases hbegun
    held := fun hne => by
      rcases hrole' with hr | ⟨-, hholder⟩
      · rw [count_put, if_pos hr]
        omega
      · exact absurd hholder hne
    ref := by
      rw [tails]
      rcases h.ref with ⟨hzero, href, hpos⟩ | ⟨-, hrefs⟩
      · refine .inl ⟨hzero, ?_, by simp [Stage.refs]⟩
        rw [show ((k.take t).put t').ref = k.ref from rfl, href, refs]
        simp [Stage.refs]
        omega
      · omega }
  refine ⟨ok, fun s => ?_⟩
  have htotal := due_swap ht t' k.session s
  have installs := Holder.installs_of_free free
  rw [h.owners, ok.owners, show ((k.take t).put t').session = k.session from rfl,
    show ((k.take t).put t').holder = k.holder from rfl,
    show ((k.take t).put t').phase = k.phase from rfl, installs]
  rw [hdue s] at htotal
  by_cases hs : k.session = some s <;> by_cases hg : g = .waiting <;>
    simp [hs, hg, hdone] at htotal ⊢ <;> omega

/-- The terminal result is handled before the success result. -/
theorem ConnOk.overtaken (h : ConnOk on .replied k) (ht : t ∈ k.tasks)
    (hrole : t.role = .operation .read) (hdue : ∀ s, Item.due k.session s (.task t) = 0)
    (hholder : k.holder = .none) : Kept on .overtaken k { k.take t with state := .closing } := by
  obtain ⟨hphase, hmsg⟩ := h.ended ht hrole
  have free := h.stage.free (by simp)
  have others : ∀ {r : Role}, r ≠ .operation .read → ({ k.take t with state := .closing } :
      Conn S).count r = k.count r := count_ended ht hrole
  have ok : ConnOk on .overtaken { k.take t with state := .closing } := { h with
    stage := .loose (h.noOperation ht hrole) (by
        rw [Conn.successes, others (by simp)]
        exact h.stage.successes)
      rfl (h.stage.off (by simp)) free (by simp) (by simp)
    connect := fun hg => by cases hg
    phase := fun hne => absurd hphase hne
    msg := fun hm => Bool.noConfusion (hmsg.symm.trans hm)
    stray := (others (by simp)).trans h.stray
    begun := fun u hu => h.begun u (List.mem_of_mem_erase hu)
    adding := fun s rest hu => absurd (List.mem_of_mem_erase hu) (h.notAdding rfl rfl s rest)
    held := fun hne => absurd hholder hne
    ref := by
      rw [Conn.tails, others (by simp), others (by simp)]
      exact h.ref }
  refine ⟨ok, fun s => ?_⟩
  have howners := h.compare ok rfl rfl rfl (by simp) (b := 0) (due_take ht k.session s)
  rw [hdue s] at howners
  exact howners

end Ends

/-! ## The success result -/

section Success

/-- The result is the only one of its reply, and the poller thread has delivered it. -/
theorem ConnOk.delivered (h : ConnOk on g k) (hsuccess : g.successes = 1) (ht : t ∈ k.tasks)
    (hrole : t.role = .success) : (k.take t).count .success = 0 ∧ k.phase ≠ .done := by
  have hcount := count_take ht .success
  have hstage := h.stage.successes
  rw [Conn.successes, hsuccess] at hstage
  rw [if_pos hrole] at hcount
  refine ⟨by omega, fun hdone => ?_⟩
  rw [if_pos hdone] at hstage
  omega

/-- A success result is handled while its connection goes on: the entry gets a reference for the
handler. -/
theorem ConnOk.succeeded (h : ConnOk on .replied k) {s : S} {error : Errno}
    (ht : .replied s error ∈ k.tasks) {g' : Stage} {state : ConnState}
    (hg' : g' = .idle ∧ state = .idle ∨ g' = .closing ∧ state = .closing) :
    Kept (g' = .idle) g' k
      ({ k.take (.replied s error) with ref := k.ref + 1, state := state }.put
        (.handle s .success error .decref)) := by
  obtain ⟨hnone, hdone⟩ := h.delivered rfl ht rfl
  obtain ⟨-, hstate⟩ : _ ∧ k.state = .success :=
    (h.stage.success (by rw [h.stage.successes]; decide)).resolve_right (by simp)
  obtain ⟨hphase, hmsg⟩ := h.unread rfl (by simp [hstate]) hdone
  have free := h.stage.free (by simp)
  let k' : Conn S := { k.take (.replied s error) with ref := k.ref + 1, state := state }.put
    (.handle s .success error .decref)
  have counts : ∀ r, k'.count r + (if Role.success = r then 1 else 0) =
      k.count r + if Role.decref = r then 1 else 0 := count_swap ht (.handle s .success error .decref)
  have operations : ∀ op, k'.count (.operation op) = Stage.replied.count op := fun op => by
    have hcount := counts (.operation op)
    rw [h.stage.count] at hcount
    simpa using hcount
  have success : k'.count .success = 0 := by
    have hcount := counts .success
    have hbefore := h.stage.successes
    rw [Conn.successes, if_neg hdone] at hbefore
    simp [Stage.successes] at hcount hbefore
    omega
  have sync : k'.count .sync = k.count .sync := by simpa using counts .sync
  have tails : k'.tails = k.tails + 1 := by
    have hdecref : k'.count .decref = k.count .decref + 1 := by simpa using counts .decref
    rw [Conn.tails, sync, hdecref, Conn.tails]
    omega
  have polled : k'.polled .read = k.polled .read :=
    (polled_put _ _ _).trans (polled_take ht .read)
  have ok : ConnOk (g' = .idle) g' k' := { h with
    stage := {
      count := fun op => by
        rw [operations]
        rcases hg' with ⟨rfl, -⟩ | ⟨rfl, -⟩ <;> rfl
      successes := by
        rw [Conn.successes, success, show k'.phase = k.phase from rfl, if_neg hdone]
        rcases hg' with ⟨rfl, -⟩ | ⟨rfl, -⟩ <;> rfl
      state := by rcases hg' with ⟨rfl, rfl⟩ | ⟨rfl, rfl⟩ <;> rfl
      on := Iff.rfl
      busy := by
        rw [show k'.holder = k.holder from rfl, free]
        rcases hg' with ⟨rfl, -⟩ | ⟨rfl, -⟩ <;> simp }
    connect := fun hg => by rcases hg' with ⟨rfl, -⟩ | ⟨rfl, -⟩ <;> cases hg
    phase := fun hne => .inl (polled.trans (hphase hne))
    msg := fun hm => Bool.noConfusion (hmsg.symm.trans hm)
    stray := (by simpa using counts .stray : k'.count .stray = k.count .stray).trans h.stray
    begun := fun u hu x hx => (mem_swap hu).elim (fun hu => h.begun u hu x hx) fun e => by
      rw [e] at hx
      cases hx
    adding := fun x rest hu => (mem_swap hu).elim (fun hu => absurd hu (h.notAdding rfl rfl x rest))
      fun e => by cases e
    held := fun _ => by
      rcases hg' with ⟨rfl, -⟩ | ⟨rfl, -⟩ <;> simp [Stage.count, Stage.operation]
    ref := by
      have hrefs : g'.refs = 1 := by rcases hg' with ⟨rfl, -⟩ | ⟨rfl, -⟩ <;> rfl
      rcases h.ref with ⟨hzero, href, -⟩ | ⟨-, hzero⟩
      · refine .inl ⟨hzero, ?_, by omega⟩
        rw [show k'.ref = k.ref + 1 from rfl, href, tails, hrefs]
        simp [Stage.refs]
        omega
      · simp [Stage.refs] at hzero }
  refine ⟨ok, fun x => ?_⟩
  have howners := h.compare ok rfl rfl rfl
    (by rcases hg' with ⟨rfl, -⟩ | ⟨rfl, -⟩ <;> simp) (due_swap ht _ k.session x)
  exact Nat.add_right_cancel howners

/-- The success result has been overtaken. -/
theorem ConnOk.last (h : ConnOk on .overtaken k) {s : S} {error : Errno}
    (ht : .replied s error ∈ k.tasks) :
    Kept on .over k ((k.take (.replied s error)).put (.handle s .success error .decref)) := by
  obtain ⟨hnone, hdone⟩ := h.delivered rfl ht rfl
  obtain ⟨-, hstate⟩ : _ ∧ k.state = .closing :=
    (h.stage.success (by rw [h.stage.successes]; decide)).resolve_left (by simp)
  obtain ⟨hphase, hmsg⟩ := h.unread rfl (by simp [hstate]) hdone
  let k' : Conn S := (k.take (.replied s error)).put (.handle s .success error .decref)
  have counts : ∀ r, k'.count r + (if Role.success = r then 1 else 0) =
      k.count r + if Role.decref = r then 1 else 0 := count_swap ht (.handle s .success error .decref)
  have sync : k'.count .sync = k.count .sync := by simpa using counts .sync
  have tails : k'.tails = k.tails + 1 := by
    have hdecref : k'.count .decref = k.count .decref + 1 := by simpa using counts .decref
    rw [Conn.tails, sync, hdecref, Conn.tails]
    omega
  have ok : ConnOk on .over k' := { h with
    stage := .loose (fun op => by
        have hcount := counts (.operation op)
        rw [h.stage.count] at hcount
        exact (by simpa using hcount : k'.count (.operation op) = Stage.overtaken.count op))
      (by
        rw [Conn.successes, show k'.phase = k.phase from rfl, if_neg hdone, count_put, hnone]
        rfl)
      rfl (h.stage.off (by simp)) (h.stage.free (by simp)) (by simp) (by simp)
    connect := fun hg => by cases hg
    phase := fun hne => .inl (((polled_put _ _ _).trans (polled_take ht .read)).trans (hphase hne))
    msg := fun hm => Bool.noConfusion (hmsg.symm.trans hm)
    stray := (by simpa using counts .stray : k'.count .stray = k.count .stray).trans h.stray
    begun := fun u hu x hx => (mem_swap hu).elim (fun hu => h.begun u hu x hx) fun e => by
      rw [e] at hx
      cases hx
    adding := fun x rest hu => (mem_swap hu).elim (fun hu => absurd hu (h.notAdding rfl rfl x rest))
      fun e => by cases e
    held := by rw [sync]; exact h.held
    ref := by
      rw [tails]
      rcases h.ref with ⟨hzero, href, -⟩ | ⟨-, hzero⟩
      · refine .inl ⟨hzero, ?_, by omega⟩
        rw [show k'.ref = k.ref from rfl, href]
        simp [Stage.refs]
        omega
      · simp [Stage.refs] at hzero }
  refine ⟨ok, fun x => ?_⟩
  exact Nat.add_right_cancel (h.compare ok rfl rfl rfl (by simp) (due_swap ht _ k.session x))

end Success

/-! ## Sending and receiving -/

section Connects

omit [DecidableEq S] in
/-- `send_message_async` for a connection that is not idle registers the write operation. -/
theorem sendMessage_new {x : Conn S × Except Errno Nat} (hidle : k.state ≠ .idle)
    (hs : sendMessage k .async = some x) :
    k.reg = none ∧ x = ({ k with reg := some .write }, .ok 1) := by
  simp only [sendMessage] at hs
  rw [if_neg hidle] at hs
  split at hs
  · next hreg => exact ⟨hreg, (Option.some.inj hs).symm⟩
  · cases hs

/-- The request is sent. -/
theorem ConnOk.begin (h : ConnOk on g k) (ht : t ∈ k.tasks) {rest : Rest} (hrest : rest ≠ .decref)
    (hrole : t.role = .operation rest.op) {s : S} (hsession : k.session = some s)
    (hdue : ∀ x, Item.due k.session x (.task t) = if s = x then 1 else 0) :
    Kept on g k ({ k.take t with state := .receiving }.put (.addRead s rest)) := by
  obtain ⟨hphase, hmsg⟩ := h.ended ht hrole
  have hg : g = .connecting ∨ g = .writing := by
    have hop := h.has ht hrole
    cases rest
    · exact .inr (Stage.writing_of hop)
    · exact .inr (Stage.writing_of hop)
    · exact .inl (Stage.connecting_of hop)
  let k' : Conn S := { k.take t with state := .receiving }.put (.addRead s rest)
  have counts : ∀ r, k'.count r = k.count r := fun r =>
    count_exchanged (exchanged_swap ht (.addRead s rest)) hrole.symm r
  have ok : ConnOk on g k' := { h with
    stage := { h.stage with
      count := fun op => (counts _).trans (h.stage.count op)
      successes := by rw [Conn.successes, counts]; exact h.stage.successes
      state := by rcases hg with rfl | rfl <;> rfl }
    connect := fun hc => by
      rw [Conn.tails, counts, counts]
      exact h.connect hc
    phase := fun hne => absurd hphase hne
    msg := fun hm => Bool.noConfusion (hmsg.symm.trans hm)
    stray := (counts _).trans h.stray
    begun := fun u hu x hx => (mem_swap hu).elim (fun hu => h.begun u hu x hx) fun e => by
      rw [e] at hx
      exact hsession.trans hx
    adding := fun x rest' hu => ⟨rfl, (mem_swap hu).elim (fun hu => (h.adding x rest' hu).2)
      fun e => by cases e; exact hrest⟩
    held := by rw [counts]; exact h.held
    ref := by rw [Conn.tails, counts, counts]; exact h.ref }
  refine ⟨ok, fun x => ?_⟩
  have howners := h.compare ok rfl rfl rfl Iff.rfl (due_swap ht (.addRead s rest) k.session x)
  rw [hdue x] at howners
  exact Nat.add_right_cancel howners

/-- A read or write operation is registered by the thread of the operation before it. -/
theorem ConnOk.operates (h : ConnOk on g k) (ht : t ∈ k.tasks) {op op' : Op} {g' : Stage}
    (hrole : t.role = .operation op) (hop : op ≠ .read) (hreg : k.reg = none)
    (hg' : g' = .writing ∧ op' = .write ∨ g' = .waiting ∧ op' = .read)
    (hstate : g'.allows k.state = true) {s : S} (hsession : k.session = some s)
    (hdue : ∀ x, Item.due k.session x (.task t) = if s = x then 1 else 0) :
    Kept on g' k { k.take t with reg := some op' } := by
  obtain ⟨hphase, hmsg⟩ := h.ended ht hrole
  have hg : g = .connecting ∨ g = .writing := by
    have hhas := h.has ht hrole
    cases op with
    | connect => exact .inl (Stage.connecting_of hhas)
    | write => exact .inr (Stage.writing_of hhas)
    | read => exact absurd rfl hop
  have off := h.stage.off (by rcases hg with rfl | rfl <;> simp)
  have free := h.stage.free (by rcases hg with rfl | rfl <;> simp)
  obtain ⟨hnone, hdone⟩ := h.stage.notDone (by rcases hg with rfl | rfl <;> rfl)
  let k' : Conn S := { k.take t with reg := some op' }
  have hx : Exchanged k.items k'.items [.task t] [.registered op'] :=
    (exchanged_take ht).trans (exchanged_register (k := k.take t) hreg op')
  have counts : ∀ r, k'.count r + (if t.role = r then 1 else 0) =
      k.count r + if Role.operation op' = r then 1 else 0 := fun r => hx (Item.is r)
  have others : ∀ r, (∀ op, r ≠ .operation op) → k'.count r = k.count r := fun r hr => by
    simpa [hrole, (hr _).symm] using counts r
  have sync := others .sync (by simp)
  have tails : k'.tails = k.tails := by rw [Conn.tails, sync, others .decref (by simp), Conn.tails]
  have ok : ConnOk on g' k' := { h with
    stage := .loose (fun o => by
        have hcount := counts (.operation o)
        rw [hrole, h.stage.count, Stage.count, h.has ht hrole] at hcount
        rcases hg' with ⟨rfl, rfl⟩ | ⟨rfl, rfl⟩ <;>
          simp only [Stage.count, Stage.operation, Option.some.injEq, Role.operation.injEq]
            at hcount ⊢ <;> omega)
      (by
        rw [Conn.successes, others .success (by simp), hnone, show k'.phase = k.phase from rfl,
          if_neg hdone]
        rcases hg' with ⟨rfl, -⟩ | ⟨rfl, -⟩ <;> rfl)
      hstate off free (by rcases hg' with ⟨rfl, -⟩ | ⟨rfl, -⟩ <;> simp)
      (by rcases hg' with ⟨rfl, -⟩ | ⟨rfl, -⟩ <;> simp)
    connect := fun hc => by rcases hg' with ⟨rfl, -⟩ | ⟨rfl, -⟩ <;> cases hc
    phase := fun hne => absurd hphase hne
    msg := fun hm => Bool.noConfusion (hmsg.symm.trans hm)
    stray := (others .stray (by simp)).trans h.stray
    begun := fun u hu => h.begun u (List.mem_of_mem_erase hu)
    adding := fun x rest hu => h.adding x rest (List.mem_of_mem_erase hu)
    held := fun _ => by
      rcases hg' with ⟨rfl, -⟩ | ⟨rfl, -⟩ <;> simp [Stage.count, Stage.operation]
    ref := by
      have href := h.ref
      rw [tails]
      rcases hg with rfl | rfl <;> rcases hg' with ⟨rfl, -⟩ | ⟨rfl, -⟩ <;> exact href }
  refine ⟨ok, fun x => ?_⟩
  have htotal : total (Item.due k.session x) k'.items + _ = total (Item.due k.session x) k.items + _ :=
    hx _
  have waiting : g ≠ .waiting := by rcases hg with rfl | rfl <;> simp
  rw [h.owners, ok.owners, show k'.session = k.session from rfl,
    show k'.holder = k.holder from rfl, show k'.phase = k.phase from rfl,
    Holder.installs_of_free free]
  simp only [total_cons, total_nil, hdue x] at htotal
  by_cases hs : s = x <;> rcases hg' with ⟨rfl, rfl⟩ | ⟨rfl, rfl⟩ <;>
    simp [hsession, hs, hdone, waiting, Item.due, Item.role, Role.due] at htotal ⊢ <;> omega

end Connects

/-! ## The references -/

section Finish

/-- A handler thread has had the entry's mutex. -/
theorem ConnOk.synced (h : ConnOk on g k) (ht : .finish .sync ∈ k.tasks)
    (hholder : k.holder = .none) :
    Kept on g k ((k.take (.finish .sync)).put (.finish .decref)) := by
  let k' : Conn S := (k.take (.finish .sync)).put (.finish .decref)
  have counts : ∀ r, k'.count r + (if Role.sync = r then 1 else 0) =
      k.count r + if Role.decref = r then 1 else 0 := count_swap ht (.finish .decref)
  have tails : k'.tails = k.tails := by
    have hsync := counts .sync
    have hdecref := counts .decref
    simp only [Conn.tails]
    simp at hsync hdecref
    omega
  have ok : ConnOk on g k' := { h with
    stage := { h.stage with
      count := fun op => by
        have hcount := counts (.operation op)
        rw [h.stage.count] at hcount
        simpa using hcount
      successes := by
        have hcount : k'.count .success = k.count .success := by simpa using counts .success
        rw [Conn.successes, hcount]
        exact h.stage.successes }
    connect := fun hc => by
      rw [tails]
      exact h.connect hc
    phase := fun hne => by
      rw [show k'.polled .read = k.polled .read from (polled_put _ _ _).trans (polled_take ht _),
        show k'.polled .write = k.polled .write from (polled_put _ _ _).trans (polled_take ht _)]
      exact h.phase hne
    msg := fun hm => by
      rw [show k'.polled .read = k.polled .read from (polled_put _ _ _).trans (polled_take ht _)]
      exact h.msg hm
    stray := (by simpa using counts .stray : k'.count .stray = k.count .stray).trans h.stray
    begun := fun u hu x hx => (mem_swap hu).elim (fun hu => h.begun u hu x hx) fun e => by
      rw [e] at hx
      cases hx
    adding := fun x rest hu => (mem_swap hu).elim (h.adding x rest) fun e => by cases e
    held := fun hne => absurd hholder hne
    ref := by rw [tails]; exact h.ref }
  refine ⟨ok, fun x => ?_⟩
  exact Nat.add_right_cancel (h.compare ok rfl rfl rfl Iff.rfl (due_swap ht _ k.session x))

/-- A reference is dropped, and the entry released with the last one. -/
theorem ConnOk.decref (h : ConnOk on g k) (ht : .finish .decref ∈ k.tasks) :
    Kept on g k
      (let k' := { k.take (.finish .decref) with ref := k.ref - 1 }
       if k'.ref = 0 then releaseConn k' else k') := by
  have counts : ∀ r, (k.take (.finish .decref)).count r + (if Role.decref = r then 1 else 0) =
      k.count r := count_take ht
  have sync : (k.take (.finish .decref)).count .sync = k.count .sync := by simpa using counts .sync
  have tails : (k.take (.finish .decref)).tails + 1 = k.tails := by
    have hdecref := counts .decref
    simp only [Conn.tails, sync]
    simp at hdecref
    omega
  obtain ⟨hzero, href, -⟩ := h.ref.resolve_right (by omega)
  have kept : ∀ (ref : Int) (released : Nat),
      (released = 0 ∧ ref = (g.refs + (k.take (.finish .decref)).tails : Nat) ∧
          0 < g.refs + (k.take (.finish .decref)).tails ∨
        released = 1 ∧ g.refs + (k.take (.finish .decref)).tails = 0) →
      Kept on g k { k.take (.finish .decref) with ref := ref, released := released } := by
    intro ref released hrefs
    let k' : Conn S := { k.take (.finish .decref) with ref := ref, released := released }
    have others : ∀ r, r ≠ .decref → k'.count r = k.count r := fun r hr => by
      have hcount : k'.count r + _ = k.count r := counts r
      rwa [if_neg hr.symm] at hcount
    have polled : ∀ op, k'.polled op = k.polled op := polled_take ht
    have ok : ConnOk on g k' := { h with
      stage := { h.stage with
        count := fun op => (others _ (by simp)).trans (h.stage.count op)
        successes := by rw [Conn.successes, others _ (by simp)]; exact h.stage.successes }
      connect := fun hc => absurd (h.connect hc).1 (by omega)
      phase := fun hne => by
        rw [polled, polled]
        exact h.phase hne
      msg := fun hm => by
        rw [polled]
        exact h.msg hm
      stray := (others .stray (by simp)).trans h.stray
      begun := fun u hu => h.begun u (List.mem_of_mem_erase hu)
      adding := fun x rest hu => h.adding x rest (List.mem_of_mem_erase hu)
      held := fun hne => by
        rw [others _ (by simp)]
        exact h.held hne
      ref := hrefs }
    exact ⟨ok, fun x => h.compare ok rfl rfl rfl Iff.rfl (b := 0) (due_take ht k.session x)⟩
  dsimp only
  split
  · exact kept (k.ref - 1) (k.released + 1) (by omega)
  · exact kept (k.ref - 1) k.released (by omega)

end Finish

end WorkflowKernel.Communicator.Client
