import WorkflowKernel.Communicator.Client.Handling

/-!
# The invariant of a target

Every session whose request is accepted belongs to one connection, and what is outstanding for that
connection says exactly whether its `handle()` is still due (`StateOk.once`). Each step of the
poller thread, of `request` and of the handler threads keeps this, and so does every run
(`stateOk`).
-/

namespace WorkflowKernel.Communicator.Client

open WorkflowKernel.Lib.Exchange WorkflowKernel.Transition

/-- The session that the entry has been given under its mutex. -/
def Holder.given {S : Type} : Holder S → Option S
  | .sending s | .failing s | .leaving s => some s
  | _ => .none

variable {S C : Type} [DecidableEq S] [DecidableEq C] {st st' : State S C} {c : C} {s : S}

/-- How often `handle()` has been called of a session. -/
def State.handles (st : State S C) (s : S) : Nat := st.handled.countP fun x => x.1 = s

/-- What holds of a target, its connections and sessions between two steps. -/
structure StateOk (st : State S C) : Prop where
  nodup : st.idleList.Nodup
  conn : ∀ c, st.conn c = Conn.absent S ∧ c ∉ st.idleList ∨
    ∃ g, ConnOk (c ∈ st.idleList) g (st.conn c)
  elsewhere : ∀ s c, (st.session s).conn ≠ some c → (st.conn c).owners s = 0
  once : ∀ s c, (st.session s).conn = some c → st.handles s + (st.conn c).owners s = 1
  never : ∀ s, (st.session s).conn = none → st.handles s = 0
  before : ∀ s, (st.session s).call = .unused ∨ (st.session s).call = .searching ∨
    (st.session s).call = .launching → (st.session s).conn = none
  returned : ∀ s ret, (st.session s).call = .returned ret →
    ret = 0 ∧ (st.session s).conn.isSome = true ∨ ret = -1 ∧ (st.session s).conn = none
  taken : ∀ c s, (st.conn c).holder = .taken s →
    (st.session s).call = .locked c ∧ (st.session s).conn = none
  given : ∀ c s, (st.conn c).holder.given = some s →
    (st.session s).call = .locked c ∧ (st.session s).conn = some c
  adding : ∀ c s, .addConnect s ∈ (st.conn c).tasks → (st.session s).call = .adding c

omit [DecidableEq C] in
/-- Before any call no entry exists and no session has one. -/
theorem StateOk.init : StateOk (State.init S C) where
  nodup := List.nodup_nil
  conn c := .inl ⟨rfl, List.not_mem_nil⟩
  elsewhere s c _ := by simp [State.init, Conn.owners, Conn.absent, Conn.items]
  once s c hc := by cases hc
  never s _ := rfl
  before s _ := rfl
  returned s ret hr := by cases hr
  taken c s hc := by cases hc
  given c s hc := by cases hc
  adding c s hc := by cases hc

/-! ## Edits of one connection -/

section Edits

omit [DecidableEq S] in
@[simp] theorem upd_conn (st : State S C) (c : C) (f : Conn S → Conn S) :
    (st.upd c f).conn c = f (st.conn c) := Function.update_self ..

omit [DecidableEq S] in
@[simp] theorem upd_upd (st : State S C) (c : C) (f f' : Conn S → Conn S) :
    (st.upd c f).upd c f' = st.upd c fun k => f' (f k) := by
  simp [State.upd, Function.update_idem]

omit [DecidableEq C] in
@[simp] theorem updSession_self (st : State S C) (s : S) (f : Session C → Session C) :
    (st.updSession s f).session s = f (st.session s) := Function.update_self ..

omit [DecidableEq C] in
/-- Editing a session leaves the others. -/
theorem updSession_other (st : State S C) {s x : S} (hx : x ≠ s) (f : Session C → Session C) :
    (st.updSession s f).session x = st.session x := Function.update_of_ne hx ..

omit [DecidableEq C] in
/-- A launched entry. -/
theorem StateOk.get (h : StateOk st) (hne : st.conn c ≠ Conn.absent S) :
    ∃ g, ConnOk (c ∈ st.idleList) g (st.conn c) :=
  (h.conn c).resolve_left fun habsent => hne habsent.1

/-- A step edits one entry, the idle list and the calls of `handle()`, and leaves each session's call
and connection. What it takes from the sessions that wait it adds to those handled. -/
theorem StateOk.edit (h : StateOk st) {g : Stage} {k : Conn S}
    (conn : st'.conn = Function.update st.conn c k) (nodup : st'.idleList.Nodup)
    (list : ∀ c', c' ≠ c → (c' ∈ st'.idleList ↔ c' ∈ st.idleList))
    (ok : ConnOk (c ∈ st'.idleList) g k)
    (session : ∀ s, (st'.session s).call = (st.session s).call ∧
      (st'.session s).conn = (st.session s).conn)
    (mono : ∀ s, st.handles s ≤ st'.handles s)
    (owners : ∀ s, st'.handles s + k.owners s = st.handles s + (st.conn c).owners s)
    (taken : ∀ s, k.holder = .taken s → (st.conn c).holder = .taken s)
    (given : ∀ s, k.holder.given = some s → (st.conn c).holder.given = some s)
    (adding : ∀ s, .addConnect s ∈ k.tasks → .addConnect s ∈ (st.conn c).tasks) : StateOk st' := by
  have self : st'.conn c = k := by rw [conn, Function.update_self]
  have other : ∀ c', c' ≠ c → st'.conn c' = st.conn c' := fun c' hc => by
    rw [conn, Function.update_of_ne hc]
  have foreign : ∀ s, (st.session s).conn ≠ some c →
      st'.handles s = st.handles s ∧ k.owners s = 0 := fun s hs => by
    have hzero := h.elsewhere s c hs
    have hle := mono s
    have heq := owners s
    omega
  refine {
    nodup := nodup
    conn := fun c' => ?_
    elsewhere := fun s c' hc => ?_
    once := fun s c' hc => ?_
    never := fun s hs => ?_
    before := fun s hs => ?_
    returned := fun s ret hr => ?_
    taken := fun c' s hs => ?_
    given := fun c' s hs => ?_
    adding := fun c' s hs => ?_ }
  · by_cases hc : c' = c
    · subst hc
      rw [self]
      exact .inr ⟨g, ok⟩
    · rw [other c' hc, list c' hc]
      exact h.conn c'
  · rw [(session s).2] at hc
    by_cases hcc : c' = c
    · subst hcc
      rw [self]
      exact (foreign s hc).2
    · rw [other c' hcc]
      exact h.elsewhere s c' hc
  · rw [(session s).2] at hc
    by_cases hcc : c' = c
    · subst hcc
      rw [self, owners s]
      exact h.once s c' hc
    · rw [other c' hcc, (foreign s (by rw [hc]; simpa using hcc)).1]
      exact h.once s c' hc
  · rw [(session s).2] at hs
    rw [(foreign s (by simp [hs])).1]
    exact h.never s hs
  · rw [(session s).1] at hs
    rw [(session s).2]
    exact h.before s hs
  · rw [(session s).1] at hr
    rw [(session s).2]
    exact h.returned s ret hr
  · rw [(session s).1, (session s).2]
    by_cases hcc : c' = c
    · subst hcc
      rw [self] at hs
      exact h.taken c' s (taken s hs)
    · rw [other c' hcc] at hs
      exact h.taken c' s hs
  · rw [(session s).1, (session s).2]
    by_cases hcc : c' = c
    · subst hcc
      rw [self] at hs
      exact h.given c' s (given s hs)
    · rw [other c' hcc] at hs
      exact h.given c' s hs
  · rw [(session s).1]
    by_cases hcc : c' = c
    · subst hcc
      rw [self] at hs
      exact h.adding c' s (adding s hs)
    · rw [other c' hcc] at hs
      exact h.adding c' s hs

/-- A step edits one entry and nothing else. -/
theorem StateOk.upd (h : StateOk st) {f : Conn S → Conn S} {g : Stage}
    (hk : Kept (c ∈ st.idleList) g (st.conn c) (f (st.conn c)))
    (holder : (f (st.conn c)).holder = (st.conn c).holder)
    (adding : ∀ s, .addConnect s ∈ (f (st.conn c)).tasks → .addConnect s ∈ (st.conn c).tasks) :
    StateOk (st.upd c f) :=
  h.edit rfl h.nodup (fun _ _ => Iff.rfl) hk.ok (fun _ => ⟨rfl, rfl⟩) (fun _ => Nat.le_refl _)
    (fun s => by rw [hk.owners s]; rfl) (fun s hs => holder ▸ hs) (fun s hs => holder ▸ hs) adding

/-- What the entries say about sessions, `A`, agrees with what the sessions say, `B`, when a step
edits one entry and the session `s`, which no other entry names. -/
theorem place_of_assign {k : Conn S} {A : Conn S → S → Prop} {B : C → Session C → Prop}
    (conn : st'.conn = Function.update st.conn c k)
    (session : ∀ x, x ≠ s → st'.session x = st.session x)
    (agrees : ∀ c' x, A (st.conn c') x → B c' (st.session x))
    (only : ∀ c', B c' (st.session s) → c' = c)
    (new : ∀ x, A k x → (x = s → B c (st'.session s)) ∧ (x ≠ s → A (st.conn c) x)) (c' : C) (x : S)
    (hx : A (st'.conn c') x) : B c' (st'.session x) := by
  by_cases hc : c' = c
  · subst hc
    rw [conn, Function.update_self] at hx
    by_cases hxs : x = s
    · subst hxs
      exact (new x hx).1 rfl
    · rw [session x hxs]
      exact agrees c' x ((new x hx).2 hxs)
  · rw [conn, Function.update_of_ne hc] at hx
    by_cases hxs : x = s
    · subst hxs
      exact absurd (only c' (agrees c' x hx)) hc
    · rw [session x hxs]
      exact agrees c' x hx

/-- Only its own entry owes a session anything. -/
theorem elsewhere_of_assign (h : StateOk st) {k : Conn S}
    (conn : st'.conn = Function.update st.conn c k)
    (session : ∀ x, x ≠ s → st'.session x = st.session x)
    (here : (st.session s).conn = none ∨ (st.session s).conn = some c)
    (owners : ∀ x, x ≠ s → k.owners x = (st.conn c).owners x)
    (mine : k.owners s = 0 ∨ (st'.session s).conn = some c) (x : S) (c' : C)
    (hx : (st'.session x).conn ≠ some c') : (st'.conn c').owners x = 0 := by
  by_cases hc : c' = c
  · subst hc
    rw [conn, Function.update_self]
    by_cases hxs : x = s
    · subst hxs
      exact mine.resolve_right hx
    · rw [session x hxs] at hx
      rw [owners x hxs]
      exact h.elsewhere x c' hx
  · rw [conn, Function.update_of_ne hc]
    by_cases hxs : x = s
    · subst hxs
      exact h.elsewhere x c' (by rcases here with hs | hs <;> simp [hs, Ne.symm hc])
    · rw [session x hxs] at hx
      exact h.elsewhere x c' hx

/-- A session that has an entry has been handled, or is owed that there. -/
theorem once_of_assign (h : StateOk st) {k : Conn S}
    (conn : st'.conn = Function.update st.conn c k)
    (session : ∀ x, x ≠ s → st'.session x = st.session x)
    (handles : ∀ x, st'.handles x = st.handles x)
    (owners : ∀ x, x ≠ s → k.owners x = (st.conn c).owners x)
    (mine : (st'.session s).conn = none ∨
      (st'.session s).conn = some c ∧ st.handles s + k.owners s = 1) (x : S) (c' : C)
    (hx : (st'.session x).conn = some c') : st'.handles x + (st'.conn c').owners x = 1 := by
  rw [handles]
  by_cases hxs : x = s
  · subst hxs
    rcases mine with hnone | ⟨hconn, hone⟩
    · rw [hnone] at hx
      cases hx
    · obtain rfl : c = c' := Option.some.inj (hconn.symm.trans hx)
      rw [conn, Function.update_self]
      exact hone
  · rw [session x hxs] at hx
    by_cases hc : c' = c
    · subst hc
      rw [conn, Function.update_self, owners x hxs]
      exact h.once x c' hx
    · rw [conn, Function.update_of_ne hc]
      exact h.once x c' hx

/-- A step edits one entry and the session `s`, which belongs to no other, and calls no
`handle()`. -/
theorem StateOk.assign (h : StateOk st) {g : Stage} {k : Conn S}
    (conn : st'.conn = Function.update st.conn c k) (nodup : st'.idleList.Nodup)
    (list : ∀ c', c' ≠ c → (c' ∈ st'.idleList ↔ c' ∈ st.idleList))
    (ok : ConnOk (c ∈ st'.idleList) g k) (handled : st'.handled = st.handled)
    (session : ∀ x, x ≠ s → st'.session x = st.session x)
    (here : (st.session s).conn = none ∨ (st.session s).conn = some c)
    (locked : ∀ c', (st.session s).call = .locked c' → c' = c)
    (adds : ∀ c', (st.session s).call = .adding c' → c' = c)
    (owners : ∀ x, x ≠ s → k.owners x = (st.conn c).owners x)
    (mine : (st'.session s).conn = none ∧ st.handles s = 0 ∧ k.owners s = 0 ∨
      (st'.session s).conn = some c ∧ st.handles s + k.owners s = 1)
    (before : (st'.session s).call = .unused ∨ (st'.session s).call = .searching ∨
      (st'.session s).call = .launching → (st'.session s).conn = none)
    (returned : ∀ ret, (st'.session s).call = .returned ret →
      ret = 0 ∧ (st'.session s).conn.isSome = true ∨ ret = -1 ∧ (st'.session s).conn = none)
    (taken : ∀ x, k.holder = .taken x → (x = s →
      (st'.session s).call = .locked c ∧ (st'.session s).conn = none) ∧
        (x ≠ s → (st.conn c).holder = .taken x))
    (given : ∀ x, k.holder.given = some x → (x = s →
      (st'.session s).call = .locked c ∧ (st'.session s).conn = some c) ∧
        (x ≠ s → (st.conn c).holder.given = some x))
    (adding : ∀ x, .addConnect x ∈ k.tasks → (x = s → (st'.session s).call = .adding c) ∧
      (x ≠ s → .addConnect x ∈ (st.conn c).tasks)) : StateOk st' := by
  have handles : ∀ x, st'.handles x = st.handles x := fun x => by rw [State.handles, handled]; rfl
  have mine₀ : k.owners s = 0 ∨ (st'.session s).conn = some c :=
    mine.imp (fun hm => hm.2.2) And.left
  refine {
    nodup := nodup
    conn := fun c' => ?_
    elsewhere := elsewhere_of_assign h conn session here owners mine₀
    once := once_of_assign h conn session handles owners (mine.imp_left And.left)
    never := fun x hx => ?_
    before := fun x hx => ?_
    returned := fun x ret hx => ?_
    taken := ?_
    given := ?_
    adding := ?_ }
  · by_cases hc : c' = c
    · subst hc
      rw [conn, Function.update_self]
      exact .inr ⟨g, ok⟩
    · rw [conn, Function.update_of_ne hc, list c' hc]
      exact h.conn c'
  · rw [handles]
    by_cases hxs : x = s
    · subst hxs
      rcases mine with ⟨-, hzero, -⟩ | ⟨hconn, -⟩
      · exact hzero
      · rw [hconn] at hx
        cases hx
    · rw [session x hxs] at hx
      exact h.never x hx
  · by_cases hxs : x = s
    · subst hxs
      exact before hx
    · rw [session x hxs] at hx ⊢
      exact h.before x hx
  · by_cases hxs : x = s
    · subst hxs
      exact returned ret hx
    · rw [session x hxs] at hx ⊢
      exact h.returned x ret hx
  · exact place_of_assign (A := fun k x => k.holder = .taken x)
      (B := fun c x => x.call = .locked c ∧ x.conn = none) conn session h.taken
      (fun c' hs => locked c' hs.1) taken
  · exact place_of_assign (A := fun k x => k.holder.given = some x)
      (B := fun c x => x.call = .locked c ∧ x.conn = some c) conn session h.given
      (fun c' hs => locked c' hs.1) given
  · exact place_of_assign (A := fun k x => .addConnect x ∈ k.tasks)
      (B := fun c x => x.call = .adding c) conn session h.adding adds adding

end Edits

/-! ## The poller thread -/

section Poller

/-- A read event is found: the entry goes to the poller thread. -/
theorem StateOk.pollRead (h : StateOk st) (hs : pollRead st c = some st') : StateOk st' := by
  simp only [Client.pollRead] at hs
  split at hs
  · next hguard =>
    cases hs
    obtain ⟨g, hg⟩ := h.get fun e => by rw [e] at hguard; cases hguard.1
    exact h.upd (hg.pollRead hguard.1 hguard.2) rfl fun _ => id
  · cases hs

/-- The poller thread reads on without a message. -/
theorem StateOk.readAgain (h : StateOk st) (hs : readAgain st c = some st') : StateOk st' := by
  simp only [Client.readAgain] at hs
  split at hs
  · next hguard =>
    cases hs
    obtain ⟨g, hg⟩ := h.get fun e => by rw [e] at hguard; cases hguard
    exact h.upd (hg.rephased (by simp [hguard]) (by simp) (fun hne => absurd rfl hne) id) rfl
      fun _ => id
  · cases hs

/-- `create_reply` is called for the first byte of a message. -/
theorem StateOk.createReply (h : StateOk st) (hs : createReply st c = some st') : StateOk st' := by
  simp only [Client.createReply] at hs
  split at hs
  · next hguard =>
    cases hs
    obtain ⟨g, hg⟩ := h.get fun e => by rw [e] at hguard; cases hguard.1
    refine h.upd (hg.rephased (by simp [hguard.1]) ?_ (by simp [hguard.1]) id) rfl fun _ => id
    split <;> simp
  · cases hs

/-- It has had the entry's mutex. -/
theorem StateOk.createReplyLocked (h : StateOk st) (hs : createReplyLocked st c = some st') :
    StateOk st' := by
  simp only [Client.createReplyLocked] at hs
  split at hs
  · next hguard =>
    cases hs
    obtain ⟨g, hg⟩ := h.get fun e => by rw [e] at hguard; cases hguard.1
    exact h.upd (hg.rephased (by simp [hguard.1]) (by simp) (by simp [hguard.1]) id) rfl fun _ => id
  · cases hs

/-- The session that waits for the reply is asked for its message. -/
theorem StateOk.createReplySession (h : StateOk st) {messageIn : Bool} {error : Errno}
    (hs : createReplySession st c messageIn error = some st') : StateOk st' := by
  simp only [Client.createReplySession] at hs
  split at hs
  · next hguard =>
    cases hs
    obtain ⟨g, hg⟩ := h.get fun e => by rw [e] at hguard; cases hguard
    have fails : ∀ error, Kept (c ∈ st.idleList) g (st.conn c)
        { st.conn c with phase := .failed error } := fun error =>
      hg.rephased (by simp [hguard]) (by simp) (by simp [hguard]) id
    refine h.upd (g := g) ?_ ?_ ?_
    · split
      · exact fails EBADMSG
      · next hstate =>
        split
        · exact hg.createReply hguard (by simpa using hstate)
        · exact fails error
    · split
      · rfl
      · split <;> rfl
    · split
      · exact fun _ => id
      · split <;> exact fun _ => id
  · cases hs

/-- The reply is complete; a connection that is to be kept alive stays with its session until the
result. -/
theorem StateOk.appendMessageDone (h : StateOk st) {timeout : Int}
    (hs : appendMessageDone st c timeout = some st') : StateOk st' := by
  simp only [Client.appendMessageDone] at hs
  split at hs
  · next hguard =>
    split at hs
    · next s hsession =>
      cases hs
      obtain ⟨g, hg⟩ := h.get fun e => by rw [e] at hguard; cases hguard.1
      have hk := hg.appendMessage hguard.1 hguard.2
      have hdel := hk.trans hk.ok.mpollerDel
      refine h.edit (c := c) (g := .replied) rfl h.nodup (fun _ _ => Iff.rfl) ?_
        (fun x => ?_) (fun _ => Nat.le_refl _) (fun x => ?_) ?_ ?_ ?_
      · split
        · exact hdel.ok
        · exact hk.ok
      · by_cases hx : x = s
        · subst hx
          simp [State.upd, State.updSession]
        · simp [State.upd, State.updSession, hx]
      · refine congrArg (st.handles x + ·) ?_
        split
        · exact hdel.owners x
        · exact hk.owners x
      · split <;> exact fun _ => id
      · split <;> exact fun _ => id
      · split <;> exact fun _ => id
    · cases hs
  · cases hs

/-- The result of a message goes to the handlers. -/
theorem StateOk.callback (h : StateOk st) (hs : callback st c = some st') : StateOk st' := by
  simp only [Client.callback] at hs
  split at hs
  · next hguard =>
    cases hs
    obtain ⟨g, hg⟩ := h.get fun e => by rw [e] at hguard; cases hguard
    exact h.upd (hg.callback hguard) rfl fun s hs => by simpa [Conn.put] using hs
  · cases hs

/-- The one terminal result of an operation. -/
theorem StateOk.endRead (h : StateOk st) {res : PrState × Errno} (hres : res.1.terminal = true)
    (hout : (st.conn c).phase ≠ .out) (hdone : (st.conn c).phase ≠ .done) :
    StateOk (st.upd c (endRead res)) := by
  obtain ⟨g, hg⟩ := h.get fun e => by rw [e] at hout; exact hout rfl
  refine h.upd (hg.endRead hdone hres) ?_ ?_
  · simp only [Client.endRead]
    split <;> rfl
  · simp only [Client.endRead]
    split
    · exact fun s hs => by simpa [Conn.put] using hs
    · exact fun _ => id

/-- The peer closes, an error or the timeout ends the operation. -/
theorem StateOk.readEnds (h : StateOk st) {res : PrState × Errno}
    (hs : readEnds st c res = some st') : StateOk st' := by
  simp only [Client.readEnds] at hs
  split at hs
  · next hguard =>
    cases hs
    refine h.endRead ?_ (by simp [hguard.1]) (by simp [hguard.1])
    rcases hguard.2 with hr | hr <;> rw [hr] <;> rfl
  · cases hs

/-- `create_reply` returned NULL, and the poller thread gives the node up. -/
theorem StateOk.readFails (h : StateOk st) (hs : readFails st c = some st') : StateOk st' := by
  simp only [Client.readFails] at hs
  split at hs
  · next error hphase =>
    cases hs
    exact h.endRead rfl (by simp [hphase]) (by simp [hphase])
  · cases hs

/-- An operation ends while no read event is being handled. -/
theorem StateOk.pollEnds (h : StateOk st) {res : PrState × Errno}
    (hs : pollEnds st c res = some st') : StateOk st' := by
  simp only [Client.pollEnds] at hs
  split at hs
  · next op hreg =>
    split at hs
    · next hguard =>
      cases hs
      obtain ⟨g, hg⟩ := h.get fun e => by rw [e] at hreg; cases hreg
      have hres : res.1.terminal = true := by
        rcases hguard.2 with hr | hr | hr <;> rw [hr] <;> rfl
      exact h.upd (hg.pollEnds hreg hguard.1 hres) rfl fun s hs => by simpa [Conn.put] using hs
    · cases hs
  · cases hs

/-- A deleted node's result comes through the pipe. -/
theorem StateOk.handlePipe (h : StateOk st) (hs : handlePipe st c = some st') : StateOk st' := by
  simp only [Client.handlePipe] at hs
  split at hs
  · cases hs
  · next op state rest hpipe =>
    split at hs
    · next hguard =>
      cases hs
      obtain ⟨g, hg⟩ := h.get fun e => by rw [e] at hpipe; cases hpipe
      exact h.upd (hg.handlePipe hpipe hguard) rfl fun s hs => by simpa [Conn.put] using hs
    · cases hs

/-- `mpoller_del` takes the node out of the table, if it is there. -/
theorem StateOk.mpollerDel (h : StateOk st) (c : C) : StateOk (st.upd c mpollerDel) := by
  rcases h.conn c with ⟨habsent, -⟩ | ⟨g, hg⟩
  · have same : st.upd c Client.mpollerDel = st := by
      have hk : Client.mpollerDel (st.conn c) = st.conn c := by rw [habsent]; rfl
      simp [State.upd, hk]
    rw [same]
    exact h
  · exact h.upd hg.mpollerDel rfl fun _ => id

end Poller

/-! ## `Communicator::request` -/

section Requests

omit [DecidableEq C] in
/-- A call of `request` that has no entry goes on or fails. -/
theorem StateOk.call (h : StateOk st) {call : Call C}
    (hbefore : (st.session s).call = .unused ∨ (st.session s).call = .searching ∨
      (st.session s).call = .launching)
    (hcall : call = .searching ∨ call = .launching ∨ call = .returned (-1)) :
    StateOk (st.updSession s fun x => { x with call := call }) := by
  have hnone := h.before s hbefore
  have conn : ∀ x, ((st.updSession s fun x => { x with call := call }).session x).conn =
      (st.session x).conn := fun x => by
    by_cases hx : x = s
    · subst hx
      simp [State.updSession]
    · simp [State.updSession, hx]
  have self : ((st.updSession s fun x => { x with call := call }).session s).call = call := by
    simp [State.updSession]
  have other : ∀ x, x ≠ s →
      (st.updSession s fun x => { x with call := call }).session x = st.session x := fun x hx => by
    simp [State.updSession, hx]
  have elsewhere : ∀ c', (st.session s).call ≠ .locked c' ∧ (st.session s).call ≠ .adding c' :=
    fun c' => by rcases hbefore with hb | hb | hb <;> simp [hb]
  exact {
    nodup := h.nodup
    conn := h.conn
    elsewhere := fun x c' hx => h.elsewhere x c' (by rwa [conn] at hx)
    once := fun x c' hx => h.once x c' (by rwa [conn] at hx)
    never := fun x hx => h.never x (by rwa [conn] at hx)
    before := fun x hx => by
      rw [conn]
      by_cases hxs : x = s
      · exact hxs ▸ hnone
      · rw [other x hxs] at hx
        exact h.before x hx
    returned := fun x ret hx => by
      rw [conn]
      by_cases hxs : x = s
      · subst hxs
        rw [self] at hx
        rcases hcall with rfl | rfl | rfl
        · cases hx
        · cases hx
        · cases hx
          exact .inr ⟨rfl, hnone⟩
      · rw [other x hxs] at hx
        exact h.returned x ret hx
    taken := fun c' x hx => by
      have hold := h.taken c' x hx
      rw [other x fun e => (elsewhere c').1 (e ▸ hold.1)]
      exact hold
    given := fun c' x hx => by
      have hold := h.given c' x hx
      rw [other x fun e => (elsewhere c').1 (e ▸ hold.1)]
      exact hold
    adding := fun c' x hx => by
      have hold := h.adding c' x hx
      rw [other x fun e => (elsewhere c').2 (e ▸ hold)]
      exact hold }

/-- `request` begins: the session has no entry yet. -/
theorem StateOk.request (h : StateOk st) {passive : Bool} (hs : request st s passive = some st') :
    StateOk st' := by
  simp only [Client.request] at hs
  split at hs
  · next hguard =>
    cases hs
    exact h.call (.inl hguard) (by cases passive <;> simp)
  · cases hs

/-- The first entry of the idle list is taken off with its mutex. -/
theorem StateOk.requestIdleConn (h : StateOk st) (hs : requestIdleConn st s = some st') :
    StateOk st' := by
  simp only [Client.requestIdleConn] at hs
  split at hs
  · next hguard =>
    split at hs
    · cases hs
      exact h.call (.inr (.inl hguard)) (.inr (.inl rfl))
    · next c rest hlist =>
      split at hs
      · next hholder =>
        cases hs
        have hmem : c ∈ st.idleList := by rw [hlist]; exact List.mem_cons_self
        obtain ⟨g, hg⟩ := (h.conn c).resolve_left fun habsent => habsent.2 hmem
        have hnodup := h.nodup
        rw [hlist] at hnodup
        have hoff : c ∉ rest := (List.nodup_cons.mp hnodup).1
        have hk := hg.taken hmem hholder s
        have hnone := h.before s (.inr (.inl hguard))
        have hzero := h.elsewhere s c (by simp [hnone])
        have off : (c ∈ rest) = False := eq_false hoff
        have hok := hk.ok
        rw [← off] at hok
        refine h.assign (s := s) rfl (List.nodup_cons.mp hnodup).2 (fun c' hc => ?_) hok rfl
          (fun x hx => updSession_other _ hx _) (.inl hnone) (by simp [hguard]) (by simp [hguard])
          (fun x _ => hk.owners x) (.inl ?_) (by simp) (by simp) (fun x hx => ⟨fun _ => ?_, fun hne => ?_⟩)
          (fun x hx => by cases hx) (fun x hx => ?_)
        · show c' ∈ rest ↔ c' ∈ st.idleList
          rw [hlist, List.mem_cons, or_iff_right hc]
        · rw [updSession_self]
          exact ⟨hnone, h.never s hnone, (hk.owners s).trans hzero⟩
        · rw [updSession_self]
          exact ⟨rfl, hnone⟩
        · exact absurd (Holder.taken.inj hx).symm hne
        · refine ⟨fun e => ?_, fun _ => hx⟩
          have hcall := h.adding c x hx
          rw [e, hguard] at hcall
          cases hcall
      · cases hs
  · cases hs

/-- The entry is given to the session before its timeout is set. -/
theorem StateOk.requestIdleConnTimeout (h : StateOk st)
    (hs : requestIdleConnTimeout st c = some st') : StateOk st' := by
  simp only [Client.requestIdleConnTimeout] at hs
  split at hs
  · next s hholder =>
    obtain ⟨hcall, hnone⟩ := h.taken c s hholder
    obtain ⟨g, hg⟩ := h.get (c := c) fun e => by rw [e] at hholder; cases hholder
    obtain rfl : g = .requested := hg.stage.busy.mp (by simp [hholder, Holder.busy])
    have hzero := h.elsewhere s c (by simp [hnone])
    have hnever := h.never s hnone
    split at hs
    · cases hs
      obtain ⟨ok, owners⟩ := hg.given hholder s
      refine h.assign (s := s) rfl h.nodup (fun _ _ => Iff.rfl) ok rfl
        (fun x hx => updSession_other _ hx _) (.inl hnone) (by simp [hcall]) (by simp [hcall])
        (fun x hx => by rw [owners, if_neg (Ne.symm hx), Nat.add_zero]) (.inr ?_)
        (by simp [State.upd, hcall]) (by simp [State.upd, hcall]) (fun x hx => by cases hx)
        (fun x hx => ?_) (fun x hx => ?_)
      · rw [updSession_self, owners, hzero, hnever, if_pos rfl]
        exact ⟨rfl, rfl⟩
      · obtain rfl : s = x := Option.some.inj hx
        rw [updSession_self]
        exact ⟨fun _ => ⟨hcall, rfl⟩, fun hne => absurd rfl hne⟩
      · refine ⟨fun e => ?_, fun _ => hx⟩
        have hadding := h.adding c x hx
        rw [e, hcall] at hadding
        cases hadding
    · cases hs
      have hk := hg.refused hholder
      refine h.assign (s := s) rfl h.nodup (fun _ _ => Iff.rfl) hk.ok rfl
        (fun x hx => updSession_other _ hx _) (.inl hnone) (by simp [hcall]) (by simp [hcall])
        (fun x _ => hk.owners x) (.inl ?_) (fun _ => by rw [updSession_self]; exact hnone) (by simp)
        (fun x hx => by cases hx) (fun x hx => by cases hx) (fun x hx => ?_)
      · rw [updSession_self]
        exact ⟨hnone, hnever, (hk.owners s).trans hzero⟩
      · refine ⟨fun e => ?_, fun _ => hx⟩
        have hadding := h.adding c x hx
        rw [e, hcall] at hadding
        cases hadding
  · cases hs

/-- `request_idle_conn` goes on with the entry and the session that it has given it. -/
theorem StateOk.proceed (h : StateOk st) {k : Conn S} {g : Stage}
    (hgiven : (st.conn c).holder.given = some s) (hk : Kept (c ∈ st.idleList) g (st.conn c) k)
    (holder : k.holder.given = some s) (tasks : k.tasks = (st.conn c).tasks) :
    StateOk (st.upd c fun _ => k) :=
  h.edit rfl h.nodup (fun _ _ => Iff.rfl) hk.ok (fun _ => ⟨rfl, rfl⟩) (fun _ => Nat.le_refl _)
    (fun x => by rw [hk.owners x]; rfl) (fun x hx => by rw [hx] at holder; cases holder)
    (fun x hx => hgiven.trans (holder.symm.trans hx)) fun x hx => tasks ▸ hx

/-- The message is sent, or is left to the poller. -/
theorem StateOk.requestIdleConnSend (h : StateOk st) {o : Sent}
    (hs : requestIdleConnSend st c o = some st') : StateOk st' := by
  simp only [Client.requestIdleConnSend] at hs
  split at hs
  · next s hholder =>
    obtain ⟨x, hsend, rfl⟩ := Option.map_eq_some_iff.mp hs
    obtain ⟨g, hg⟩ := h.get (c := c) fun e => by rw [e] at hholder; cases hholder
    obtain rfl : g = .requested := hg.stage.busy.mp (by simp [hholder, Holder.busy])
    have hinstalls : (st.conn c).holder.installs = some s := by rw [hholder]; rfl
    have hgiven : (st.conn c).holder.given = some s := by rw [hholder]; rfl
    have hstate := hg.stage.idle (.inr rfl)
    cases o with
    | sync =>
      cases hsend
      exact h.proceed hgiven (hg.sent hinstalls (.inl rfl)) rfl rfl
    | async =>
      simp only [sendMessage] at hsend
      rw [if_pos hstate] at hsend
      split at hsend
      · next op hreg =>
        cases hsend
        exact h.proceed hgiven (hg.replaced hinstalls hreg) rfl rfl
      · cases hsend
        exact h.proceed hgiven (hg.sent hinstalls (.inl rfl)) rfl rfl
    | fail error =>
      cases hsend
      exact h.proceed hgiven (hg.fails hinstalls error) rfl rfl
  · cases hs

/-- A failed send leaves the entry for its deletion. -/
theorem StateOk.requestIdleConnError (h : StateOk st) (hs : requestIdleConnError st c = some st') :
    StateOk st' := by
  simp only [Client.requestIdleConnError] at hs
  split at hs
  · next s hholder =>
    cases hs
    obtain ⟨g, hg⟩ := h.get (c := c) fun e => by rw [e] at hholder; cases hholder
    obtain rfl : g = .requested := hg.stage.busy.mp (by simp [hholder, Holder.busy])
    exact h.proceed (by rw [hholder]; rfl) (hg.sent (by rw [hholder]; rfl) (.inr rfl)) rfl rfl
  · cases hs

/-- The mutex is given back, and the call returns 0 with the session on the entry. -/
theorem StateOk.requestIdleConnLeave (h : StateOk st) (hs : requestIdleConnLeave st c = some st') :
    StateOk st' := by
  simp only [Client.requestIdleConnLeave] at hs
  split at hs
  · next s hholder =>
    cases hs
    obtain ⟨hcall, hconn⟩ := h.given c s (by simp [hholder, Holder.given])
    obtain ⟨g, hg⟩ := h.get (c := c) fun e => by rw [e] at hholder; cases hholder
    have hk := hg.left hholder
    refine h.assign (s := s) rfl h.nodup (fun _ _ => Iff.rfl) hk.ok rfl
      (fun x hx => updSession_other _ hx _) (.inr hconn) (by simp [hcall]) (by simp [hcall])
      (fun x _ => hk.owners x) (.inr ?_) (by simp) (fun ret hret => .inl ?_)
      (fun x hx => by cases hx) (fun x hx => by cases hx) (fun x hx => ?_)
    · rw [updSession_self, hk.owners s]
      exact ⟨hconn, h.once s c hconn⟩
    · rw [updSession_self] at hret ⊢
      cases hret
      exact ⟨rfl, by simp [State.upd, hconn]⟩
    · refine ⟨fun e => ?_, fun _ => hx⟩
      have hadding := h.adding c x hx
      rw [e, hcall] at hadding
      cases hadding
  · cases hs

/-- A new entry comes with its session, or none comes. -/
theorem StateOk.launchConn (h : StateOk st) {entry : Option C}
    (hs : launchConn st s entry = some st') : StateOk st' := by
  simp only [Client.launchConn] at hs
  split at hs
  · next hcall =>
    split at hs
    · cases hs
      exact h.call (.inr (.inr hcall)) (.inr (.inr rfl))
    · next c =>
      split at hs
      · cases hs
      · next hlaunched =>
        cases hs
        obtain ⟨habsent, hoff⟩ := (h.conn c).resolve_right fun ⟨g, hg⟩ => hlaunched hg.launched
        have hnone := h.before s (.inr (.inr hcall))
        obtain ⟨hok, howners⟩ := ConnOk.launch s
        have off : (c ∈ st.idleList) = False := eq_false hoff
        rw [← off] at hok
        refine h.assign (s := s) rfl h.nodup (fun _ _ => Iff.rfl) hok rfl
          (fun x hx => updSession_other _ hx _) (.inl hnone) (by simp [hcall]) (by simp [hcall])
          (fun x hx => ?_) (.inr ?_) (by simp) (by simp) (fun x hx => by cases hx)
          (fun x hx => by cases hx) (fun x hx => ?_)
        · rw [howners, if_neg (Ne.symm hx), habsent]
          simp [Conn.owners, Conn.absent, Conn.items]
        · rw [updSession_self, howners, if_pos rfl, h.never s hnone]
          exact ⟨rfl, rfl⟩
        · obtain rfl : x = s := by simpa [Conn.put, Conn.absent] using hx
          rw [updSession_self]
          exact ⟨fun _ => rfl, fun hne => absurd rfl hne⟩
  · cases hs

/-- The connect is registered, or the entry is released and the session stays without. -/
theorem StateOk.requestNewConn (h : StateOk st) {accepted : Bool}
    (hs : requestNewConn st s c accepted = some st') : StateOk st' := by
  simp only [Client.requestNewConn, upd_conn, upd_upd] at hs
  split at hs
  · next ht =>
    have hcall := h.adding c s ht
    obtain ⟨g, hg⟩ := h.get (c := c) fun e => by rw [e] at ht; cases ht
    have hdue : 0 < (st.conn c).owners s := by
      have hle : Item.due (st.conn c).session s (.task (.addConnect s)) ≤ _ :=
        le_total (Conn.mem_task.mpr ht)
      rw [hg.owners]
      simp only [Item.due, if_pos] at hle
      omega
    have hconn : (st.session s).conn = some c := by
      by_contra hne
      rw [h.elsewhere s c hne] at hdue
      exact absurd hdue (Nat.lt_irrefl 0)
    have hone := h.once s c hconn
    obtain ⟨-, hholder, -⟩ := hg.connect (Stage.connecting_of (hg.has ht rfl))
    have others : ∀ x, .addConnect x ∈ (st.conn c).tasks.erase (.addConnect s) → x ≠ s := by
      intro x hx e
      subst e
      have hitem : Item.task (.addConnect x) ∈ ((st.conn c).take (.addConnect x)).items :=
        Conn.mem_task.mpr hx
      have hpos := count_pos hitem
      exact absurd (hg.noOperation ht rfl .connect) hpos.ne'
    split at hs
    · next hguard =>
      cases hs
      have hk := hg.connects ht hguard.2
      refine h.assign (s := s) rfl h.nodup (fun _ _ => Iff.rfl) hk.ok rfl
        (fun x hx => updSession_other _ hx _) (.inr hconn) (by simp [hcall]) (fun c' hc' => ?_)
        (fun x _ => hk.owners x) (.inr ?_) (by simp) (fun ret hret => .inl ?_)
        (fun x hx => ?_) (fun x hx => ?_) (fun x hx => ?_)
      · rw [hcall] at hc'
        exact (Call.adding.inj hc').symm
      · rw [updSession_self, hk.owners s]
        exact ⟨hconn, hone⟩
      · rw [updSession_self] at hret ⊢
        cases hret
        exact ⟨rfl, by simp [State.upd, hconn]⟩
      · have htaken := hholder.symm.trans hx
        cases htaken
      · have hgiven := (congrArg Holder.given hholder).symm.trans hx
        cases hgiven
      · exact ⟨fun e => absurd e (others x hx), fun _ => List.mem_of_mem_erase hx⟩
    · cases hs
      obtain ⟨ok, owners⟩ := hg.release ht rfl
      have howners := owners s
      simp only [Item.due, if_pos] at howners
      have hzero : (releaseConn ((st.conn c).take (.addConnect s))).owners s = 0 := by omega
      refine h.assign (s := s) rfl h.nodup (fun _ _ => Iff.rfl) ok rfl
        (fun x hx => updSession_other _ hx _) (.inr hconn) (by simp [hcall]) (fun c' hc' => ?_)
        (fun x hx => ?_) (.inl ?_) (by simp) (fun ret hret => .inr ?_)
        (fun x hx => ?_) (fun x hx => ?_) (fun x hx => ?_)
      · rw [hcall] at hc'
        exact (Call.adding.inj hc').symm
      · have hx' := owners x
        simp only [Item.due, if_neg (Ne.symm hx)] at hx'
        exact hx'
      · rw [updSession_self]
        exact ⟨rfl, by omega, hzero⟩
      · rw [updSession_self] at hret ⊢
        cases hret
        exact ⟨rfl, rfl⟩
      · have htaken := hholder.symm.trans hx
        cases htaken
      · have hgiven := (congrArg Holder.given hholder).symm.trans hx
        cases hgiven
      · exact ⟨fun e => absurd e (others x hx), fun _ => List.mem_of_mem_erase hx⟩
  · cases hs

end Requests

/-! ## The handler threads -/

section Handlers

variable {t t' : Task S} {g : Stage}

omit [DecidableEq C] in
/-- What adds a new entry was there before. -/
theorem addConnect_swap {k : Conn S} {u : Task S} (hnew : u ≠ .addConnect s)
    (hs : .addConnect s ∈ ((k.take t).put u).tasks) : .addConnect s ∈ k.tasks :=
  (mem_swap hs).resolve_right hnew.symm

/-- A task takes the place of another and starts no operation. -/
theorem StateOk.swap (h : StateOk st)
    (hk : Kept (c ∈ st.idleList) g (st.conn c) (((st.conn c).take t).put t'))
    (hbegun : t'.begun = none) : StateOk (st.upd c fun k => (k.take t).put t') :=
  h.upd hk rfl fun _ => addConnect_swap fun e => by
    rw [e] at hbegun
    cases hbegun

/-- The operation of an entry that is not on the idle list ends. -/
theorem StateOk.over (h : StateOk st) (hg : ConnOk (c ∈ st.idleList) g (st.conn c))
    (ht : t ∈ (st.conn c).tasks) {op : Op} (hrole : t.role = .operation op)
    (hconnect : g ≠ .connecting) (hsuccess : g.successes = 0) (hidle : g ≠ .idle)
    (hfree : g ≠ .requested)
    (hrole' : t'.role = .sync ∨ t'.role = .decref ∧ (st.conn c).holder = .none)
    (hbegun : t'.begun = none)
    (hdue : ∀ s, Item.due (st.conn c).session s (.task t') =
      Item.due (st.conn c).session s (.task t) +
        if (st.conn c).session = some s ∧ g = .waiting then 1 else 0) :
    StateOk (st.upd c fun k => (k.take t).put t') := by
  have hk := hg.over ht hrole hconnect hsuccess hfree hrole' hbegun hdue
  have off : (c ∈ st.idleList) = False := eq_false (hg.stage.off hidle)
  rw [← off] at hk
  exact h.swap hk hbegun

/-- The section of `handle_incoming_reply` for a terminal result. -/
theorem StateOk.handleIncomingReplyEnd (h : StateOk st) {res : PrState × Errno}
    (ht : .result .read res.1 res.2 ∈ (st.conn c).tasks) (hres : res.1.terminal = true)
    (hholder : (st.conn c).holder = .none) :
    StateOk (handleIncomingReplyEnd (st.upd c (Conn.take (.result .read res.1 res.2))) c res) := by
  obtain ⟨g, hg⟩ := h.get (c := c) fun e => by rw [e] at ht; cases ht
  have hrole : Task.role (.result .read res.1 res.2 : Task S) = .operation .read := if_pos hres
  have hread : 0 < (st.conn c).count (.operation .read) := by
    rw [hg.stage.count, Stage.count, if_pos (hg.has ht hrole)]
    exact Nat.one_pos
  have hstage := hg.stage.reading hread
  have hzero : ∀ s, Item.due (st.conn c).session s (.task (.result .read res.1 res.2)) = 0 :=
    fun s => (due_result hres).trans (by simp [Item.due, Item.role, Role.due])
  -- a session that waits is handled
  have waits : ∀ x : CsState × Errno, g = .waiting → StateOk (st.upd c fun k =>
      (k.take (.result .read res.1 res.2)).put (replyTask (st.conn c).session x)) := by
    rintro x rfl
    obtain ⟨s, hs⟩ := Option.isSome_iff_exists.mp hg.session
    rw [hs]
    refine h.over hg ht hrole (by simp) rfl (by simp) (by simp) (.inr ⟨rfl, hholder⟩) rfl
      fun s' => ?_
    rw [hzero]
    simp [Item.due, hs, replyTask]
  simp only [Client.handleIncomingReplyEnd, upd_conn]
  cases hstate : (st.conn c).state with
  | idle =>
    rw [show (Conn.take _ (st.conn c)).state = _ from hstate]
    rw [hstate] at hstage
    obtain rfl : g = .idle := hstage.resolve_right fun e => by
      have hbusy := hg.stage.busy.mpr e
      rw [hholder] at hbusy
      cases hbusy
    have hk : Kept False .over (st.conn c) (((st.conn c).take _).put (.finish .decref)) :=
      hg.over ht hrole (by simp) rfl (by simp) (.inr ⟨rfl, hholder⟩) rfl fun s => by
        rw [hzero]
        simp [Item.due]
    have off : (c ∈ st.idleList.erase c) = False := eq_false (h.nodup.not_mem_erase)
    rw [← off] at hk
    refine h.edit (by simp [State.upd, Function.update_idem]) (h.nodup.erase c)
      (fun c' hc => List.mem_erase_of_ne hc) hk.ok (fun _ => ⟨rfl, rfl⟩) (fun _ => Nat.le_refl _)
      (fun s => by rw [hk.owners s]; rfl) (fun _ => id) (fun _ => id) fun s hs => ?_
    exact (mem_swap hs).resolve_right fun e => by cases e
  | error =>
    rw [show (Conn.take _ (st.conn c)).state = _ from hstate]
    rw [hstate] at hstage
    simp only [upd_upd]
    exact waits _ hstage
  | receiving =>
    rw [show (Conn.take _ (st.conn c)).state = _ from hstate]
    rw [hstate] at hstage
    simp only [upd_upd]
    exact waits _ hstage
  | success =>
    rw [show (Conn.take _ (st.conn c)).state = _ from hstate]
    rw [hstate] at hstage
    obtain rfl : g = .replied := hstage
    simp only [upd_upd]
    exact h.upd (hg.overtaken ht hrole hzero hholder) rfl fun s hs => List.mem_of_mem_erase hs
  | closing =>
    rw [show (Conn.take _ (st.conn c)).state = _ from hstate]
    rw [hstate] at hstage
    obtain rfl : g = .closing := hstage
    simp only [upd_upd]
    exact h.over hg ht hrole (by simp) rfl (by simp) (by simp) (.inr ⟨rfl, hholder⟩) rfl
      fun s => by rw [hzero]; simp [Item.due]
  | _ =>
    rw [hstate] at hstage
    exact hstage.elim

/-- `handle_read_result` drops what does not end the operation. -/
theorem StateOk.handleReadResult (h : StateOk st) {res : PrState × Errno}
    (hs : handleReadResult st c res = some st') : StateOk st' := by
  simp only [Client.handleReadResult, upd_conn, upd_upd] at hs
  split at hs
  · next ht =>
    obtain ⟨g, hg⟩ := h.get (c := c) fun e => by rw [e] at ht; cases ht
    split at hs
    · next hres =>
      cases hs
      refine h.upd (hg.dropped ht (by simp [Task.role, hres, PrState.terminal]) fun s => ?_) rfl
        fun s hs => List.mem_of_mem_erase hs
      simp [Item.due, Item.role, Task.role, Role.due, hres, PrState.terminal]
    · next hres =>
      obtain ⟨s, hsession, rfl⟩ := Option.map_eq_some_iff.mp hs
      have hsession : (st.conn c).session = some s := hsession
      refine h.swap (hg.passed ht (by simp [Task.role, hres, PrState.terminal]) (fun x => ?_) rfl) rfl
      simp [Item.due, Item.role, Task.role, Role.due, hres, PrState.terminal, hsession]
    · next hmodified hsuccess =>
      split at hs
      · next hholder =>
        cases hs
        refine h.handleIncomingReplyEnd ht ?_ hholder
        cases hstate : res.1 <;> simp_all [PrState.terminal]
      · cases hs
  · cases hs

/-- The section of `handle_incoming_reply` decides between the idle list and the release. -/
theorem StateOk.handleIncomingReply (h : StateOk st) {error : Errno}
    (hs : handleIncomingReply st c s error = some st') : StateOk st' := by
  simp only [Client.handleIncomingReply, upd_conn, upd_upd] at hs
  split at hs
  · next ht =>
    obtain ⟨g, hg⟩ := h.get (c := c) fun e => by rw [e] at ht; cases ht
    have hsuccess : 0 < (st.conn c).successes :=
      Nat.add_pos_left (count_pos (Conn.mem_task.mpr ht)) _
    split at hs
    · next hstate =>
      have hstate : (st.conn c).state = .success := hstate
      obtain ⟨rfl, -⟩ := (hg.stage.success hsuccess).resolve_right fun hover => by
        rw [hover.2] at hstate
        cases hstate
      have hoff : c ∉ st.idleList := hg.stage.off (by simp)
      split at hs
      · cases hs
        have hk := hg.succeeded ht (.inl ⟨rfl, rfl⟩)
        rw [show (Stage.idle = .idle) = (c ∈ c :: st.idleList) by simp] at hk
        refine h.edit ?_ (List.nodup_cons.mpr ⟨hoff, h.nodup⟩)
          (fun c' hc => List.mem_cons.trans (or_iff_right hc)) hk.ok (fun _ => ⟨rfl, rfl⟩) (fun _ => Nat.le_refl _)
          (fun x => by rw [hk.owners x]; rfl) (fun _ => id) (fun _ => id)
          fun x => addConnect_swap (u := .handle s .success error .decref) (by simp)
        simp [State.upd, Function.update_idem]
        rfl
      · cases hs
        have hk := hg.succeeded ht (.inr ⟨rfl, rfl⟩)
        rw [show (Stage.closing = .idle) = (c ∈ st.idleList) by simp [hoff]] at hk
        rw [upd_upd]
        exact h.upd hk rfl fun x => addConnect_swap (u := .handle s .success error .decref) (by simp)
    · next hstate =>
      cases hs
      obtain ⟨rfl, -⟩ := (hg.stage.success hsuccess).resolve_left fun hreplied =>
        hstate hreplied.2
      rw [upd_upd]
      exact h.swap (hg.last ht) rfl
  · cases hs

/-- The thread that writes the request ends its work with the session's `handle()`. -/
theorem StateOk.writeEnds (h : StateOk st) (ht : t ∈ (st.conn c).tasks)
    (hrole : t.role = .operation .write)
    (hdue : ∀ x, Item.due (st.conn c).session x (.task t) = if s = x then 1 else 0)
    (state : CsState) (error : Errno) :
    StateOk (st.upd c fun k => (k.take t).put (.handle s state error .sync)) := by
  obtain ⟨g, hg⟩ := h.get (c := c) fun e => by rw [e] at ht; cases ht
  obtain rfl := Stage.writing_of (hg.has ht hrole)
  exact h.over hg ht hrole (by simp) rfl (by simp) (by simp) (.inl rfl) rfl fun x => by
    rw [hdue]
    simp [Item.due]

/-- The request is sent: the entry waits for its reply, or is given up. -/
theorem StateOk.handleRequestResult (h : StateOk st) {res : PrState × Errno}
    (hs : handleRequestResult st c res = some st') : StateOk st' := by
  simp only [Client.handleRequestResult, upd_conn, upd_upd] at hs
  split at hs
  · next ht =>
    obtain ⟨g, hg⟩ := h.get (c := c) fun e => by rw [e] at ht; cases ht
    obtain ⟨s, hsession, rfl⟩ := Option.map_eq_some_iff.mp hs
    have hsession : (st.conn c).session = some s := hsession
    have hdue : res.1.terminal = true → ∀ x, Item.due (st.conn c).session x
        (.task (.result .write res.1 res.2)) = if s = x then 1 else 0 := fun hres x => by
      rw [due_result hres]
      simp [Item.due, Item.role, Role.due, hsession]
    have ends : ∀ x : CsState × Errno, res.1.terminal = true → StateOk (st.upd c fun k =>
        (k.take (.result .write res.1 res.2)).put (.handle s x.1 x.2 .sync)) := fun x hres =>
      h.writeEnds ht (role_result hres) (hdue hres) x.1 x.2
    split
    · next hres =>
      have hterminal : res.1.terminal = true := by rw [hres]; rfl
      exact h.upd (hg.begin ht (by simp) (role_result hterminal) hsession (hdue hterminal)) rfl
        fun x => addConnect_swap (u := .addRead s .sync) (by simp)
    · next hres => exact ends _ (by rw [hres]; rfl)
    · next hres => exact ends _ (by rw [hres]; rfl)
    · next hres => exact ends _ (by rw [hres]; rfl)
    · next hfinished herror hdeleted hstopped =>
      have hterminal := (hg.reads ht).resolve_right (by simp)
      cases hr : res.1 <;> simp_all [PrState.terminal]
  · cases hs

/-- The connection stands: the request is sent on it, or it is given up. -/
theorem StateOk.handleConnectResult (h : StateOk st) {res : PrState × Errno} {o : Sent}
    (hs : handleConnectResult st c res o = some st') : StateOk st' := by
  simp only [Client.handleConnectResult, upd_conn, upd_upd] at hs
  split at hs
  · next ht =>
    obtain ⟨g, hg⟩ := h.get (c := c) fun e => by rw [e] at ht; cases ht
    split at hs
    · cases hs
    · next s hsession =>
      have hsession : (st.conn c).session = some s := hsession
      have hdue : res.1.terminal = true → ∀ x, Item.due (st.conn c).session x
          (.task (.result .connect res.1 res.2)) = if s = x then 1 else 0 := fun hres x => by
        rw [due_result hres]
        simp [Item.due, Item.role, Role.due, hsession]
      have ends : ∀ x : CsState × Errno, res.1.terminal = true → StateOk (st.upd c fun k =>
          (k.take (.result .connect res.1 res.2)).put (.handle s x.1 x.2 .release)) := fun x hres =>
        h.swap (hg.passed ht (role_result hres).symm (fun y => (hdue hres y).symm) rfl) rfl
      split at hs
      · next hres =>
        have hterminal : res.1.terminal = true := by rw [hres]; rfl
        have hrole : Task.role (.result .connect res.1 res.2 : Task S) = .operation .connect :=
          role_result hterminal
        obtain rfl := Stage.connecting_of (hg.has ht hrole)
        obtain ⟨x, hsend, rfl⟩ := Option.map_eq_some_iff.mp hs
        cases o with
        | sync =>
          cases hsend
          have hbegin : Task.role (.result .connect res.1 res.2) = .operation Rest.release.op := hrole
          exact h.upd (hg.begin ht (by simp) hbegin hsession (hdue hterminal)) rfl
            fun x => addConnect_swap (u := .addRead s .release) (by simp)
        | async =>
          have hstate := hg.stage.state
          have hidle : (st.conn c).state ≠ .idle := fun e => by
            rw [e] at hstate
            cases hstate
          have hwriting : Stage.writing.allows (st.conn c).state = true := by
            cases hk : (st.conn c).state <;> simp_all [Stage.allows]
          obtain ⟨hreg, rfl⟩ := sendMessage_new (k := Conn.take _ (st.conn c)) hidle hsend
          exact h.upd (hg.operates ht hrole (by simp) hreg (.inl ⟨rfl, rfl⟩) hwriting hsession
            (hdue hterminal)) rfl fun x hx => List.mem_of_mem_erase hx
        | fail error =>
          cases hsend
          exact ends (.error, error) hterminal
      · next hres => cases hs; exact ends _ (by rw [hres]; rfl)
      · next hres => cases hs; exact ends _ (by rw [hres]; rfl)
      · next hres => cases hs; exact ends _ (by rw [hres]; rfl)
      · next hfinished herror hdeleted hstopped =>
        have hterminal := (hg.reads ht).resolve_right (by simp)
        cases hr : res.1 <;> simp_all [PrState.terminal]
  · cases hs

/-- The read operation is registered behind the mutex, or refused. -/
theorem StateOk.addRead (h : StateOk st) {rest : Rest} {accepted : Bool} {error : Errno}
    (hs : addRead st c s rest accepted error = some st') : StateOk st' := by
  simp only [Client.addRead, upd_conn, upd_upd] at hs
  split at hs
  · next ht =>
    obtain ⟨g, hg⟩ := h.get (c := c) fun e => by rw [e] at ht; cases ht
    obtain ⟨hstate, hrest⟩ := hg.adding s rest ht
    split at hs
    · next hguard =>
      cases hs
      refine h.upd (hg.operates ht rfl (by cases rest <;> simp [Rest.op])
        hguard.2 (.inr ⟨rfl, rfl⟩) (by rw [hstate]; rfl) (hg.begun _ ht s rfl) fun _ => rfl) rfl
        fun x hx => List.mem_of_mem_erase hx
    · cases hs
      cases rest with
      | sync => exact h.writeEnds ht rfl (fun _ => rfl) .error error
      | decref => exact absurd rfl hrest
      | release => exact h.swap (hg.passed ht rfl (fun _ => rfl) rfl) rfl
  · cases hs

/-- A handler makes the one call of `handle()` that it owes the session. -/
theorem StateOk.handle (h : StateOk st) {res : CsState × Errno} {rest : Rest}
    (hs : handle st c s res rest = some st') : StateOk st' := by
  simp only [Client.handle] at hs
  split at hs
  · next ht =>
    cases hs
    obtain ⟨g, hg⟩ := h.get (c := c) fun e => by rw [e] at ht; cases ht
    obtain ⟨ok, owners⟩ := hg.handle ht
    have handles : ∀ x, (st.handled ++ [(s, res)]).countP (fun y => y.1 = x) =
        st.handles x + if s = x then 1 else 0 := fun x => by
      simp [State.handles, List.countP_append, List.countP_singleton]
    refine h.edit rfl h.nodup (fun _ _ => Iff.rfl) ok (fun _ => ⟨rfl, rfl⟩) (fun x => ?_)
      (fun x => ?_) (fun _ => id) (fun _ => id) fun x =>
        addConnect_swap (u := .finish rest) (by simp)
    · exact (Nat.le_add_right _ _).trans_eq (handles x).symm
    · have howners := owners x
      change (st.handled ++ [(s, res)]).countP _ + Conn.owners (Conn.put _ _) x = _
      rw [handles]
      omega
  · cases hs

/-- A handler is done with an entry, and releases it if that is left to do. -/
theorem StateOk.finish (h : StateOk st) {rest : Rest} (hs : finish st c rest = some st') :
    StateOk st' := by
  simp only [Client.finish, upd_conn, upd_upd] at hs
  split at hs
  · next ht =>
    obtain ⟨g, hg⟩ := h.get (c := c) fun e => by rw [e] at ht; cases ht
    cases rest with
    | sync =>
      simp only at hs
      split at hs
      · next hholder =>
        cases hs
        exact h.swap (hg.synced ht hholder) rfl
      · cases hs
    | decref =>
      cases hs
      refine h.upd (hg.decref ht) ?_ ?_
      · split <;> rfl
      · split <;> exact fun x hx => List.mem_of_mem_erase hx
    | release =>
      cases hs
      obtain ⟨ok, owners⟩ := hg.release ht rfl
      exact h.upd ⟨ok, owners⟩ rfl fun x hx => List.mem_of_mem_erase hx
  · cases hs

end Handlers

/-! ## Every run -/

section Runs

/-- Every step keeps the account of every session. -/
theorem StateOk.step (h : StateOk st) : ∀ {l : Label S C}, step st l = some st' → StateOk st'
  | .pollRead _, hs => h.pollRead hs
  | .readAgain _, hs => h.readAgain hs
  | .createReply _, hs => h.createReply hs
  | .createReplyLocked _, hs => h.createReplyLocked hs
  | .createReplySession _ _ _, hs => h.createReplySession hs
  | .appendMessageDone _ _, hs => h.appendMessageDone hs
  | .callback _, hs => h.callback hs
  | .readEnds _ _, hs => h.readEnds hs
  | .readFails _, hs => h.readFails hs
  | .pollEnds _ _, hs => h.pollEnds hs
  | .handlePipe _, hs => h.handlePipe hs
  | .mpollerDel c, hs => Option.some.inj hs ▸ h.mpollerDel c
  | .request _ _, hs => h.request hs
  | .requestIdleConn _, hs => h.requestIdleConn hs
  | .requestIdleConnTimeout _, hs => h.requestIdleConnTimeout hs
  | .requestIdleConnSend _ _, hs => h.requestIdleConnSend hs
  | .requestIdleConnError _, hs => h.requestIdleConnError hs
  | .requestIdleConnLeave _, hs => h.requestIdleConnLeave hs
  | .launchConn _ _, hs => h.launchConn hs
  | .requestNewConn _ _ _, hs => h.requestNewConn hs
  | .handleReadResult _ _, hs => h.handleReadResult hs
  | .handleIncomingReply _ _ _, hs => h.handleIncomingReply hs
  | .handleRequestResult _ _, hs => h.handleRequestResult hs
  | .handleConnectResult _ _ _, hs => h.handleConnectResult hs
  | .addRead _ _ _ _ _, hs => h.addRead hs
  | .handle _ _ _ _, hs => h.handle hs
  | .finish _ _, hs => h.finish hs

end Runs

end WorkflowKernel.Communicator.Client
