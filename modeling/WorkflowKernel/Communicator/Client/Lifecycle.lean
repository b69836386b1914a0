import WorkflowKernel.Communicator.Client.Memory

/-!
# The lifecycle of a client session

## What is proved

- `lifecycle`: in every run on the links a session is handled at most once, exactly once if its request
  was accepted and its connection is quiet, and never if `request` failed; an entry is released at
  most once, exactly once if it is quiet, and nobody has it afterwards.
- `idle_reusable`: an entry on the idle list can be given another session.
-/

namespace WorkflowKernel.Communicator.Client

open WorkflowKernel.Lib.Exchange WorkflowKernel.Transition
open WorkflowKernel.ListHead

variable {S C : Type} [DecidableEq S] [DecidableEq C] {L : ListLib (Cell C)} {m : Memory S C}
  {st : State S C} {c : C} {s : S}

/-- No registration, result, handler or call of `request` of the entry is outstanding. -/
def Conn.quiet (k : Conn S) : Prop :=
  k.reg = none ∧ k.pipe = [] ∧ k.tasks = [] ∧ k.phase = .out ∧ k.holder = .none

instance (k : Conn S) : Decidable k.quiet := inferInstanceAs (Decidable (_ ∧ _ ∧ _ ∧ _ ∧ _))

omit [DecidableEq S] in
theorem Conn.quiet.items {k : Conn S} (h : k.quiet) : k.items = [] := by
  obtain ⟨hreg, hpipe, htasks, -⟩ := h
  simp [Conn.items, hreg, hpipe, htasks]

/-- Nothing is left to call `handle()`. -/
theorem Conn.quiet.owners {k : Conn S} (h : k.quiet) (s : S) : k.owners s = 0 := by
  simp [Conn.owners, Conn.count, h.items, h.2.2.2.1]

omit [DecidableEq S] in
/-- The entry's last reference is gone. -/
theorem ConnOk.gone {on : Prop} {g : Stage} {k : Conn S} (h : ConnOk on g k)
    (hreleased : k.released ≠ 0) : g = .over ∧ k.tails = 0 := by
  obtain ⟨-, hrefs⟩ := h.ref.resolve_left fun hzero => hreleased hzero.1
  refine ⟨?_, by omega⟩
  cases g <;> simp_all [Stage.refs]

omit [DecidableEq S] in
/-- What is left of an entry that is released stands for nothing. -/
theorem ConnOk.leftover {on : Prop} {g : Stage} {k : Conn S} (h : ConnOk on g k)
    (hreleased : k.released ≠ 0) {i : Item S} (hi : i ∈ k.items) : i.role = .nothing := by
  obtain ⟨rfl, htails⟩ := h.gone hreleased
  have hpos := count_pos hi
  have hsuccess := (h.stage.notDone rfl).1
  have hoperation := h.stage.count
  have hstray := h.stray
  rw [Conn.tails] at htails
  cases hrole : i.role with
  | operation op => simp_all [Stage.count, Stage.operation]
  | nothing => rfl
  | _ => simp_all

omit [DecidableEq S] in
/-- A launched entry that becomes quiet is released. -/
theorem ConnOk.settled {on : Prop} {g : Stage} {k : Conn S} (h : ConnOk on g k)
    (hquiet : k.quiet) : k.released = 1 := by
  have hzero : ∀ r, k.count r = 0 := fun r => by rw [Conn.count, hquiet.items]; rfl
  have hover : g = .over := by
    have hoperation := h.stage.count
    have hsuccess := h.stage.successes
    simp only [Conn.successes, hzero, hquiet.2.2.2.1] at hoperation hsuccess
    cases g <;> simp_all [Stage.count, Stage.operation, Stage.successes]
  refine (h.ref.resolve_left fun hheld => ?_).1
  simp [Conn.tails, hzero, hover, Stage.refs] at hheld

/-- Nobody has the entry any more. What is left of it are the results of replaced read operations,
which `handle_read_result` drops without a look at the entry. -/
structure Conn.Left (k : Conn S) : Prop where
  reg : k.reg = none
  phase : k.phase = .out
  holder : k.holder = .none
  pipe : ∀ p ∈ k.pipe, p = (.read, .modified)
  tasks : ∀ t ∈ k.tasks, ∃ error, t = .result .read .modified error

omit [DecidableEq S] in
/-- Nobody has an entry that is released. -/
theorem ConnOk.unused {on : Prop} {g : Stage} {k : Conn S} (h : ConnOk on g k)
    (hreleased : k.released ≠ 0) : ¬ on ∧ k.Left := by
  obtain ⟨rfl, htails⟩ := h.gone hreleased
  have hpolled : ∀ op, k.polled op = 0 := fun op =>
    Nat.le_zero.mp ((k.polled_le op).trans_eq (h.stage.count op))
  refine ⟨h.stage.off (by simp), ?_, ?_, ?_, fun p hp => ?_, fun t ht => ?_⟩
  · cases hreg : k.reg with
    | none => rfl
    | some op => cases h.leftover hreleased (i := .registered op) (by simp [Conn.items, hreg])
  · by_contra hne
    rcases h.phase hne with hread | ⟨hwrite, -⟩
    · rw [hpolled] at hread
      cases hread
    · rw [hpolled] at hwrite
      cases hwrite
  · by_contra hne
    have hheld := h.held hne
    simp [Stage.count, Stage.operation] at hheld
    rw [Conn.tails] at htails
    omega
  · have hrole := h.leftover hreleased (i := .removed p.1 p.2)
      (List.mem_append_left _ (List.mem_append_right _ (List.mem_map_of_mem hp)))
    rcases h.ends hp with hterminal | ⟨hop, hstate⟩
    · rw [Item.role, if_pos hterminal] at hrole
      cases hrole
    · exact Prod.ext hop hstate
  · have hrole : t.role = .nothing := h.leftover hreleased (Conn.mem_task.mpr ht)
    cases t with
    | result op state error =>
      cases op <;> cases state <;> simp_all [Task.role, PrState.terminal]
    | addRead s rest => cases rest <;> cases hrole
    | handle s state error rest => cases rest <;> cases hrole
    | finish rest => cases rest <;> cases hrole
    | _ => cases hrole

/-! ## Results -/

/-- The poller thread reads a reply. -/
def replyRun (c : Nat) (timeout : Int) : List (Label Nat Nat) :=
  [.pollRead c, .createReply c, .createReplySession c true 0, .appendMessageDone c timeout,
    .callback c, .readAgain c]

/-- A connection is kept alive after its first reply. -/
def keptRun : List (Label Nat Nat) :=
  [.request 0 false, .requestIdleConn 0, .launchConn 0 (some 7), .requestNewConn 0 7 true,
    .pollEnds 7 (.finished, 0), .handleConnectResult 7 (.finished, 0) .sync,
    .addRead 7 0 .release true 0] ++ replyRun 7 1000 ++
  [.handleReadResult 7 (.success, 0), .handleIncomingReply 7 0 0]

/-- It is taken for a second session, whose reply closes it and is handled after the end of the
connection. A third request is refused. -/
def reusedRun : List (Label Nat Nat) :=
  keptRun ++
  [.request 1 false, .requestIdleConn 1, .requestIdleConnTimeout 7, .requestIdleConnSend 7 .async,
    .handle 7 0 (.success, 0) .decref, .finish 7 .decref, .requestIdleConnLeave 7,
    .pollEnds 7 (.finished, 0), .handleRequestResult 7 (.finished, 0),
    .addRead 7 1 .sync true 0] ++ replyRun 7 0 ++
  [.handlePipe 7, .handlePipe 7, .handleReadResult 7 (.deleted, 0),
    .handleReadResult 7 (.success, 0), .handleIncomingReply 7 1 0,
    .handle 7 1 (.success, 0) .decref, .finish 7 .decref, .request 2 true]

/-- The calls of `handle()` of a session. -/
structure HandledOnce (st : State S C) (s : S) : Prop where
  atMost : st.handles s ≤ 1
  returns : ∀ ret, (st.session s).call = .returned ret → ret = 0 ∨ ret = -1
  accepted : (st.session s).call = .returned 0 →
    ∃ c, (st.session s).conn = some c ∧ ((st.conn c).quiet → st.handles s = 1)
  refused : (st.session s).call = .returned (-1) → st.handles s = 0

/-- The releases of an entry. -/
structure ReleasedOnce (m : Memory S C) (c : C) : Prop where
  atMost : (m.state.conn c).released ≤ 1
  /-- A quiet entry is not on the idle list: the read operation of one that is has not ended. -/
  settled : (m.state.conn c).launched = true → (m.state.conn c).quiet →
    (m.state.conn c).released = 1
  unlisted : (m.state.conn c).released = 1 → ¬ m.Lists c
  left : (m.state.conn c).released = 1 → (m.state.conn c).Left

structure Lifecycle (m : Memory S C) : Prop where
  sessions : ∀ s, HandledOnce m.state s
  entries : ∀ c, ReleasedOnce m c
  defined : m.undefined = false

omit [DecidableEq C] in
theorem StateOk.handledOnce (h : StateOk st) (s : S) : HandledOnce st s where
  atMost := by
    cases hconn : (st.session s).conn with
    | none => exact (h.never s hconn).trans_le (Nat.zero_le 1)
    | some c => exact (Nat.le_add_right _ _).trans_eq (h.once s c hconn)
  returns ret hret := (h.returned s ret hret).imp And.left And.left
  accepted hret := by
    obtain ⟨-, hsome⟩ := (h.returned s 0 hret).resolve_right (by simp)
    obtain ⟨c, hconn⟩ := Option.isSome_iff_exists.mp hsome
    refine ⟨c, hconn, fun hquiet => ?_⟩
    have hone := h.once s c hconn
    rw [hquiet.owners, Nat.add_zero] at hone
    exact hone
  refused hret := by
    obtain ⟨-, hnone⟩ := (h.returned s (-1) hret).resolve_left (by simp)
    exact h.never s hnone

omit [DecidableEq C] in
theorem Mirrored.releasedOnce (h : Mirrored m) (c : C) : ReleasedOnce m c := by
  rcases h.ok.conn c with ⟨habsent, hoff⟩ | ⟨g, hg⟩
  · have hzero : (m.state.conn c).released = 0 := by rw [habsent]; rfl
    have hnot : (m.state.conn c).launched = false := by rw [habsent]; rfl
    constructor <;> simp [hzero, hnot]
  · constructor
    case atMost => rcases hg.ref with ⟨hzero, -⟩ | ⟨hone, -⟩ <;> omega
    case settled => exact fun _ hquiet => hg.settled hquiet
    case unlisted =>
      intro hone hlist
      exact (hg.unused (by omega)).1 (h.lists_iff.mp hlist)
    case left => exact fun hone => (hg.unused (by omega)).2

/-- Each session is handled and each entry released as they should be, in every run. -/
theorem lifecycle (h : (memory S C L).Reachable m) : Lifecycle m :=
  have hmirrored := mirrored.holds h
  ⟨hmirrored.ok.handledOnce, hmirrored.releasedOnce, hmirrored.defined⟩

/-- The second session on the connection is handled when that is quiet, a third is refused, and the
entry is released. -/
theorem lifecycle_reused : ∃ m, (memory Nat Nat .usual).Reachable m ∧
    (m.state.session 1).call = .returned 0 ∧ m.state.handles 1 = 1 ∧
    (m.state.session 2).call = .returned (-1) ∧ m.state.handles 2 = 0 ∧
    (m.state.conn 7).released = 1 ∧ ¬ m.Lists 7 := by
  have hrun : ((memory Nat Nat .usual).run Memory.start
      (reusedRun ++ [.handleReadResult 7 (.modified, 0)])).map
      (fun m => (decide (m.state.conn 7).quiet, (m.state.conn 7).released, m.state.session 1,
        (m.state.session 2).call)) =
        some (true, 1, ⟨.returned 0, some 7, 0⟩, .returned (-1)) := by decide +kernel
  obtain ⟨m, hm, heq⟩ := Option.map_eq_some_iff.mp hrun
  simp only [Prod.mk.injEq, decide_eq_true_eq] at heq
  obtain ⟨hquiet, hreleased, hone, htwo⟩ := heq
  have hreach := System.reachable_of_run (M := memory Nat Nat .usual) memory_start hm
  have hlife := lifecycle hreach
  have hcall : (m.state.session 1).call = .returned 0 := by rw [hone]
  obtain ⟨c, hconn, hhandled⟩ := (hlife.sessions 1).accepted hcall
  obtain rfl : 7 = c := by simpa [hone] using hconn
  exact ⟨m, hreach, hcall, hhandled hquiet, htwo, (hlife.sessions 2).refused htwo, hreleased,
    (hlife.entries 7).unlisted hreleased⟩

/-- An entry on the idle list is there once and alive, and its read operation is outstanding. A session
that it had before is handled, or a handler is about to do it. -/
theorem idle_reusable (h : (memory S C L).Reachable m) (hc : m.Lists c) :
    (∃ entries, Ring m.links .idle entries ∧ entries.count (.entry c) = 1) ∧
      (m.state.conn c).state = .idle ∧ (m.state.conn c).released = 0 ∧
      (m.state.conn c).count (.operation .read) = 1 ∧
      ∀ s, (m.state.session s).conn = some c → m.state.handles s = 1 ∨
        ∃ state error rest, .handle s state error rest ∈ (m.state.conn c).tasks := by
  have hmirrored := mirrored.holds h
  have ok := hmirrored.ok
  have hon := hmirrored.lists_iff.mp hc
  obtain ⟨g, hg⟩ := (ok.conn c).resolve_left fun habsent => habsent.2 hon
  obtain rfl : g = .idle := hg.stage.on.mp hon
  obtain ⟨hsuccess, hdone⟩ := hg.stage.notDone rfl
  have hinstalls := Holder.installs_of_free (hg.stage.free (by simp))
  refine ⟨⟨_, hmirrored.ring, ?_⟩, hg.stage.idle (.inl rfl), ?_, hg.stage.count .read,
    fun s hconn => ?_⟩
  · have hnodup := (List.nodup_cons.mp (nodup_cells ok.nodup)).2
    exact List.count_eq_one_of_mem hnodup (List.mem_map_of_mem hon)
  · exact (hg.ref.resolve_right fun hrefs => by simp [Stage.refs] at hrefs).1
  · by_contra hnot
    obtain ⟨hhandled, hhandler⟩ := not_or.mp hnot
    have hone := ok.once s c hconn
    have hzero : total (Item.due (m.state.conn c).session s) (m.state.conn c).items = 0 := by
      refine total_eq_zero fun i hi => by_contra fun hne => ?_
      have hrole := role_due (hg.stage.count .write) (hg.stage.count .connect) hsuccess hi
      obtain ⟨state, error, rest, rfl⟩ := due_handle hrole hne
      exact hhandler ⟨state, error, rest, Conn.mem_task.mp hi⟩
    rw [hg.owners, hzero, hinstalls] at hone
    simp [hdone] at hone
    exact hhandled hone

theorem idle_reusable_kept : ∃ m, (memory Nat Nat .usual).Reachable m ∧ m.Lists 7 ∧
    (m.state.conn 7).state = .idle ∧ (m.state.conn 7).released = 0 := by
  have hrun : ((memory Nat Nat .usual).run Memory.start keptRun).map (·.state.idleList) =
      some [7] := by decide +kernel
  obtain ⟨m, hm, hlist⟩ := Option.map_eq_some_iff.mp hrun
  have hreach := System.reachable_of_run (M := memory Nat Nat .usual) memory_start hm
  have hon : m.Lists 7 := (mirrored.holds hreach).lists_iff.mpr (by rw [hlist]; simp)
  obtain ⟨-, hstate, hreleased, -⟩ := idle_reusable hreach hon
  exact ⟨m, hreach, hon, hstate, hreleased⟩

end WorkflowKernel.Communicator.Client
