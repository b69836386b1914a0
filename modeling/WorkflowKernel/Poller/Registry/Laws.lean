import WorkflowKernel.Poller.Registry.Model

/-!
# One terminal result for each node

Each node has one owner at a time: the thread that will install it, the table, the pipe, or the
poller thread on its way to the callback. `removed`, the number of unlinks and the number of
terminal results tell which, so the owners exclude each other by these values. What breaks this is
the read of `removed` before the lock: a section of `__poller_remove_node` that acts on a stale 0
takes out a node that already sits in the pipe.

## What is proved

- `once_of_settled`: in every run in which that section finds `removed` as it was read, every node
  gets at most one terminal result and is unlinked at most once, and no step clears or deregisters
  another node.
- `stale_removed_frees_twice`: a run in which a stale read breaks all three.
-/

namespace WorkflowKernel.Poller.Registry

open WorkflowKernel.Transition
open WorkflowKernel.Communicator

/-- When the section of `__poller_remove_node` runs, `removed` is what was read before. -/
def settled (s : State) : Label → Bool
  | .pollerBody =>
    match s.poller with
    | .body n removed _ _ => (s.node n).removed == removed
    | _ => true
  | _ => true

/-! ## Owners -/

/-- Not yet installed, or in the table. -/
def Node.Fresh (k : Node) : Prop := k.removed = false ∧ k.unlinked = 0 ∧ k.terminal = 0

/-- Taken out by `poller_del` or `poller_mod`. -/
def Node.TakenOut (k : Node) : Prop := k.removed = true ∧ k.unlinked = 1 ∧ k.terminal = 0

/-- Taken out by `__poller_remove_node`. -/
def Node.Leaving (k : Node) : Prop := k.removed = false ∧ k.unlinked = 1 ∧ k.terminal = 0

/-- The node of a thread that is to be installed. -/
def ThreadPc.node : ThreadPc → Option NodeId
  | .lock (.add n) | .body (.add n) | .lock (.mod n) | .body (.mod n) => some n
  | _ => none

/-- The nodes whose events of this batch are not done. -/
def PollerPc.due : PollerPc → List NodeId
  | .events rest | .finish _ _ rest => rest.events
  | .read n _ rest | .lock n _ _ rest | .body n _ _ rest => n :: rest.events
  | _ => []

/-- The node on its way to the callback. -/
def PollerPc.leaving : PollerPc → Option NodeId
  | .finish n _ _ => some n
  | _ => none

/-- The nodes read from the pipe. -/
def PollerPc.fromPipe : PollerPc → List NodeId
  | .notify ns => ns
  | _ => []

def State.queue (s : State) : List NodeId := s.poller.fromPipe ++ s.pipe

structure Inv (s : State) : Prop where
  epoll : s.epoll = s.nodes
  registered : ∀ fd n, s.nodes fd = some n → (s.node n).Fresh ∧ (s.node n).fd = fd
  allocated : ∀ n, s.allocated ≤ n → (s.node n).Fresh ∧ ∀ fd, s.nodes fd ≠ some n
  held : ∀ t n, (s.thread t).node = some n →
    n < s.allocated ∧ (s.node n).Fresh ∧ ∀ fd, s.nodes fd ≠ some n
  holder : ∀ t u n, (s.thread t).node = some n → (s.thread u).node = some n → t = u
  queued : ∀ n ∈ s.queue, (s.node n).TakenOut
  queue_nodup : s.queue.Nodup
  due : ∀ n ∈ s.poller.due, (s.node n).removed = false → s.nodes (s.node n).fd = some n
  due_nodup : s.poller.due.Nodup
  leaving : ∀ n, s.poller.leaving = some n → (s.node n).Leaving
  once : ∀ n, (s.node n).terminal ≤ 1 ∧ (s.node n).unlinked ≤ 1
  foreign : s.foreign = []

theorem inv_started : Inv State.started where
  epoll := rfl
  registered := by intro fd n h; cases h
  allocated := by
    intro n _
    exact ⟨⟨rfl, rfl, rfl⟩, by intro fd h; cases h⟩
  held := by intro t n h; cases h
  holder := by intro t u n h; cases h
  queued := by intro n h; cases h
  queue_nodup := List.nodup_nil
  due := by intro n h; cases h
  due_nodup := List.nodup_nil
  leaving := by intro n h; cases h
  once := by intro n; exact ⟨Nat.zero_le 1, Nat.zero_le 1⟩
  foreign := rfl

/-! ## The sections -/

theorem strangers_self (n : NodeId) : strangers (some n) n = [] := by
  simp [strangers]

/-- The state after a node was taken out of the table for the pipe. -/
def State.afterTakeOut (s : State) (n : NodeId) (fd : Fd) (state : PrState) : State :=
  { s with
    node := Function.update s.node n
      { s.node n with
        inRbtree := false
        unlinked := (s.node n).unlinked + 1
        state := state
        removed := true }
    nodes := Function.update s.nodes fd none
    epoll := Function.update s.epoll fd none
    pipe := s.pipe ++ [n] }

theorem pollerDel_eq {s : State} (hinv : Inv s) {fd : Fd} {n : NodeId}
    (hn : s.nodes fd = some n) : pollerDel s fd = s.afterTakeOut n fd .deleted := by
  have he : s.epoll fd = some n := by rw [hinv.epoll, hn]
  simp only [pollerDel, hn, State.takeOut, State.deleteFd, State.unlink, State.clear,
    State.setNode, he, strangers_self, List.append_nil, Function.update_self,
    Function.update_idem, State.afterTakeOut]

theorem Inv.afterTakeOut {s : State} (hinv : Inv s) {fd : Fd} {n : NodeId} (state : PrState)
    (hn : s.nodes fd = some n) : Inv (s.afterTakeOut n fd state) := by
  obtain ⟨hepoll, hreg, halloc, hheld, hholder, hqueued, hqnodup, hdue, hdnodup, hleaving, honce,
    hforeign⟩ := hinv
  have hfresh := hreg fd n hn
  simp only [Node.Fresh, Node.TakenOut, Node.Leaving] at *
  constructor
  all_goals simp only [State.afterTakeOut, State.queue, Node.Fresh, Node.TakenOut, Node.Leaving,
    Function.update_apply] at *
  all_goals grind

/-- The state after a thread's new node was put into the table. -/
def State.afterInstall (s : State) (t : Tid) (n : NodeId) (inRbtree : Bool) : State :=
  { s with
    node := Function.update s.node n { s.node n with inRbtree := inRbtree }
    nodes := Function.update s.nodes (s.node n).fd (some n)
    epoll := Function.update s.epoll (s.node n).fd (some n)
    thread := Function.update s.thread t .idle }

theorem Inv.afterInstall {s : State} (hinv : Inv s) {t : Tid} {n : NodeId} (inRbtree : Bool)
    (hheld : (s.thread t).node = some n) (hfree : s.nodes (s.node n).fd = none) :
    Inv (s.afterInstall t n inRbtree) := by
  obtain ⟨hepoll, hreg, halloc, hheld', hholder, hqueued, hqnodup, hdue, hdnodup, hleaving, honce,
    hforeign⟩ := hinv
  have hfresh := hheld' t n hheld
  have hidle : ThreadPc.idle.node = none := rfl
  simp only [Node.Fresh, Node.TakenOut, Node.Leaving] at *
  constructor
  all_goals simp only [State.afterInstall, State.queue, Node.Fresh, Node.TakenOut, Node.Leaving,
    Function.update_apply] at *
  all_goals grind

/-- A thread whose pc changes and that holds no other node than before. -/
theorem Inv.goto {s : State} (hinv : Inv s) (t : Tid) (pc : ThreadPc) (m : Option Owner)
    (hnode : ∀ n, pc.node = some n → (s.thread t).node = some n) :
    Inv { s.goto t pc with mutex := m } := by
  obtain ⟨hepoll, hreg, halloc, hheld, hholder, hqueued, hqnodup, hdue, hdnodup, hleaving, honce,
    hforeign⟩ := hinv
  constructor
  case held =>
    intro u n hu
    simp only [State.goto, Function.update_apply] at hu
    split at hu
    · exact hheld t n (hnode n hu)
    · exact hheld u n hu
  case holder =>
    intro u v n hu hv
    simp only [State.goto, Function.update_apply] at hu hv
    apply hholder u v n
    · split at hu
      · next hut =>
        rw [hut]
        exact hnode n hu
      · exact hu
    · split at hv
      · next hvt =>
        rw [hvt]
        exact hnode n hv
      · exact hv
  all_goals assumption

/-- A thread allocates the node it will install. -/
theorem Inv.newNode {s : State} (hinv : Inv s) (t : Tid) (fd : Fd) (pc : ThreadPc)
    (hnode : pc.node = some s.allocated) : Inv ((s.newNode fd).goto t pc) := by
  obtain ⟨hepoll, hreg, halloc, hheld, hholder, hqueued, hqnodup, hdue, hdnodup, hleaving, honce,
    hforeign⟩ := hinv
  have hblank := halloc s.allocated (Nat.le_refl _)
  simp only [Node.Fresh, Node.TakenOut, Node.Leaving] at *
  constructor
  all_goals simp only [State.newNode, State.setNode, State.goto, Node.blank, State.queue,
    Node.Fresh, Node.TakenOut, Node.Leaving, Function.update_apply] at *
  all_goals grind

/-- The poller thread moves on with no new node to handle, and with none that it will free. -/
theorem Inv.moveOn {s : State} (hinv : Inv s) {before : PollerPc} (hpc : s.poller = before)
    (pc : PollerPc) (m : Option Owner) (hdue : pc.due.Sublist before.due)
    (hqueue : pc.fromPipe = before.fromPipe) (hleaving : pc.leaving = none) :
    Inv { s with poller := pc, mutex := m } := by
  subst hpc
  obtain ⟨hepoll, hreg, halloc, hheld, hholder, hqueued, hqnodup, hdue', hdnodup, hleaving', honce,
    hforeign⟩ := hinv
  simp only [State.queue] at *
  constructor
  all_goals simp only [State.queue, hqueue] at *
  case due => exact fun n hn => hdue' n (hdue.subset hn)
  case due_nodup => exact hdue.nodup hdnodup
  case leaving =>
    intro n hn
    rw [hleaving] at hn
    cases hn
  all_goals assumption

/-- What the section of `__poller_remove_node` leaves, when it acts on a node in the table. -/
def State.afterRemove (s : State) (n : NodeId) : State :=
  { s with
    node := Function.update s.node n
      { s.node n with inRbtree := false, unlinked := (s.node n).unlinked + 1 }
    nodes := Function.update s.nodes (s.node n).fd none
    epoll := Function.update s.epoll (s.node n).fd none }

theorem pollerRemoveNode_eq {s : State} (hinv : Inv s) {n : NodeId}
    (hn : s.nodes (s.node n).fd = some n) : pollerRemoveNode s n false = s.afterRemove n := by
  have he : s.epoll (s.node n).fd = some n := by rw [hinv.epoll, hn]
  simp only [pollerRemoveNode, Bool.false_eq_true, if_false, State.deleteFd, State.unlink,
    State.clear, State.setNode, hn, he, strangers_self, List.append_nil, State.afterRemove]

theorem Inv.afterRemove {s : State} (hinv : Inv s) {n : NodeId} {r : PrState} {rest : Batch}
    (hn : s.nodes (s.node n).fd = some n) (hdue : s.poller.due = n :: rest.events)
    (hqueue : s.poller.fromPipe = []) :
    Inv { s.afterRemove n with poller := .finish n r rest, mutex := none } := by
  obtain ⟨hepoll, hreg, halloc, hheld, hholder, hqueued, hqnodup, hdue', hdnodup, hleaving, honce,
    hforeign⟩ := hinv
  have hfresh := hreg _ n hn
  rw [hdue] at hdnodup
  have hout := List.nodup_cons.mp hdnodup
  simp only [Node.Fresh, Node.TakenOut, Node.Leaving] at *
  constructor
  all_goals simp only [State.afterRemove, State.queue, Node.Fresh, Node.TakenOut, Node.Leaving,
    Function.update_apply, PollerPc.due, PollerPc.leaving, PollerPc.fromPipe] at *
  all_goals grind

/-- The callback of `__poller_handle_*` gets the node that left. -/
theorem Inv.finish {s : State} (hinv : Inv s) {n : NodeId} {r : PrState} {rest : Batch}
    (hpc : s.poller = .finish n r rest) :
    Inv { (s.setNode n fun k => { k with state := r }).callback n with poller := .events rest } := by
  obtain ⟨hepoll, hreg, halloc, hheld, hholder, hqueued, hqnodup, hdue, hdnodup, hleaving, honce,
    hforeign⟩ := hinv
  have hleft := hleaving n (by rw [hpc]; rfl)
  simp only [Node.Fresh, Node.TakenOut, Node.Leaving] at *
  constructor
  all_goals simp only [State.callback, State.setNode, State.queue, Node.Fresh, Node.TakenOut,
    Node.Leaving, Function.update_apply, PollerPc.due, PollerPc.leaving, PollerPc.fromPipe, hpc] at *
  all_goals grind

/-- The callback of `__poller_handle_pipe` gets the next node read from the pipe. -/
theorem Inv.notify {s : State} (hinv : Inv s) {n : NodeId} {ns : List NodeId}
    (hpc : s.poller = .notify (n :: ns)) :
    Inv { s.callback n with poller := .notify ns } := by
  obtain ⟨hepoll, hreg, halloc, hheld, hholder, hqueued, hqnodup, hdue, hdnodup, hleaving, honce,
    hforeign⟩ := hinv
  simp only [Node.Fresh, Node.TakenOut, Node.Leaving] at *
  constructor
  all_goals simp only [State.callback, State.setNode, State.queue, Node.Fresh, Node.TakenOut,
    Node.Leaving, Function.update_apply, PollerPc.due, PollerPc.leaving, PollerPc.fromPipe, hpc] at *
  all_goals grind

/-- The pipe is read: the nodes stay in the queue. -/
theorem Inv.readPipe {s : State} (hinv : Inv s) (k : Nat) (hpc : s.poller = .pipe) :
    Inv { s with poller := .notify (s.pipe.take k), pipe := s.pipe.drop k } := by
  obtain ⟨hepoll, hreg, halloc, hheld, hholder, hqueued, hqnodup, hdue, hdnodup, hleaving, honce,
    hforeign⟩ := hinv
  simp only [State.queue, hpc, PollerPc.fromPipe, List.nil_append] at hqueued hqnodup
  constructor
  all_goals simp only [State.queue, PollerPc.due, PollerPc.leaving, PollerPc.fromPipe,
    List.take_append_drop] at *
  all_goals grind

/-! ## Every step -/

section Steps

variable {s : State} {t : Tid}

/-- No invariant looks at the mutex. -/
theorem Inv.unlock (hinv : Inv s) (m : Option Owner) : Inv { s with mutex := m } := by
  obtain ⟨hepoll, hreg, halloc, hheld, hholder, hqueued, hqnodup, hdue, hdnodup, hleaving, honce,
    hforeign⟩ := hinv
  constructor
  all_goals assumption

/-- A call that fails leaves the table and the nodes as they are. -/
theorem Inv.giveUp (hinv : Inv s) (t : Tid) : Inv { s.goto t .idle with mutex := none } := by
  apply hinv.goto
  intro n hn
  cases hn

theorem pollerAdd_eq {n : NodeId} (inRbtree : Bool) (hfree : s.nodes (s.node n).fd = none) :
    (pollerAdd s n inRbtree true).goto t .idle = s.afterInstall t n inRbtree := by
  simp only [pollerAdd, hfree, if_true, State.install, State.setNode, State.goto,
    Function.update_self, State.afterInstall]

theorem Inv.pollerAdd (hinv : Inv s) {n : NodeId} (inRbtree ok : Bool)
    (hheld : (s.thread t).node = some n) :
    Inv { (pollerAdd s n inRbtree ok).goto t .idle with mutex := none } := by
  cases hfree : s.nodes (s.node n).fd with
  | some other =>
    simp only [Registry.pollerAdd, hfree]
    exact hinv.giveUp t
  | none =>
    cases ok with
    | false =>
      simp only [Registry.pollerAdd, hfree, Bool.false_eq_true, if_false]
      exact hinv.giveUp t
    | true =>
      rw [pollerAdd_eq inRbtree hfree]
      exact (hinv.afterInstall inRbtree hheld hfree).unlock none

theorem Inv.pollerDel (hinv : Inv s) (fd : Fd) : Inv (pollerDel s fd) := by
  cases hn : s.nodes fd with
  | some n =>
    rw [pollerDel_eq hinv hn]
    exact hinv.afterTakeOut .deleted hn
  | none =>
    simp only [Registry.pollerDel, hn]
    exact hinv

/-- The node of a thread is not one of the table. -/
theorem Inv.held_ne (hinv : Inv s) {n m : NodeId} {fd : Fd} (hheld : (s.thread t).node = some n)
    (hm : s.nodes fd = some m) : n ≠ m := by
  intro heq
  apply (hinv.held t n hheld).2.2 fd
  rw [hm, heq]

/-- `poller_mod` takes the old node out as `poller_del` does, and installs the new one as
`poller_add` does. -/
theorem pollerMod_eq (hinv : Inv s) {n orig : NodeId} (inRbtree : Bool)
    (hheld : (s.thread t).node = some n) (horig : s.nodes (s.node n).fd = some orig) :
    { (pollerMod s n inRbtree true).goto t .idle with mutex := none } =
      { (s.afterTakeOut orig (s.node n).fd .modified).afterInstall t n inRbtree with
        mutex := none } := by
  have hne := hinv.held_ne hheld horig
  have he : s.epoll (s.node n).fd = some orig := by rw [hinv.epoll, horig]
  simp only [pollerMod, horig, if_true, State.install, State.takeOut, State.unlink,
    State.modifyFd, State.setNode, State.goto, State.afterInstall, State.afterTakeOut, he,
    strangers_self, List.append_nil, Function.update_self, Function.update_idem,
    Function.update_of_ne hne]

theorem Inv.pollerMod (hinv : Inv s) {n : NodeId} (inRbtree ok : Bool)
    (hheld : (s.thread t).node = some n) :
    Inv { (pollerMod s n inRbtree ok).goto t .idle with mutex := none } := by
  cases horig : s.nodes (s.node n).fd with
  | none =>
    simp only [Registry.pollerMod, horig]
    exact hinv.giveUp t
  | some orig =>
    cases ok with
    | false =>
      simp only [Registry.pollerMod, horig, Bool.false_eq_true, if_false]
      exact hinv.giveUp t
    | true =>
      have hne := hinv.held_ne hheld horig
      rw [pollerMod_eq hinv inRbtree hheld horig]
      apply Inv.unlock
      apply (hinv.afterTakeOut .modified horig).afterInstall inRbtree hheld
      simp only [State.afterTakeOut, Function.update_of_ne hne, Function.update_self]

theorem Inv.body (hinv : Inv s) {op : Op} (inRbtree ok : Bool) (hpc : s.thread t = .body op) :
    Inv { (pollerBody s op inRbtree ok).goto t .idle with mutex := none } := by
  cases op with
  | add n => exact hinv.pollerAdd inRbtree ok (by rw [hpc]; rfl)
  | del fd => exact (hinv.pollerDel fd).giveUp t
  | mod n => exact hinv.pollerMod inRbtree ok (by rw [hpc]; rfl)

/-- The section of `__poller_remove_node` on a `removed` that still holds. -/
theorem Inv.pollerBody (hinv : Inv s) {n : NodeId} {removed : Bool} {r : PrState} {rest : Batch}
    (hpc : s.poller = .body n removed r rest) (hsettled : (s.node n).removed = removed) :
    Inv { pollerRemoveNode s n removed with
      poller := if removed then .events rest else .finish n r rest
      mutex := none } := by
  cases removed with
  | true => exact hinv.moveOn hpc (.events rest) none (List.sublist_cons_self n _) rfl rfl
  | false =>
    have hn : s.nodes (s.node n).fd = some n := by
      apply hinv.due n _ hsettled
      rw [hpc]
      exact List.mem_cons_self
    rw [pollerRemoveNode_eq hinv hn]
    exact hinv.afterRemove hn (by rw [hpc]; rfl) (by rw [hpc]; rfl)

theorem Inv.call (hinv : Inv s) (t : Tid) (r : Request) : Inv (threadCall s t r) := by
  cases r with
  | add fd => exact hinv.newNode t fd _ rfl
  | mod fd => exact hinv.newNode t fd _ rfl
  | del fd =>
    have hgoto := hinv.goto t (.lock (.del fd)) s.mutex (by intro n hn; cases hn)
    exact hgoto

/-- `epoll_wait` reports nodes of the table. -/
theorem Inv.wait (hinv : Inv s) {events : List NodeId} (pipe : Bool) (hpc : s.poller = .wait)
    (hreport : mayReport s events) :
    Inv { s with poller := .events { events := events, pipe := pipe } } := by
  obtain ⟨hepoll, hreg, halloc, hheld, hholder, hqueued, hqnodup, hdue, hdnodup, hleaving, honce,
    hforeign⟩ := hinv
  obtain ⟨hnodup, -, hmem⟩ := hreport
  simp only [State.queue, hpc] at hqueued hqnodup
  constructor
  case due =>
    intro n hn _
    rw [← hepoll]
    exact hmem n hn
  case due_nodup => exact hnodup
  case leaving =>
    intro n hn
    cases hn
  all_goals assumption

/-- A call gets the mutex. -/
theorem Inv.acquire {s s' : State} {t : Tid} (hinv : Inv s)
    (h : Registry.step s (.acquire t) = some s') : Inv s' := by
  simp only [Registry.step] at h
  split at h
  · next op hpc _ =>
    obtain rfl := Option.some.inj h
    apply hinv.goto
    intro n hn
    rw [hpc]
    cases op with
    | add => exact hn
    | del => exact hn
    | mod => exact hn
  · cases h

/-- The poller thread handles an event, and goes on to remove the node if that has ended. -/
theorem Inv.event {s s' : State} {result : Option PrState} (hinv : Inv s)
    (h : Registry.step s (.event result) = some s') : Inv s' := by
  simp only [Registry.step] at h
  split at h
  · next n ns pipe hpc =>
    cases result with
    | none =>
      obtain rfl := Option.some.inj h
      exact hinv.moveOn hpc _ s.mutex (List.sublist_cons_self n ns) rfl rfl
    | some r =>
      obtain rfl := Option.some.inj h
      exact hinv.moveOn hpc _ s.mutex (List.Sublist.refl _) rfl rfl
  · cases h

/-- It has handled the last event. -/
theorem Inv.eventsEnd {s s' : State} (hinv : Inv s)
    (h : Registry.step s .eventsEnd = some s') : Inv s' := by
  simp only [Registry.step] at h
  split at h
  · next hpc =>
    obtain rfl := Option.some.inj h
    exact hinv.moveOn hpc .pipe s.mutex (List.nil_sublist _) rfl rfl
  · next hpc =>
    obtain rfl := Option.some.inj h
    exact hinv.moveOn hpc .wait s.mutex (List.nil_sublist _) rfl rfl
  · cases h

/-- It calls back with a node from the pipe, or goes back to wait. -/
theorem Inv.notifies {s s' : State} (hinv : Inv s) (h : Registry.step s .notify = some s') :
    Inv s' := by
  simp only [Registry.step] at h
  split at h
  · next n ns hpc =>
    obtain rfl := Option.some.inj h
    exact hinv.notify hpc
  · next hpc =>
    obtain rfl := Option.some.inj h
    exact hinv.moveOn hpc .wait s.mutex (List.nil_sublist _) rfl rfl
  · cases h

theorem Inv.step {l : Label} {s' : State} (hinv : Inv s) (hok : settled s l = true)
    (h : step s l = some s') : Inv s' := by
  cases l with
  | call t r =>
    simp only [Registry.step] at h
    split at h
    · obtain rfl := Option.some.inj h
      exact hinv.call t r
    · cases h
  | acquire t => exact hinv.acquire h
  | body t inRbtree ok =>
    simp only [Registry.step] at h
    split at h
    · next op hpc =>
      obtain rfl := Option.some.inj h
      exact hinv.body inRbtree ok hpc
    · cases h
  | wait events pipe =>
    simp only [Registry.step] at h
    split at h
    · next hen =>
      obtain rfl := Option.some.inj h
      exact hinv.wait pipe hen.1 hen.2
    · cases h
  | event result => exact hinv.event h
  | eventsEnd => exact hinv.eventsEnd h
  | readRemoved =>
    simp only [Registry.step] at h
    split at h
    · next n r rest hpc =>
      obtain rfl := Option.some.inj h
      exact hinv.moveOn hpc _ s.mutex (List.Sublist.refl _) rfl rfl
    · cases h
  | pollerAcquire =>
    simp only [Registry.step] at h
    split at h
    · next n removed r rest hpc _ =>
      obtain rfl := Option.some.inj h
      exact hinv.moveOn hpc _ _ (List.Sublist.refl _) rfl rfl
    · cases h
  | pollerBody =>
    simp only [Registry.step] at h
    split at h
    · next n removed r rest hpc =>
      obtain rfl := Option.some.inj h
      simp only [settled, hpc, beq_iff_eq] at hok
      exact hinv.pollerBody hpc hok
    · cases h
  | finish =>
    simp only [Registry.step] at h
    split at h
    · next n r rest hpc =>
      obtain rfl := Option.some.inj h
      exact hinv.finish hpc
    · cases h
  | readPipe k =>
    simp only [Registry.step] at h
    split at h
    · next hpc =>
      split at h
      · obtain rfl := Option.some.inj h
        exact hinv.readPipe k hpc
      · cases h
    · cases h
  | notify => exact hinv.notifies h

end Steps

/-! ## The law -/

/-- Each node has at most one terminal result and one unlink, and each step keeps to its node. -/
def Once (s : State) : Prop :=
  (∀ n, (s.node n).terminal ≤ 1 ∧ (s.node n).unlinked ≤ 1) ∧ s.foreign = []

theorem once_of_settled (s : State)
    (h : system.Reaches (fun s l => settled s l = true) s) : Once s := by
  have hind : InductiveInvariant system (fun s l => settled s l = true) Inv := by
    constructor
    · rintro s rfl
      exact inv_started
    · intro s l t hinv hok hstep
      exact hinv.step hok hstep
  have hinv := hind.holds h
  exact ⟨hinv.once, hinv.foreign⟩

/-- A node whose event and whose deletion meet, with the deletion first. -/
theorem once_deleted_before_read : ∃ s, system.Reaches (fun s l => settled s l = true) s ∧
    (s.node 0).terminal = 1 ∧ Once s := by
  have hrun : (system.runIf settled .started
      [.call 0 (.add 5), .acquire 0, .body 0 true true, .wait [0] false, .event (some .error),
        .call 0 (.del 5), .acquire 0, .body 0 false true, .readRemoved, .pollerAcquire,
        .pollerBody, .eventsEnd, .wait [] true, .eventsEnd, .readPipe 1, .notify]).map
      (fun s => (s.node 0).terminal) = some 1 := by
    decide +kernel
  obtain ⟨s, hs, hterminal⟩ := Option.map_eq_some_iff.mp hrun
  have hreach : system.Reaches (fun s l => settled s l = true) s :=
    System.reaches_of_runIf (fun _ _ h => h) rfl hs
  exact ⟨s, hreach, hterminal, once_of_settled s hreach⟩

/-- The handler of node 0 reads `removed`; before it has the mutex, one thread deletes node 0 and
another adds node 1 for the same fd. -/
theorem stale_removed_frees_twice : ∃ s, system.Reachable s ∧
    (s.node 0).terminal = 2 ∧ (s.node 0).unlinked = 2 ∧ s.foreign = [1, 1] ∧ ¬ Once s := by
  have hrun : (system.run .started
      [.call 0 (.add 5), .acquire 0, .body 0 false true, .wait [0] false, .event (some .error),
        .readRemoved, .call 0 (.del 5), .acquire 0, .body 0 false true, .call 1 (.add 5),
        .acquire 1, .body 1 true true, .pollerAcquire, .pollerBody, .finish, .eventsEnd,
        .wait [] true, .eventsEnd, .readPipe 1, .notify]).map
      (fun s => ((s.node 0).terminal, (s.node 0).unlinked, s.foreign)) = some (2, 2, [1, 1]) := by
    decide +kernel
  obtain ⟨s, hs, hlog⟩ := Option.map_eq_some_iff.mp hrun
  have hterminal : (s.node 0).terminal = 2 := congrArg (fun r => r.1) hlog
  have hunlinked : (s.node 0).unlinked = 2 := congrArg (fun r => r.2.1) hlog
  have hforeign : s.foreign = [1, 1] := congrArg (fun r => r.2.2) hlog
  refine ⟨s, System.reachable_of_run (M := system) rfl hs, hterminal, hunlinked, hforeign, ?_⟩
  intro honce
  have hle := (honce.1 0).1
  omega

end WorkflowKernel.Poller.Registry
