import WorkflowKernel.Poller.Table.Registered

/-!
# Several pollers on one table

`mpoller.h`: every call goes to the poller of the descriptor's number modulo the number of threads,
and all pollers write into one `nodes_buf`, each under a mutex of its own. What keeps them apart is
that a poller only ever touches the entries of its own descriptors. A node is named by its number in
its poller, so an entry says no more than the pointer would.

The pollers are running, and the calls are those of `mpoller.h` on descriptors and the
`__poller_remove_node` of each poller thread, each one step. The lists of a poller are only appended
to while they are empty, as for a poller alone.

## What is proved

- `run_setNodes`: a call depends on the table at its own descriptor only, and writes only there.
- `split_step`: a call on an mpoller is that call on one of separate pollers.
- `sharded`: in every run each poller is one on its own, its law holds, and the one table is what the
  epoll sets of all pollers say.
-/

namespace WorkflowKernel.Poller.Many

open WorkflowKernel.Transition
open WorkflowKernel.Communicator
open WorkflowKernel.Poller.Table

variable {R : Rebalance}

/-- `struct mpoller`. The `nodes` of a poller is `nodes_buf`. -/
structure Mpoller where
  nthreads : Nat
  nodesBuf : Fd → Option NodeId
  poller : Nat → Run

/-- `(unsigned int)fd % mpoller->nthreads`. -/
def index (nthreads : Nat) (fd : Fd) : Nat := (fd % 4294967296).toNat % nthreads

/-- `poller->nodes` is written. -/
def setNodes (s : State) (nodes : Fd → Option NodeId) : State := { s with nodes := nodes }

/-- What the poller `i` sees. -/
def Mpoller.view (m : Mpoller) (i : Nat) : Run :=
  { m.poller i with poller := setNodes (m.poller i).poller m.nodesBuf }

/-- The poller `i` makes a step to `r`. -/
def Mpoller.update (m : Mpoller) (i : Nat) (r : Run) : Mpoller :=
  { m with nodesBuf := r.poller.nodes, poller := Function.update m.poller i r }

/-- `mpoller_create` and `mpoller_start`. -/
def Mpoller.started (nthreads maxOpenFiles : Nat) (clock : Timespec) : Mpoller where
  nthreads := nthreads
  nodesBuf _ := none
  poller _ := { poller := State.created maxOpenFiles false clock, takenOut := [] }

inductive Label
  | add (data : Data) (timeout : Int) (now : Timespec) (ctl : Option Errno)
  | mod (data : Data) (timeout : Int) (now : Timespec) (ctl : Option Errno)
  | setTimeout (fd : Fd) (timeout : Int) (now : Timespec)
  | del (fd : Fd)
  /-- The thread of the poller `i` gives up a node. -/
  | removeNode (i : Nat) (n : NodeId)
  deriving DecidableEq, Repr

/-- The poller that a call goes to, and the call there. -/
def Label.route (nthreads : Nat) : Label → Nat × Call
  | .add data timeout now ctl => (index nthreads data.fd, .add data timeout now ctl)
  | .mod data timeout now ctl => (index nthreads data.fd, .mod data timeout now ctl)
  | .setTimeout fd timeout now => (index nthreads fd, .setTimeout fd timeout now)
  | .del fd => (index nthreads fd, .del fd)
  | .removeNode i n => (i, .removeNode n)

/-- The poller of a step is one of the mpoller, and a node that is given up is one of its. -/
def Label.enabled (m : Mpoller) : Label → Bool
  | .removeNode i n => i < m.nthreads ∧ n < (m.poller i).poller.allocated
  | _ => true

def step (R : Rebalance) (m : Mpoller) (l : Label) : Option Mpoller :=
  if l.enabled m then
    let (i, c) := l.route m.nthreads
    (callStep R (m.view i) c).map (m.update i)
  else none

def system (R : Rebalance) : System Mpoller Label where
  Init m := ∃ nthreads maxOpenFiles clock, 0 < nthreads ∧ m = .started nthreads maxOpenFiles clock
  step := step R

/-! ## What a call does to the table -/

section Local

variable {s : State} {n : NodeId} {nodes : Fd → Option NodeId}

/-- The containers do not read the table: unlinking, -/
theorem unlink_setNodes : unlink R (setNodes s nodes) n = setNodes (unlink R s n) nodes := by
  simp only [unlink, apply_ite (setNodes · nodes)]
  rfl

/-- inserting into the tree, -/
theorem treeInsert_setNodes :
    treeInsert R (setNodes s nodes) n = setNodes (treeInsert R s n) nodes := by
  have hlink : treeLink (setNodes s nodes) n = setNodes (treeLink s n) nodes := by
    simp only [treeLink, apply_ite (setNodes · nodes)]
    rfl
  simp only [treeInsert, hlink]
  rfl

/-- into the lists or the tree, -/
theorem insertNode_setNodes :
    insertNode R (setNodes s nodes) n = setNodes (insertNode R s n) nodes := by
  have hfirst : (addTail (setNodes s nodes) .timeoList n).treeFirst = s.treeFirst := rfl
  have hfirst' : (addTail s .timeoList n).treeFirst = s.treeFirst := rfl
  simp only [insertNode, treeInsert_setNodes, apply_ite (setNodes · nodes)]
  cases htf : s.treeFirst with
  | none =>
    simp only [hfirst, hfirst', htf]
    rfl
  | some first =>
    simp only [hfirst, hfirst', htf, apply_ite (setNodes · nodes)]
    rfl

/-- or by its timeout; -/
theorem place_setNodes (t : Option Timespec) :
    place R (setNodes s nodes) n t = setNodes (place R s n t) nodes := by
  cases t with
  | none => rfl
  | some t =>
    simp only [place]
    rw [show (setNodes s nodes).setNode n (fun k => { k with timeout := t }) =
      setNodes (s.setNode n fun k => { k with timeout := t }) nodes from rfl, insertNode_setNodes]
    rfl

/-- nor does taking a node out, -/
theorem takeOut_setNodes (state : PrState) :
    takeOut (setNodes s nodes) n state = setNodes (takeOut s n state) nodes := by
  simp only [takeOut, apply_ite (setNodes · nodes)]
  rfl

theorem takeOut_nodes (s : State) (n : NodeId) (state : PrState) :
    (takeOut s n state).nodes = s.nodes := by
  simp only [takeOut, apply_ite State.nodes]
  exact ite_self _

/-- or making one. -/
theorem newNode_setNodes (data : Data) :
    newNode (setNodes s nodes) data = (newNode s data).map (setNodes · nodes) := by
  simp only [newNode]
  rw [show fdError (setNodes s nodes) data.fd = fdError s data.fd from rfl]
  cases fdError s data.fd with
  | some errno => rfl
  | none =>
    cases dataGetEvent data.operation with
    | none => rfl
    | some event => rfl

theorem newNode_nodes {data : Data} {s' : State} (h : newNode s data = .ok s') :
    s'.nodes = s.nodes := by
  simp only [newNode] at h
  split at h
  · cases h
  · split at h
    · cases h
    · cases h
      rfl

end Local

/-- The descriptor whose entry a call is about. -/
def fdOf (s : State) : Call → Fd
  | .add data _ _ _ | .mod data _ _ _ => data.fd
  | .setTimeout fd _ _ | .del fd => fd
  | .removeNode n => (s.node n).data.fd

section Calls

variable {s : State} {nodes : Fd → Option NodeId} {fd : Fd}

/-- Two tables that agree at `fd` lead to the same result, and to tables that agree at `fd`; the rest
of either is as it was. -/
def Local (nodes : Fd → Option NodeId) (fd : Fd) (r r' : Except Errno Unit × State) : Prop :=
  r' = (r.1, setNodes r.2 (Function.update nodes fd (r.2.nodes fd)))

/-- A call that leaves the table alone. -/
theorem Local.same {r : Except Errno Unit} {t : State} (hfd : nodes fd = t.nodes fd) :
    Local nodes fd (r, t) (r, setNodes t nodes) := by
  rw [Local, ← hfd, Function.update_eq_self]

/-- A call that clears the entry of its descriptor. -/
theorem Local.cleared {r : Except Errno Unit} {t : State} (hfd : t.nodes fd = none) :
    Local nodes fd (r, t) (r, setNodes t (Function.update nodes fd none)) := by
  rw [Local, hfd]

/-- A call that ends with the entry of its descriptor. -/
theorem Local.entry {r : Except Errno Unit} {t : State} {n : Option NodeId} :
    Local nodes fd (r, t.setEntry fd n) (r, (setNodes t nodes).setEntry fd n) := by
  rw [Local, show (t.setEntry fd n).nodes fd = n from Function.update_self ..]
  rfl

/-- `poller_add` reads and writes the entry of its descriptor only, -/
theorem local_add {data : Data} {timeout : Int} {now : Timespec} {ctl : Option Errno}
    (hfd : nodes data.fd = s.nodes data.fd) :
    Local nodes data.fd (pollerAdd R s data timeout now ctl)
      (pollerAdd R (setNodes s nodes) data timeout now ctl) := by
  simp only [pollerAdd, newNode_setNodes]
  cases hnew : newNode s data with
  | error errno => exact .same hfd
  | ok s' =>
    have hfd' : nodes data.fd = s'.nodes data.fd := by rw [newNode_nodes hnew, hfd]
    have hentry : (setNodes s' nodes).nodes data.fd = s'.nodes data.fd := hfd'
    simp only [Except.map, hentry]
    cases s'.nodes data.fd with
    | some n => exact .same hfd'
    | none =>
      cases ctl with
      | some errno => exact .same hfd'
      | none =>
        have hepoll : (setNodes s' nodes).setEpoll data.fd
            (some (s.allocated, ((setNodes s' nodes).node s.allocated).event)) =
          setNodes (s'.setEpoll data.fd (some (s.allocated, (s'.node s.allocated).event))) nodes :=
          rfl
        simp only [show (setNodes s nodes).allocated = s.allocated from rfl, hepoll, place_setNodes]
        exact .entry

/-- so does `poller_mod`, -/
theorem local_mod {data : Data} {timeout : Int} {now : Timespec} {ctl : Option Errno}
    (hfd : nodes data.fd = s.nodes data.fd) :
    Local nodes data.fd (pollerMod R s data timeout now ctl)
      (pollerMod R (setNodes s nodes) data timeout now ctl) := by
  simp only [pollerMod, newNode_setNodes]
  cases hnew : newNode s data with
  | error errno => exact .same hfd
  | ok s' =>
    have hfd' : nodes data.fd = s'.nodes data.fd := by rw [newNode_nodes hnew, hfd]
    have hentry : (setNodes s' nodes).nodes data.fd = s'.nodes data.fd := hfd'
    simp only [Except.map, hentry]
    cases s'.nodes data.fd with
    | none => exact .same hfd'
    | some orig =>
      cases ctl with
      | some errno => exact .same hfd'
      | none =>
        have hepoll : (setNodes s' nodes).setEpoll data.fd
            (some (s.allocated, ((setNodes s' nodes).node s.allocated).event)) =
          setNodes (s'.setEpoll data.fd (some (s.allocated, (s'.node s.allocated).event))) nodes :=
          rfl
        have hdeadline : ∀ t : State, (setNodes t nodes).setDeadline orig none =
          setNodes (t.setDeadline orig none) nodes := fun _ => rfl
        simp only [show (setNodes s nodes).allocated = s.allocated from rfl, hepoll,
          unlink_setNodes, takeOut_setNodes, hdeadline, place_setNodes]
        exact .entry

/-- `poller_del`, -/
theorem local_del (hfd : nodes fd = s.nodes fd) :
    Local nodes fd (pollerDel R s fd) (pollerDel R (setNodes s nodes) fd) := by
  simp only [pollerDel]
  rw [show fdError (setNodes s nodes) fd = fdError s fd from rfl]
  cases fdError s fd with
  | some errno => exact .same hfd
  | none =>
    have hentry : (setNodes s nodes).nodes fd = s.nodes fd := hfd
    simp only [hentry]
    cases s.nodes fd with
    | none => exact .same hfd
    | some n =>
      have hclear : (setNodes s nodes).setEntry fd none =
        setNodes (s.setEntry fd none) (Function.update nodes fd none) := rfl
      have hepoll : ∀ t : State, (setNodes t (Function.update nodes fd none)).setEpoll fd none =
        setNodes (t.setEpoll fd none) (Function.update nodes fd none) := fun _ => rfl
      simp only [hclear, unlink_setNodes, hepoll, takeOut_setNodes]
      refine .cleared ?_
      show (takeOut _ n .deleted).nodes fd = none
      rw [takeOut_nodes, ((Kept.unlink n).setEpoll fd none).nodes]
      exact Function.update_self ..

/-- `poller_set_timeout`, -/
theorem local_setTimeout {timeout : Int} {now : Timespec} (hfd : nodes fd = s.nodes fd) :
    Local nodes fd (pollerSetTimeout R s fd timeout now)
      (pollerSetTimeout R (setNodes s nodes) fd timeout now) := by
  simp only [pollerSetTimeout]
  rw [show fdError (setNodes s nodes) fd = fdError s fd from rfl]
  cases fdError s fd with
  | some errno => exact .same hfd
  | none =>
    have hentry : (setNodes s nodes).nodes fd = s.nodes fd := hfd
    simp only [hentry]
    cases hn : s.nodes fd with
    | none => exact .same hfd
    | some n =>
      simp only [unlink_setNodes, place_setNodes]
      refine .same ?_
      have hkept := (Kept.unlink (R := R) (s := s) n).trans
        (Kept.place (R := R) n (absTimeout timeout now))
      rw [hfd, hkept.nodes]

/-- and `__poller_remove_node`, for the descriptor of its node. -/
theorem local_removeNode {n : NodeId} (hfd : nodes (s.node n).data.fd = s.nodes (s.node n).data.fd) :
    Local nodes (s.node n).data.fd ((.ok (), (pollerRemoveNode R s n).2) : Except Errno Unit × State)
      (.ok (), (pollerRemoveNode R (setNodes s nodes) n).2) := by
  have hnode : (setNodes s nodes).node = s.node := rfl
  simp only [pollerRemoveNode, hnode]
  cases (s.node n).removed with
  | true => exact .same hfd
  | false =>
    have hclear : ∀ fd, (setNodes s nodes).setEntry fd none =
      setNodes (s.setEntry fd none) (Function.update nodes fd none) := fun _ => rfl
    have hepoll : ∀ (t : State) nodes fd, (setNodes t nodes).setEpoll fd none =
      setNodes (t.setEpoll fd none) nodes := fun _ _ _ => rfl
    simp only [hclear, unlink_setNodes, hepoll, Bool.false_eq_true, if_false]
    refine .cleared ?_
    rw [((Kept.unlink n).setEpoll _ none).nodes]
    exact Function.update_self ..

/-- A call does the same on every table with the entry of its descriptor. -/
theorem run_setNodes {c : Call} (hfd : nodes (fdOf s c) = s.nodes (fdOf s c)) :
    Local nodes (fdOf s c) (c.run R s) (c.run R (setNodes s nodes)) := by
  cases c with
  | add data timeout now ctl => exact local_add hfd
  | mod data timeout now ctl => exact local_mod hfd
  | setTimeout fd timeout now => exact local_setTimeout hfd
  | del fd => exact local_del hfd
  | removeNode n => exact local_removeNode hfd

/-- It writes no other entry. -/
theorem run_nodes (R : Rebalance) (s : State) (c : Call) :
    (c.run R s).2.nodes =
      Function.update s.nodes (fdOf s c) ((c.run R s).2.nodes (fdOf s c)) := by
  have hlocal : Local s.nodes (fdOf s c) (c.run R s) (c.run R (setNodes s s.nodes)) :=
    run_setNodes rfl
  exact congrArg (fun r => r.2.nodes) hlocal

/-- What a call takes out, -/
theorem takesOut_setNodes {c : Call} (hfd : nodes (fdOf s c) = s.nodes (fdOf s c)) :
    c.takesOut R (setNodes s nodes) = c.takesOut R s := by
  have hrun : c.run R (setNodes s nodes) = ((c.run R s).1, _) := run_setNodes hfd
  simp only [Call.takesOut, hrun]
  cases c with
  | mod data timeout now ctl =>
    simp only [show (setNodes s nodes).nodes data.fd = s.nodes data.fd from hfd]
  | del fd => simp only [show (setNodes s nodes).nodes fd = s.nodes fd from hfd]
  | add data timeout now ctl => rfl
  | setTimeout fd timeout now => rfl
  | removeNode n => rfl

/-- whether it may be made, -/
theorem enabled_setNodes {c : Call} (hfd : nodes (fdOf s c) = s.nodes (fdOf s c)) :
    c.enabled (setNodes s nodes) = c.enabled s := by
  cases c with
  | removeNode n =>
    have hentry : (setNodes s nodes).nodes ((setNodes s nodes).node n).data.fd =
      s.nodes (s.node n).data.fd := hfd
    simp only [Call.enabled, hentry]
    rfl
  | add data timeout now ctl => rfl
  | mod data timeout now ctl => rfl
  | setTimeout fd timeout now => rfl
  | del fd => rfl

/-- and whether it appends to empty lists only depends on that entry. -/
theorem appendsToEmpty_setNodes {c : Call} (hfd : nodes (fdOf s c) = s.nodes (fdOf s c)) :
    c.appendsToEmpty (setNodes s nodes) = c.appendsToEmpty s := by
  have hplaces : ∀ out t, placesWell (setNodes s nodes) out t = placesWell s out t := by
    intro out t
    cases t with
    | none => rfl
    | some t => rfl
  have hok : ∀ data, (newNode (setNodes s nodes) data).isOk = (newNode s data).isOk := by
    intro data
    rw [newNode_setNodes]
    cases newNode s data with
    | error errno => rfl
    | ok s' => rfl
  cases c with
  | add data timeout now ctl =>
    have hentry : (setNodes s nodes).nodes data.fd = s.nodes data.fd := hfd
    have hplaced : placed (setNodes s nodes) (.add data timeout now ctl) =
        placed s (.add data timeout now ctl) := by
      cases ctl with
      | none => simp only [placed, hok, hentry]
      | some errno => rfl
    simp only [Call.appendsToEmpty, appendsToEmpty, hplaced, hplaces]
  | mod data timeout now ctl =>
    have hentry : (setNodes s nodes).nodes data.fd = s.nodes data.fd := hfd
    have hplaced : placed (setNodes s nodes) (.mod data timeout now ctl) =
        placed s (.mod data timeout now ctl) := by
      cases ctl with
      | none => simp only [placed, hok, hentry]
      | some errno => rfl
    simp only [Call.appendsToEmpty, appendsToEmpty, hplaced, hplaces]
  | setTimeout fd timeout now =>
    have hentry : (setNodes s nodes).nodes fd = s.nodes fd := hfd
    have hplaced : placed (setNodes s nodes) (.setTimeout fd timeout now) =
        placed s (.setTimeout fd timeout now) := by
      simp only [placed, hentry]
      rfl
    simp only [Call.appendsToEmpty, appendsToEmpty, hplaced, hplaces]
  | del fd => rfl
  | removeNode n => rfl

end Calls

/-! ## Whose descriptors a poller has -/

section Routed

variable {P : Fd → Prop} {s s' : State}

/-- `P` is true of the descriptor of every node there is. -/
def Only (P : Fd → Prop) (s : State) : Prop := ∀ n, n < s.allocated → P (s.node n).data.fd

/-- A poller that has nodes of its own descriptors only keeps to them: in the containers, -/
theorem Only.kept (h : Only P s) (hkept : Kept s s') : Only P s' := by
  intro n hn
  rw [hkept.allocated] at hn
  rw [hkept.data]
  exact h n hn

/-- with a new node of one of them, -/
theorem Only.alloc (h : Only P s) {k : Node} (hk : P k.data.fd) : Only P (s.alloc k) := by
  intro n hn
  by_cases heq : n = s.allocated
  · rw [heq, alloc_self]
    exact hk
  · rw [alloc_of_ne k heq]
    exact h n (Nat.lt_of_le_of_ne (Nat.le_of_lt_succ hn) heq)

theorem Only.setEntry (h : Only P s) (fd : Fd) (n : Option NodeId) : Only P (s.setEntry fd n) := h

theorem Only.setEpoll (h : Only P s) (fd : Fd) (data : Option (NodeId × Event)) :
    Only P (s.setEpoll fd data) := h

/-- with one taken out, -/
theorem Only.takeOut (h : Only P s) (n : NodeId) (state : PrState) :
    Only P (takeOut s n state) := by
  have hdata : ∀ f : Node → Node, (∀ k, (f k).data = k.data) → ∀ t : State, Only P t →
      Only P (t.setNode n f) := by
    intro f hf t ht m hm
    by_cases heq : m = n
    · rw [heq, State.setNode_self, hf]
      exact ht n (heq ▸ hm)
    · rw [State.setNode_of_ne t f heq]
      exact ht m hm
  have hstate := hdata (fun k => { k with state := state }) (fun _ => rfl) s h
  unfold Table.takeOut
  simp only
  split
  · exact hstate
  · exact hdata (fun k => { k with removed := true }) (fun _ => rfl) _ hstate

/-- and so in every call that is routed to it. -/
theorem Only.run (h : Only P s) {c : Call} (hc : P (fdOf s c)) (R : Rebalance) :
    Only P (c.run R s).2 := by
  cases c with
  | add data timeout now ctl =>
    show Only P (pollerAdd R s data timeout now ctl).2
    unfold pollerAdd
    cases hnew : newNode s data with
    | error errno => exact h
    | ok s' =>
      obtain ⟨k, hdata, -, rfl⟩ := newNode_eq hnew
      have halloc := h.alloc (k := k) (hdata ▸ hc)
      simp only
      split
      next => exact halloc
      next => exact halloc
      next => exact Only.setEntry ((halloc.setEpoll _ _).kept (Kept.place _ _)) _ _
  | mod data timeout now ctl =>
    show Only P (pollerMod R s data timeout now ctl).2
    rcases pollerMod_cases R s data timeout now ctl with
      ⟨errno, heq⟩ | ⟨k, hdata, -, ⟨errno, heq⟩ | ⟨orig, -, heq⟩⟩
    · rw [heq]
      exact h
    · rw [heq]
      exact h.alloc (hdata ▸ hc)
    · rw [heq]
      have halloc := h.alloc (k := k) (hdata ▸ hc)
      have htaken := ((halloc.setEpoll data.fd (some (s.allocated, k.event))).kept
        (Kept.unlink (R := R) orig)).takeOut orig .modified
      exact Only.setEntry ((htaken.kept (Kept.setDeadline none)).kept (Kept.place _ _)) _ _
  | setTimeout fd timeout now =>
    show Only P (pollerSetTimeout R s fd timeout now).2
    unfold pollerSetTimeout
    split
    next => exact h
    next =>
      split
      next => exact h
      next n _ => exact h.kept ((Kept.unlink n).trans (Kept.place n _))
  | del fd =>
    show Only P (pollerDel R s fd).2
    rcases pollerDel_cases R s fd with ⟨errno, heq⟩ | ⟨n, -, heq⟩
    · rw [heq]
      exact h
    · rw [heq]
      have hunlinked := (h.setEntry fd none).kept (Kept.unlink (R := R) n)
      exact ((hunlinked.setEpoll fd none).takeOut n .deleted).kept (Kept.setDeadline none)
  | removeNode n =>
    show Only P (pollerRemoveNode R s n).2
    unfold pollerRemoveNode
    split
    next => exact h
    next => exact ((h.setEntry _ none).kept (Kept.unlink (R := R) n)).setEpoll _ none

end Routed

/-! ## Separate pollers -/

/-- The entries of the descriptors that belong to the poller `i`. -/
def Mpoller.share (m : Mpoller) (i : Nat) (fd : Fd) : Option NodeId :=
  if index m.nthreads fd = i then m.nodesBuf fd else none

/-- The poller `i` with these entries and no others. -/
def Mpoller.own (m : Mpoller) (i : Nat) : Run :=
  { m.poller i with poller := setNodes (m.poller i).poller (m.share i) }

/-- Each poller has the nodes of its own descriptors. -/
def Routed (m : Mpoller) : Prop :=
  ∀ i, Only (fun fd => index m.nthreads fd = i) (m.poller i).poller

section Split

variable {R : Rebalance} {m m' : Mpoller} {l : Label}

/-- A call goes where its descriptor belongs. -/
theorem index_route (h : Routed m) (henabled : l.enabled m = true) :
    index m.nthreads (fdOf (m.view (l.route m.nthreads).1).poller (l.route m.nthreads).2) =
      (l.route m.nthreads).1 := by
  cases l with
  | add data timeout now ctl => rfl
  | mod data timeout now ctl => rfl
  | setTimeout fd timeout now => rfl
  | del fd => rfl
  | removeNode i n =>
    have hn : n < (m.poller i).poller.allocated := (of_decide_eq_true henabled).2
    exact h i n hn

/-- A call that may be made runs. -/
theorem callStep_eq {r r' : Run} {c : Call} (h : callStep R r c = some r') :
    c.enabled r.poller = true ∧
      r' = ⟨(c.run R r.poller).2, r.takenOut ++ c.takesOut R r.poller⟩ := by
  unfold callStep at h
  split at h
  next henabled => exact ⟨henabled, (Option.some.inj h).symm⟩
  next => cases h

/-- What a step does. -/
theorem step_cases (hstep : step R m l = some m') :
    ∃ i c, l.enabled m = true ∧ l.route m.nthreads = (i, c) ∧
      c.enabled (m.view i).poller = true ∧ m' = m.update i
        ⟨(c.run R (m.view i).poller).2,
          (m.poller i).takenOut ++ c.takesOut R (m.view i).poller⟩ := by
  unfold step at hstep
  split at hstep
  next henabled =>
    obtain ⟨r, hcall, hm'⟩ := Option.map_eq_some_iff.mp hstep
    obtain ⟨hcan, rfl⟩ := callStep_eq hcall
    exact ⟨_, _, henabled, rfl, hcan, hm'.symm⟩
  next => cases hstep

/-- The node that a call makes belongs to the poller of the call. -/
theorem routed_step (h : Routed m) (hstep : step R m l = some m') : Routed m' := by
  obtain ⟨i, c, henabled, hroute, -, rfl⟩ := step_cases hstep
  have hindex := index_route h henabled
  simp only [hroute] at hindex
  intro j
  by_cases hji : j = i
  · subst hji
    show Only _ (Function.update m.poller j _ j).poller
    rw [Function.update_self]
    have hview : Only (fun fd => index m.nthreads fd = j) (m.view j).poller := h j
    exact hview.run hindex R
  · show Only _ (Function.update m.poller i _ j).poller
    rw [Function.update_of_ne hji]
    exact h j

/-- A write to an entry of the poller `i` is one to its share, and to no other. -/
theorem share_update {i : Nat} {r : Run} {fd : Fd} (hindex : index m.nthreads fd = i)
    (hnodes : r.poller.nodes = Function.update m.nodesBuf fd (r.poller.nodes fd)) (j : Nat) :
    (m.update i r).share j =
      if j = i then Function.update (m.share i) fd (r.poller.nodes fd) else m.share j := by
  funext fd'
  show (if index m.nthreads fd' = j then r.poller.nodes fd' else none) = _
  rw [hnodes]
  by_cases hfd : fd' = fd
  · subst hfd
    by_cases hj : j = i
    · simp [hj, hindex]
    · have hne : index m.nthreads fd' ≠ j := fun heq => hj (heq.symm.trans hindex)
      simp [hj, hne, Mpoller.share]
  · by_cases hj : j = i
    · simp [hj, hfd, Mpoller.share]
    · simp [hj, hfd, Mpoller.share]

/-- The call appends to empty lists of its poller. -/
def Label.appendsToEmpty (m : Mpoller) (l : Label) : Bool :=
  let (i, c) := l.route m.nthreads
  c.appendsToEmpty (m.view i).poller

/-- A step is that step on the poller that it goes to, alone, and nothing on the others. -/
theorem split_step (h : Routed m) (hok : l.appendsToEmpty m = true)
    (hstep : step R m l = some m') :
    ∃ i c, Table.Appends (m.own i) c ∧ callStep R (m.own i) c = some (m'.own i) ∧
      ∀ j, j ≠ i → m'.own j = m.own j := by
  obtain ⟨i, c, henabled, hroute, hcan, rfl⟩ := step_cases hstep
  have hindex := index_route h henabled
  simp only [hroute] at hindex
  have hshares := share_update hindex (run_nodes R (m.view i).poller c)
    (r := ⟨(c.run R (m.view i).poller).2,
      (m.poller i).takenOut ++ c.takesOut R (m.view i).poller⟩)
  have hshare : m.share i (fdOf (m.view i).poller c) =
      (m.view i).poller.nodes (fdOf (m.view i).poller c) := if_pos hindex
  have hown : (m.own i).poller = setNodes (m.view i).poller (m.share i) := rfl
  refine ⟨i, c, ?_, ?_, ?_⟩
  · simp only [Label.appendsToEmpty, hroute] at hok
    rw [Appends, hown, appendsToEmpty_setNodes hshare, hok]
  · have hrun : c.run R (setNodes (m.view i).poller (m.share i)) = _ :=
      run_setNodes (R := R) (s := (m.view i).poller) hshare
    unfold callStep
    rw [hown, takesOut_setNodes hshare, enabled_setNodes hshare, if_pos hcan, hrun]
    have hself := (hshares i).trans (if_pos rfl)
    simp only [Mpoller.own, hself, Option.some.injEq]
    simp only [Mpoller.update, Function.update_self]
  · intro j hji
    have hpoller : (m.update i ⟨(c.run R (m.view i).poller).2,
        (m.poller i).takenOut ++ c.takesOut R (m.view i).poller⟩).poller j = m.poller j :=
      Function.update_of_ne hji ..
    have hother := (hshares j).trans (if_neg hji)
    simp only [Mpoller.own, hpoller, hother]

/-- Every call of the run appends to empty lists only. -/
def Appends : Mpoller → Label → Prop := fun m l => l.appendsToEmpty m = true

/-- Each poller of an mpoller is simulated by one alone. -/
theorem simulation (R : Rebalance) (i : Nat) :
    Simulation (system R) (calls R) Appends Table.Appends fun m r => Routed m ∧ r = m.own i where
  init := by
    rintro m ⟨nthreads, maxOpenFiles, clock, -, rfl⟩
    refine ⟨_, ⟨maxOpenFiles, clock, rfl⟩, fun i n hn => absurd hn (Nat.not_lt_zero n), ?_⟩
    have hshare : (Mpoller.started nthreads maxOpenFiles clock).share i = fun _ => none :=
      funext fun _ => ite_self none
    simp only [Mpoller.own, hshare]
    rfl
  step := by
    rintro m r l m' ⟨hrouted, rfl⟩ hok hstep
    have hrouted' := routed_step hrouted hstep
    obtain ⟨j, c, happends, hcall, hothers⟩ := split_step hrouted hok hstep
    by_cases hij : i = j
    · subst hij
      exact ⟨m'.own i, ⟨hrouted', rfl⟩, .inr ⟨c, happends, hcall⟩⟩
    · exact ⟨m.own i, ⟨hrouted', (hothers i hij).symm⟩, .inl rfl⟩

end Split

/-- What holds of the pollers and the table between two steps. -/
structure Sharded (R : Rebalance) (m : Mpoller) : Prop where
  alone : ∀ i, (calls R).Reaches Table.Appends (m.own i)
  registered : ∀ i, Registered R (m.own i)
  nodesBuf : ∀ fd, m.nodesBuf fd =
    ((m.poller (index m.nthreads fd)).poller.epoll fd).map Prod.fst
  others : ∀ fd i, i ≠ index m.nthreads fd → (m.poller i).poller.epoll fd = none

/-- While nodes are only appended to empty lists, the pollers of an mpoller keep out of each other's
entries in every run. -/
theorem sharded {R : Rebalance} {m : Mpoller} (h : (system R).Reaches Appends m) :
    Sharded R m := by
  have halone : ∀ i, (calls R).Reaches Table.Appends (m.own i) := by
    intro i
    obtain ⟨r, hreach, -, rfl⟩ := (simulation R i).reaches h
    exact hreach
  have hepoll : ∀ i fd, (m.poller i).poller.epoll fd =
      (m.share i fd).map fun n => (n, ((m.poller i).poller.node n).event) :=
    fun i fd => ((whole_inductive R).holds (halone i)).1.epoll fd
  constructor
  case alone => exact halone
  case registered => exact fun i => ((whole_inductive R).holds (halone i)).registered
  case nodesBuf =>
    intro fd
    have hshare : m.share (index m.nthreads fd) fd = m.nodesBuf fd := if_pos rfl
    rw [hepoll, hshare, Option.map_map]
    exact Option.map_id'.symm
  case others =>
    intro fd i hi
    have hshare : m.share i fd = none := if_neg (Ne.symm hi)
    rw [hepoll, hshare]
    rfl

/-- Descriptors of two pollers, with nodes of the same number. -/
theorem sharded_twoPollers : ∃ m, (system rebalanceSmall).Reaches Appends m ∧
    m.nodesBuf 3 = some 0 ∧ m.nodesBuf 4 = some 1 ∧ Sharded rebalanceSmall m := by
  have hrun : ((system rebalanceSmall).runIf (fun m l => l.appendsToEmpty m)
      (.started 2 16 (seconds 1))
      [.add { operation := .read, fd := 3 } 3000 (seconds 1) none,
        .add { operation := .read, fd := 4 } 2000 (seconds 1) none,
        .mod { operation := .write, fd := 4 } 1000 (seconds 1) none,
        .removeNode 0 0, .del 5]).map (fun m => (m.nodesBuf 3, m.nodesBuf 4)) =
      some (some 0, some 1) := by
    decide +kernel
  obtain ⟨m, hm, hbuf⟩ := Option.map_eq_some_iff.mp hrun
  have hreach : (system rebalanceSmall).Reaches Appends m :=
    System.reaches_of_runIf (fun _ _ h => h) ⟨2, 16, seconds 1, by decide, rfl⟩ hm
  exact ⟨m, hreach, congrArg Prod.fst hbuf, congrArg Prod.snd hbuf, sharded hreach⟩

end WorkflowKernel.Poller.Many
