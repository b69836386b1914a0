import WorkflowKernel.Communicator.Client.Model
import WorkflowKernel.Lib.Exchange

/-!
# What is outstanding for an entry

An entry's registration, the removed nodes in the pipe and the tasks are its items. Each stands for
one thing (`Role`): the entry's operation, a success result, or the end of a handler's work. What a
step does to the items is an exchange of a few of them (`exchanged_*`), and every count of the
invariants follows from it.

An item also says for which session a `handle()` is still due: it names the session itself or leaves
it to `entry->session`; `Item.due` counts both.
-/

namespace WorkflowKernel.Communicator.Client

open WorkflowKernel.Lib.Exchange

/-- One thing outstanding for an entry. -/
inductive Item (S : Type)
  | registered (op : Op)
  | removed (op : Op) (state : PrState)
  | task (t : Task S)
  deriving DecidableEq

/-- What an item stands for. -/
inductive Role
  | operation (op : Op)
  /-- A success result, up to the section of `handle_incoming_reply`. -/
  | success
  | sync
  | decref
  /-- The end of a replaced read operation, which no handler looks into. -/
  | nothing
  /-- A result that a client's connection never has. -/
  | stray
  deriving DecidableEq

def Rest.role : Rest → Role
  | .sync => .sync
  | .decref => .decref
  | .release => .operation .connect

/-- The operation that a thread is in the middle of when it adds the read operation. -/
def Rest.op : Rest → Op
  | .release => .connect
  | _ => .write

def Task.role {S : Type} : Task S → Role
  | .addConnect _ => .operation .connect
  | .result op state _ =>
    if state.terminal then .operation op
    else if op = .read then if state = .success then .success else .nothing
    else .stray
  | .replied _ _ => .success
  | .addRead _ rest => .operation rest.op
  | .handle _ _ _ rest => rest.role
  | .finish rest => rest.role

def Item.role {S : Type} : Item S → Role
  | .registered op => .operation op
  | .removed op state =>
    if state.terminal then .operation op
    else if op = .read ∧ state = .modified then .nothing
    else .stray
  | .task t => t.role

section Counts

variable {S : Type}

def Conn.items (k : Conn S) : List (Item S) :=
  k.reg.toList.map .registered ++ k.pipe.map (fun p => .removed p.1 p.2) ++ k.tasks.map .task

/-- An item of this role. -/
def Item.is (r : Role) (i : Item S) : Nat := if i.role = r then 1 else 0

/-- The items of a role. -/
def Conn.count (k : Conn S) (r : Role) : Nat := total (Item.is r) k.items

/-- An operation that has not ended. -/
def Item.polled (op : Op) : Item S → Nat
  | .registered op' => if op' = op then 1 else 0
  | .removed op' state => if op' = op ∧ state.terminal then 1 else 0
  | .task _ => 0

/-- The operations of this kind that have not ended. -/
def Conn.polled (k : Conn S) (op : Op) : Nat := total (Item.polled op) k.items

/-- The success results, with the one that the poller thread is about to deliver. -/
def Conn.successes (k : Conn S) : Nat :=
  k.count .success + if k.phase = .done then 1 else 0

/-- The handler threads that end their work with dropping a reference. -/
def Conn.tails (k : Conn S) : Nat := k.count .sync + k.count .decref

/-- What is outstanding counts. -/
theorem count_pos {k : Conn S} {i : Item S} (hi : i ∈ k.items) : 0 < k.count i.role := by
  have hle : Item.is i.role i ≤ k.count i.role := le_total hi
  rwa [Item.is, if_pos rfl] at hle

theorem Item.polled_le (op : Op) (i : Item S) : i.polled op ≤ i.is (.operation op) := by
  cases i with
  | registered op' => by_cases h : op' = op <;> simp [Item.polled, Item.is, Item.role, h]
  | removed op' state =>
    by_cases h : op' = op <;> cases ht : state.terminal <;>
      simp [Item.polled, Item.is, Item.role, h, ht]
  | task t => simp [Item.polled]

theorem Conn.polled_le (k : Conn S) (op : Op) : k.polled op ≤ k.count (.operation op) :=
  total_le_total (Item.polled_le op) _

end Counts

/-! ## The sessions that wait for their `handle()` -/

section Owners

variable {S : Type}

/-- The entry has been given this session and its message is not sent. -/
def Holder.installs : Holder S → Option S
  | .sending s | .failing s => some s
  | _ => .none

/-- The poller's read operation is to end with the `handle()` of `entry->session`. -/
def Conn.awaits (k : Conn S) : Prop :=
  k.state = .receiving ∨ k.state = .error ∨ k.holder.installs.isSome = true

instance (k : Conn S) : Decidable k.awaits := inferInstanceAs (Decidable (_ ∨ _ ∨ _))

/-- What stands for this always leaves a `handle()` to the entry. -/
def Role.due : Role → Bool
  | .operation .connect | .operation .write | .success => true
  | _ => false

variable [DecidableEq S] {k : Conn S}

/-- How often `handle()` is due for a session by an item of an entry with this `entry->session`,
reads apart. -/
def Item.due (session : Option S) (s : S) (i : Item S) : Nat :=
  match i with
  | .task (.addConnect s') | .task (.replied s' _) | .task (.addRead s' _)
  | .task (.handle s' _ _ _) => if s' = s then 1 else 0
  | .task (.finish _) => 0
  | i => if session = some s ∧ i.role.due = true then 1 else 0

/-- How often `handle()` is due for a session by what is outstanding for an entry. -/
def Conn.owners (k : Conn S) (s : S) : Nat :=
  total (Item.due k.session s) k.items +
    if k.session = some s then
      (if k.awaits then k.count (.operation .read) else 0) + if k.phase = .done then 1 else 0
    else 0

omit [DecidableEq S] in
/-- A terminal result stands for its operation. -/
theorem role_result {op : Op} {state : PrState} {error : Errno} (h : state.terminal = true) :
    Task.role (.result op state error : Task S) = .operation op := if_pos h

theorem due_result {op : Op} {state : PrState} {error : Errno} {session : Option S} {s : S}
    (h : state.terminal = true) :
    Item.due session s (.task (.result op state error)) =
      Item.due session s (.registered op) := by
  have hrole : Item.role (.task (.result op state error) : Item S) = .operation op := if_pos h
  change (if _ ∧ Role.due (Item.role (.task (.result op state error) : Item S)) = true then
    1 else 0) = _
  rw [hrole]
  rfl

omit [DecidableEq S] in
/-- Only operations and success results leave a `handle()` to the entry. -/
theorem role_due (hwrite : k.count (.operation .write) = 0)
    (hconnect : k.count (.operation .connect) = 0) (hsuccess : k.count .success = 0) {i : Item S}
    (hi : i ∈ k.items) : i.role.due = false := by
  have hpos := count_pos hi
  cases hrole : i.role with
  | operation op => cases op <;> simp_all [Role.due]
  | success => simp_all
  | _ => rfl

/-- What else a `handle()` is due by is the handler that calls it. -/
theorem due_handle {i : Item S} {session : Option S} {s : S} (hrole : i.role.due = false)
    (hdue : Item.due session s i ≠ 0) :
    ∃ state error rest, i = .task (.handle s state error rest) := by
  cases i with
  | task t =>
    cases t with
    | handle s' state error rest =>
      obtain rfl : s' = s := by
        by_contra hne
        exact hdue (if_neg hne)
      exact ⟨state, error, rest, rfl⟩
    | addRead s' rest => cases rest <;> cases hrole
    | finish rest => exact absurd rfl hdue
    | result op state error => exact absurd (if_neg (by simp [hrole])) hdue
    | _ => cases hrole
  | _ => exact absurd (if_neg (by simp [hrole])) hdue

theorem due_session (hwrite : k.count (.operation .write) = 0)
    (hconnect : k.count (.operation .connect) = 0) (hsuccess : k.count .success = 0)
    (session session' : Option S) (s : S) :
    total (Item.due session s) k.items = total (Item.due session' s) k.items := by
  refine total_congr fun i hi => ?_
  have hdue := role_due hwrite hconnect hsuccess hi
  cases i with
  | task t => cases t <;> simp_all [Item.due]
  | _ => simp_all [Item.due]

end Owners

/-! ## The exchanges of the source -/

section Exchanges

variable {S : Type} {k : Conn S} {op : Op} {t : Task S}

theorem Conn.mem_task : Item.task t ∈ k.items ↔ t ∈ k.tasks := by
  simp [Conn.items]

/-- Things with the same role count the same. -/
theorem count_exchanged {k' : Conn S} {a b : Item S} (hx : Exchanged k.items k'.items [a] [b])
    (role : b.role = a.role) (r : Role) : k'.count r = k.count r :=
  hx.same (by rw [Item.is, Item.is, role])

theorem exchanged_put (t : Task S) (k : Conn S) :
    Exchanged k.items (k.put t).items [] [.task t] := by
  intro w
  simp only [Conn.items, Conn.put, total_append, List.map_append, List.map_cons, List.map_nil]
  simp only [total_nil]
  omega

theorem exchanged_take [DecidableEq S] (h : t ∈ k.tasks) :
    Exchanged k.items (k.take t).items [.task t] [] := by
  intro w
  have hsum := List.sum_map_erase (fun u => w (.task u)) h
  simp only [Conn.items, Conn.take, total_append, total_cons, total_nil]
  simp only [total, List.map_map, Function.comp_def] at hsum ⊢
  omega

theorem count_put (t : Task S) (k : Conn S) (r : Role) :
    (k.put t).count r = k.count r + if t.role = r then 1 else 0 := exchanged_put t k (Item.is r)

theorem polled_put (t : Task S) (k : Conn S) (op : Op) : (k.put t).polled op = k.polled op :=
  exchanged_put t k (Item.polled op)

theorem due_put [DecidableEq S] (t : Task S) (k : Conn S) (session : Option S) (s : S) :
    total (Item.due session s) (k.put t).items =
      total (Item.due session s) k.items + Item.due session s (.task t) :=
  exchanged_put t k (Item.due session s)

theorem count_take [DecidableEq S] (h : t ∈ k.tasks) (r : Role) :
    (k.take t).count r + (if t.role = r then 1 else 0) = k.count r := exchanged_take h (Item.is r)

theorem polled_take [DecidableEq S] (h : t ∈ k.tasks) (op : Op) :
    (k.take t).polled op = k.polled op := exchanged_take h (Item.polled op)

theorem due_take [DecidableEq S] (h : t ∈ k.tasks) (session : Option S) (s : S) :
    total (Item.due session s) (k.take t).items + Item.due session s (.task t) =
      total (Item.due session s) k.items := exchanged_take h (Item.due session s)

/-- A step puts one task in the place of another. -/
theorem exchanged_swap [DecidableEq S] (h : t ∈ k.tasks) (t' : Task S) :
    Exchanged k.items ((k.take t).put t').items [.task t] [.task t'] :=
  (exchanged_take h).trans (exchanged_put t' _)

/-- A registered operation goes. -/
theorem exchanged_unregister (h : k.reg = some op) :
    Exchanged k.items { k with reg := none }.items [.registered op] [] := by
  intro w
  simp [Conn.items, h]
  omega

/-- An operation is registered. -/
theorem exchanged_register (h : k.reg = none) (op : Op) :
    Exchanged k.items { k with reg := some op }.items [] [.registered op] := by
  intro w
  simp [Conn.items, h]
  omega

/-- A registered operation gives way to a task. -/
theorem exchanged_end (h : k.reg = some op) (t : Task S) :
    Exchanged k.items ({ k with reg := none }.put t).items [.registered op] [.task t] :=
  (exchanged_unregister h).trans (exchanged_put t _)

theorem exchanged_mpollerDel (h : k.reg = some op) :
    Exchanged k.items (mpollerDel k).items [.registered op] [.removed op .deleted] := by
  intro w
  simp [Conn.items, mpollerDel, h]
  omega

theorem mpollerDel_none (h : k.reg = none) : mpollerDel k = k := by
  cases k
  simp_all [mpollerDel]

/-- `mpoller_mod` of a registered operation. -/
theorem exchanged_mpollerMod (h : k.reg = some op) :
    Exchanged k.items
      { k with reg := some .write, pipe := k.pipe ++ [(op, PrState.modified)] }.items
      [.registered op] [.registered .write, .removed op .modified] := by
  intro w
  simp [Conn.items, h]
  omega

/-- A removed node gives way to a task. -/
theorem exchanged_pipe {state : PrState} {rest : List (Op × PrState)}
    (h : k.pipe = (op, state) :: rest) (t : Task S) :
    Exchanged k.items ({ k with pipe := rest }.put t).items [.removed op state] [.task t] := by
  intro w
  simp [Conn.items, Conn.put, h]
  omega

end Exchanges

end WorkflowKernel.Communicator.Client
