import Mathlib.Data.Prod.Lex
import WorkflowKernel.Rbtree.Model

/-!
# timeo_tree, tree_first and tree_last

The timeout tree of the poller with its two caches, on the nodes of `rbtree.c`: what
`__poller_tree_insert`, `__poller_tree_erase` and one round of the loop in
`__poller_handle_timeout` do to them. A node here has any `struct timespec` for its timeout, and
differences of two are the mathematical ones.

## What is proved

- `timeoutCmp_neg`, `timeoutCmp_nonneg`: what the comparison says about two points in time.
- `timeoutCmpLong_eq`: from the epoch on, a `long` of 64 bits holds the differences.
-/

namespace WorkflowKernel.Poller.Tree

open WorkflowKernel.Lib
open WorkflowKernel.Rbtree

/-- `struct timespec`. -/
structure Timespec where
  sec : Int
  nsec : Int
  deriving DecidableEq, Repr

/-- Ordered by `tv_sec`, then by `tv_nsec`. -/
instance : LinearOrder Timespec :=
  LinearOrder.lift' (fun t => toLex (t.sec, t.nsec)) fun t u h => by
    obtain ⟨s, n⟩ := t
    obtain ⟨s', n'⟩ := u
    cases toLex.injective h
    rfl

/-- Times are ordered by seconds, then by nanoseconds. -/
theorem Timespec.lt_iff {t u : Timespec} :
    t < u ↔ t.sec < u.sec ∨ t.sec = u.sec ∧ t.nsec < u.nsec :=
  Prod.Lex.toLex_lt_toLex (x := (t.sec, t.nsec)) (y := (u.sec, u.nsec))

/-- `__timeout_cmp`. -/
def timeoutCmp (t u : Timespec) : Int :=
  let ret := t.sec - u.sec
  if ret = 0 then t.nsec - u.nsec else ret

/-- `__timeout_cmp` is negative for an earlier time, -/
theorem timeoutCmp_neg {t u : Timespec} : timeoutCmp t u < 0 ↔ t < u := by
  rw [Timespec.lt_iff]
  simp only [timeoutCmp]
  split <;> omega

/-- and not negative for one that is not earlier. -/
theorem timeoutCmp_nonneg {t u : Timespec} : 0 ≤ timeoutCmp t u ↔ u ≤ t := by
  rw [← Int.not_lt, timeoutCmp_neg, not_lt]

/-- A point in time that is not before the epoch, in the fields of a `struct timespec`. -/
structure Timespec.FromEpoch (t : Timespec) : Prop where
  sec : 0 ≤ t.sec
  sec_lt : t.sec < 9223372036854775808
  nsec : 0 ≤ t.nsec
  nsec_lt : t.nsec < 1000000000

/-- A difference in a `long`. -/
def longSub (a b : Int) : Int := (a - b).bmod 18446744073709551616

/-- `__timeout_cmp`, as the machine computes it. -/
def timeoutCmpLong (t u : Timespec) : Int :=
  let ret := longSub t.sec u.sec
  if ret = 0 then longSub t.nsec u.nsec else ret

/-- The difference of two such `long`s does not wrap. -/
theorem longSub_eq {a b : Int} (ha : 0 ≤ a) (ha' : a < 9223372036854775808) (hb : 0 ≤ b)
    (hb' : b < 9223372036854775808) : longSub a b = a - b :=
  Int.bmod_eq_of_le (by omega) (by omega)

/-- The range in which the comparison is that of the mathematical differences. -/
theorem timeoutCmpLong_eq {t u : Timespec} (ht : t.FromEpoch) (hu : u.FromEpoch) :
    timeoutCmpLong t u = timeoutCmp t u := by
  have hsec := longSub_eq ht.sec ht.sec_lt hu.sec hu.sec_lt
  have htn := ht.nsec_lt
  have hun := hu.nsec_lt
  have hnsec := longSub_eq ht.nsec (by omega) hu.nsec (by omega)
  simp only [timeoutCmpLong, timeoutCmp, hsec, hnsec]

structure State (N : Type) where
  timeoTree : Mem N
  treeFirst : Option N
  treeLast : Option N
  timeout : N → Timespec
  inRbtree : N → Bool

/-- The tree that `poller_create` leaves. -/
def State.empty {N : Type} (nodes : Mem N) (timeout : N → Timespec) : State N :=
  { timeoTree := nodes.setRoot none
    treeFirst := none
    treeLast := none
    timeout := timeout
    inRbtree := fun _ => false }

variable {N : Type} [DecidableEq N]

namespace State

/-- The `do` loop of `__poller_tree_insert`: `parent` and `p` behind it. -/
def descend (s : State N) (node : N) : Nat → Link N → Except Fault (N × Link N)
  | 0, _ => .error .fuel
  | fuel + 1, p => do
    let parent ← deref (s.timeoTree.read p)
    let p := Link.child
      (if timeoutCmp (s.timeout node) (s.timeout parent) < 0 then .left else .right) parent
    if s.timeoTree.read p = none then return (parent, p) else descend s node fuel p

/-- The last lines of `__poller_tree_insert`. -/
def link (fuel : Nat) (s : State N) (node : N) (parent : Option N) (p : Link N) :
    Except Fault (State N) := do
  let tree ← (s.timeoTree.linkNode node parent p).insertColor fuel node
  return { s with inRbtree := Function.update s.inRbtree node true, timeoTree := tree }

/-- `__poller_tree_insert`. -/
def treeInsert (fuel : Nat) (s : State N) (node : N) : Except Fault (State N) := do
  if s.timeoTree.root = none then
    link fuel { s with treeFirst := some node, treeLast := some node } node none .root
  else
    let entry ← deref s.treeLast
    if 0 ≤ timeoutCmp (s.timeout node) (s.timeout entry) then
      link fuel { s with treeLast := some node } node (some entry) (.child .right entry)
    else
      let (parent, p) ← s.descend node fuel .root
      let s := if s.treeFirst.map (Link.child .left) = some p
        then { s with treeFirst := some node } else s
      link fuel s node (some parent) p

/-- `__poller_tree_erase`. -/
def treeErase (fuel : Nat) (s : State N) (node : N) : Except Fault (State N) := do
  let first ← (if s.treeFirst = some node then s.timeoTree.neighbour fuel .right node
    else .ok s.treeFirst : Except Fault (Option N))
  let last ← (if s.treeLast = some node then s.timeoTree.neighbour fuel .left node
    else .ok s.treeLast : Except Fault (Option N))
  let tree ← s.timeoTree.erase fuel node
  return { s with
    treeFirst := first
    treeLast := last
    timeoTree := tree
    inRbtree := Function.update s.inRbtree node false }

/-- What `__poller_handle_timeout` does to the tree for one node that is over; without a node its
loop ends. -/
def handleTimeout (fuel : Nat) (s : State N) : Except Fault (State N) := do
  match s.treeFirst with
  | none => return s
  | some node =>
    let first ← s.timeoTree.neighbour fuel .right node
    let tree ← s.timeoTree.erase fuel node
    return { s with
      treeFirst := first
      treeLast := if first = none then none else s.treeLast
      timeoTree := tree }

end State

/-- A call on the tree. A node gets its timeout before it is inserted. -/
inductive Call (N : Type)
  | insert (node : N) (timeout : Timespec)
  | erase (node : N)
  | handleTimeout

def Call.run (fuel : Nat) (s : State N) : Call N → Except Fault (State N)
  | .insert node timeout =>
    State.treeInsert fuel { s with timeout := Function.update s.timeout node timeout } node
  | .erase node => s.treeErase fuel node
  | .handleTimeout => s.handleTimeout fuel

/-- One call after the other. -/
def runCalls (fuel : Nat) (s : State N) (calls : List (Call N)) : Except Fault (State N) :=
  calls.foldlM (fun s call => call.run fuel s) s

end WorkflowKernel.Poller.Tree
