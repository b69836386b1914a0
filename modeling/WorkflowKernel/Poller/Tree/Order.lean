import WorkflowKernel.Lib.StableQueue
import WorkflowKernel.Poller.Tree.Model
import WorkflowKernel.Rbtree.Erase
import WorkflowKernel.Rbtree.Insert

/-!
# The timeout tree is a queue by timeouts

The nodes in the tree are those of a queue in which equal timeouts keep the order of insertion, and
the tree's sequence is the queue's. Each call keeps this together with the red-black balance and the
two caches.

## What is proved

- `run_ordered`: the sequence and the caches behind any calls.
- `run_redBlack`: the balance behind any calls; no `NULL` is read through, and the loops end.
-/

namespace WorkflowKernel.Poller.Tree

open WorkflowKernel.Lib
open WorkflowKernel.Lib.RbTree hiding node
open WorkflowKernel.Rbtree

variable {N : Type} [DecidableEq N]

/-! ## What the calls are for -/

/-- What a call does to the queue of the nodes in the tree. -/
def Call.spec (q : Queue N Timespec) : Call N → Queue N Timespec
  | .insert node timeout => q.insert node timeout
  | .erase node => q.erase node
  | .handleTimeout => q.pop

/-- A node is inserted while it is not in the tree, and erased while it is. -/
def Call.allowed (q : Queue N Timespec) : Call N → Bool
  | .insert node _ => node ∉ q.live
  | .erase node => node ∈ q.live
  | .handleTimeout => true

def allowedCalls : Queue N Timespec → List (Call N) → Bool
  | _, [] => true
  | q, call :: calls => call.allowed q && allowedCalls (call.spec q) calls

def specCalls (q : Queue N Timespec) (calls : List (Call N)) : Queue N Timespec :=
  calls.foldl Call.spec q

/-- The tree `t` is in memory, with the queue's sequence and the caches at its ends. -/
structure Keeps (s : State N) (q : Queue N Timespec) (t : RbTree N) : Prop where
  represents : Represents s.timeoTree t
  redBlack : t.RedBlack
  timeout : s.timeout = q.key
  ordered : q.Ordered t.inorder
  first : s.treeFirst = t.inorder.head?
  last : s.treeLast = t.inorder.getLast?

variable {s : State N} {q : Queue N Timespec} {t : RbTree N} {path : List (Frame N)} {node : N}
  {fuel : Nat}

omit [DecidableEq N] in
theorem Keeps.empty (nodes : Mem N) (timeout : N → Timespec) :
    Keeps (State.empty nodes timeout) ⟨[], timeout⟩ nil :=
  ⟨⟨trivial, rfl, List.nodup_nil⟩, ⟨rfl, 0, rfl⟩, rfl, ⟨List.Perm.refl _, List.Pairwise.nil⟩, rfl,
    rfl⟩

/-! ## Insertion -/

/-- The descent ends between the nodes whose timeout is not greater and the others. -/
theorem descend_split (node : N) (h : At s.timeoTree path t) (ht : t ≠ nil)
    (hsorted : t.inorder.Pairwise fun a b => s.timeout a ≤ s.timeout b)
    (hfuel : t.inorder.length ≤ fuel) : ∃ path' parent,
      s.descend node fuel (holeLink path) = .ok (parent, holeLink path') ∧
        above path' = some parent ∧ plug nil path' = plug t path ∧
        (∀ a ∈ before path', a ∈ before path ∨ s.timeout a ≤ s.timeout node) ∧
        (∀ a ∈ after path', a ∈ after path ∨ s.timeout node < s.timeout a) := by
  induction fuel generalizing path t with
  | zero => exact absurd (inorder_eq_nil.mp (List.length_eq_zero_iff.mp (Nat.le_zero.mp hfuel))) ht
  | succ fuel ih =>
    cases t with
    | nil => exact absurd rfl ht
    | node c l a r =>
      obtain ⟨-, hleft, hright, -, -, -⟩ := h.holds
      rw [inorder_node] at hsorted hfuel
      rw [List.length_append, List.length_cons] at hfuel
      obtain ⟨hl, har, hla⟩ := List.pairwise_append.mp hsorted
      obtain ⟨ha, hr⟩ := List.pairwise_cons.mp har
      have hread : s.timeoTree.read (holeLink path) = some a := h.holdsPath.read
      rw [State.descend, hread]
      simp only [deref, bind, Except.bind]
      by_cases hlt : s.timeout node < s.timeout a
      · rw [if_pos (timeoutCmp_neg.mpr hlt)]
        have hafter : ∀ b ∈ after (⟨.left, c, a, r⟩ :: path),
            b ∈ after path ∨ s.timeout node < s.timeout b := by
          intro b hb
          rw [after, List.cons_append, List.mem_cons, List.mem_append] at hb
          rcases hb with rfl | hb | hb
          · exact .inr hlt
          · exact .inr (lt_of_lt_of_le hlt (ha b hb))
          · exact .inl hb
        have hchild : At s.timeoTree (⟨.left, c, a, r⟩ :: path) l := at_cons.mpr h
        by_cases hnil : l = nil
        · subst hnil
          refine ⟨⟨.left, c, a, r⟩ :: path, a, ?_, rfl, rfl, fun b hb => .inl hb, hafter⟩
          exact if_pos hleft
        · obtain ⟨path', parent, hrun, hup, hplug, hb, haft⟩ := ih hchild hnil hl (by omega)
          refine ⟨path', parent, ?_, hup, hplug, hb, fun b hin => ?_⟩
          · refine (if_neg ?_).trans hrun
            exact fun hnone => hnil (top_eq_none.mp (hleft.symm.trans hnone))
          · rcases haft b hin with hin | hlt
            · exact hafter b hin
            · exact .inr hlt
      · have hge := not_lt.mp hlt
        rw [if_neg fun hneg => hlt (timeoutCmp_neg.mp hneg)]
        have hbefore : ∀ b ∈ before (⟨.right, c, a, l⟩ :: path),
            b ∈ before path ∨ s.timeout b ≤ s.timeout node := by
          intro b hb
          rw [before, List.mem_append, List.mem_append, List.mem_singleton] at hb
          rcases hb with hb | hb | rfl
          · exact .inl hb
          · exact .inr (le_trans (hla b hb a List.mem_cons_self) hge)
          · exact .inr hge
        have hchild : At s.timeoTree (⟨.right, c, a, l⟩ :: path) r := at_cons.mpr h
        by_cases hnil : r = nil
        · subst hnil
          refine ⟨⟨.right, c, a, l⟩ :: path, a, ?_, rfl, rfl, hbefore, fun b hb => .inl hb⟩
          exact if_pos hright
        · obtain ⟨path', parent, hrun, hup, hplug, hb, haft⟩ := ih hchild hnil hr (by omega)
          refine ⟨path', parent, ?_, hup, hplug, fun b hin => ?_, haft⟩
          · refine (if_neg ?_).trans hrun
            exact fun hnone => hnil (top_eq_none.mp (hright.symm.trans hnone))
          · rcases hb b hin with hin | hle
            · exact hbefore b hin
            · exact .inr hle

/-- The node is linked where the path ends. -/
theorem link_spec (h : Represents s.timeoTree (plug nil path)) (hrb : (plug nil path).RedBlack)
    (hnode : node ∉ (plug nil path).inorder) (hfuel : (plug nil path).inorder.length < fuel) :
    ∃ s' t', s.link fuel node (above path) (holeLink path) = .ok s' ∧
      Represents s'.timeoTree t' ∧ t'.RedBlack ∧ t'.inorder = before path ++ node :: after path ∧
      s'.timeout = s.timeout ∧ s'.treeFirst = s.treeFirst ∧ s'.treeLast = s.treeLast := by
  obtain ⟨m', t', hrun, hm', hrb', hin⟩ := insert_spec h hrb hnode hfuel
  refine ⟨{ s with inRbtree := Function.update s.inRbtree node true, timeoTree := m' }, t', ?_, hm',
    hrb', hin, rfl, rfl, rfl⟩
  rw [State.link, hrun]
  rfl

/-- The tree before a node is inserted that has its timeout already. -/
structure Before (s : State N) (q : Queue N Timespec) (t : RbTree N) (node : N)
    (timeout : Timespec) : Prop where
  represents : Represents s.timeoTree t
  redBlack : t.RedBlack
  timeout : s.timeout = (q.insert node timeout).key
  ordered : q.Ordered t.inorder
  first : s.treeFirst = t.inorder.head?
  last : s.treeLast = t.inorder.getLast?
  absent : node ∉ q.live

theorem Before.key {timeout : Timespec} (h : Before s q t node timeout) {a : N}
    (ha : a ∈ t.inorder) : s.timeout a = q.key a := by
  rw [h.timeout]
  refine Function.update_of_ne ?_ ..
  rintro rfl
  exact h.absent (h.ordered.perm.mem_iff.mp ha)

theorem Before.key_self {timeout : Timespec} (h : Before s q t node timeout) :
    s.timeout node = timeout := by
  rw [h.timeout]
  exact Function.update_self ..

/-- The queue and the caches, once the node is linked in its place. -/
theorem Before.link {timeout : Timespec} (h : Before s q (plug nil path) node timeout)
    (hbefore : ∀ a ∈ before path, q.key a ≤ timeout) (hafter : ∀ a ∈ after path, timeout < q.key a)
    {first last : Option N} (hfirst : first = (before path ++ node :: after path).head?)
    (hlast : last = (before path ++ node :: after path).getLast?)
    (hfuel : (plug nil path).inorder.length < fuel) : ∃ s' t',
      State.link fuel { s with treeFirst := first, treeLast := last } node (above path)
        (holeLink path) = .ok s' ∧ Keeps s' (q.insert node timeout) t' := by
  have hnotin : node ∉ (plug nil path).inorder := fun hin =>
    h.absent (h.ordered.perm.mem_iff.mp hin)
  obtain ⟨s', t', hrun, hrep', hrb', hin, htimeout', hfirst', hlast'⟩ :=
    link_spec (s := { s with treeFirst := first, treeLast := last }) h.represents h.redBlack hnotin
      hfuel
  have hordered := h.ordered
  rw [inorder_plug, inorder_nil, List.append_nil] at hordered
  refine ⟨s', t', hrun, hrep', hrb', htimeout'.trans h.timeout, ?_, ?_, ?_⟩
  · rw [hin]
    exact hordered.insert h.absent hbefore hafter
  · rw [hin, hfirst', hfirst]
  · rw [hin, hlast', hlast]

/-- The second branch: the node goes behind the last one. -/
theorem Before.append {timeout : Timespec} (h : Before s q t node timeout) {e : N}
    (he : t.inorder.getLast? = some e) (hle : q.key e ≤ timeout)
    (hfuel : t.inorder.length < fuel) : ∃ s' t',
      State.link fuel { s with treeLast := some node } node (some e) (.child .right e) = .ok s' ∧
        Keeps s' (q.insert node timeout) t' := by
  obtain ⟨xs, hxs⟩ := List.getLast?_eq_some_iff.mp he
  obtain ⟨path, c, l, r, rfl, -, hbefore, hafter, -⟩ := h.represents.focus hxs
  obtain ⟨hr, hpath⟩ := List.append_eq_nil_iff.mp hafter.symm
  obtain rfl := inorder_eq_nil.mp hr
  have hseq : before (⟨.right, c, e, l⟩ :: path) = xs ++ [e] := by
    rw [before, ← List.append_assoc, ← hbefore]
  have hsorted := h.ordered.sorted
  rw [hxs] at hsorted
  have hless : ∀ a ∈ before (⟨.right, c, e, l⟩ :: path), q.key a ≤ timeout := by
    intro a ha
    rw [hseq] at ha
    rcases List.mem_append.mp ha with ha | ha
    · exact le_trans ((List.pairwise_append.mp hsorted).2.2 a ha e (List.mem_singleton.mpr rfl)).le
        hle
    · rw [List.mem_singleton.mp ha]
      exact hle
  have hempty : after (⟨.right, c, e, l⟩ :: path) = [] := hpath
  have hend : Before s q (plug nil (⟨.right, c, e, l⟩ :: path)) node timeout := h
  refine hend.link hless ?_ ?_ ?_ hfuel
  · rw [hempty]
    exact fun a ha => absurd ha List.not_mem_nil
  · rw [h.first, hxs, hseq]
    cases xs <;> rfl
  · rw [hempty, List.getLast?_append]
    rfl

omit [DecidableEq N] in
/-- The pointer that the descent ends at is the left one of the first node exactly if there is
nothing in front of it. -/
theorem hole_first {f : Frame N} (hnodup : (before (f :: path) ++ after (f :: path)).Nodup) :
    (before (f :: path) ++ after (f :: path)).head?.map (Link.child .left) =
      some (holeLink (f :: path)) ↔ before (f :: path) = [] := by
  obtain ⟨side, c, a, u⟩ := f
  cases side with
  | right =>
    have hne : before (⟨.right, c, a, u⟩ :: path) ≠ [] := by
      rw [before]
      simp
    refine iff_of_false (fun heq => ?_) hne
    cases hhead : (before (⟨.right, c, a, u⟩ :: path) ++ after (⟨.right, c, a, u⟩ :: path)).head? with
    | none =>
      rw [hhead] at heq
      cases heq
    | some b =>
      rw [hhead] at heq
      cases heq
  | left =>
    have hafter : after (⟨.left, c, a, u⟩ :: path) = a :: (u.inorder ++ after path) := rfl
    rw [hafter] at hnodup ⊢
    cases hb : before (⟨.left, c, a, u⟩ :: path) with
    | nil => exact iff_of_true rfl rfl
    | cons b bs =>
      refine iff_of_false (fun heq => ?_) (List.cons_ne_nil b bs)
      have hba : b = a := by
        cases heq
        rfl
      rw [hb] at hnodup
      exact (List.nodup_append.mp hnodup).2.2 b List.mem_cons_self a List.mem_cons_self hba

/-- The third branch: the node goes in front of one with a greater timeout. -/
theorem Before.descend {timeout : Timespec} (h : Before s q t node timeout) {e : N}
    (he : t.inorder.getLast? = some e) (hlt : timeout < q.key e)
    (hfuel : t.inorder.length < fuel) : ∃ parent p s' t',
      s.descend node fuel .root = .ok (parent, p) ∧
      State.link fuel (if s.treeFirst.map (Link.child .left) = some p
        then { s with treeFirst := some node } else s) node (some parent) p = .ok s' ∧
      Keeps s' (q.insert node timeout) t' := by
  have hmem : e ∈ t.inorder := List.mem_of_mem_getLast? he
  have hnil : t ≠ nil := by
    rintro rfl
    cases hmem
  have hsorted : t.inorder.Pairwise fun a b => s.timeout a ≤ s.timeout b := by
    refine List.Pairwise.imp_of_mem ?_ h.ordered.sorted
    intro a b ha hb hab
    rw [h.key ha, h.key hb]
    exact hab.le
  obtain ⟨path, parent, hrun, hup, hplug, hbefore, hafter⟩ :=
    descend_split node h.represents hnil hsorted (Nat.le_of_lt hfuel)
  have hplug : plug nil path = t := hplug
  have hseq : t.inorder = before path ++ after path := by
    rw [← hplug, inorder_plug, inorder_nil, List.append_nil]
  have hnodup : (before path ++ after path).Nodup := hseq ▸ h.represents.inorder_nodup
  subst hplug
  have hless : ∀ a ∈ before path, q.key a ≤ timeout := by
    intro a ha
    rw [← h.key (hseq ▸ List.mem_append_left _ ha), ← h.key_self]
    exact (hbefore a ha).resolve_left List.not_mem_nil
  have hmore : ∀ a ∈ after path, timeout < q.key a := by
    intro a ha
    rw [← h.key (hseq ▸ List.mem_append_right _ ha), ← h.key_self]
    exact (hafter a ha).resolve_left List.not_mem_nil
  have hlast : s.treeLast = (before path ++ node :: after path).getLast? := by
    have hne : after path ≠ [] := by
      intro hempty
      rw [hseq, hempty, List.append_nil] at hmem
      exact absurd (hless e hmem) (not_le.mpr hlt)
    rw [h.last, hseq, List.getLast?_append_of_ne_nil _ hne, List.getLast?_append,
      List.getLast?_cons, List.getLast?_eq_some_getLast hne]
    rfl
  cases path with
  | nil => cases hup
  | cons f path =>
    have hfirst := hole_first hnodup
    rw [← hseq, ← h.first] at hfirst
    by_cases hfront : before (f :: path) = []
    · have hhead : some node = (before (f :: path) ++ node :: after (f :: path)).head? := by
        rw [hfront]
        rfl
      obtain ⟨s', t', hlink, hs'⟩ := h.link hless hmore hhead hlast hfuel
      refine ⟨parent, holeLink (f :: path), s', t', hrun, ?_, hs'⟩
      rw [if_pos (hfirst.mpr hfront), ← hup]
      exact hlink
    · have hkept : s.treeFirst = (before (f :: path) ++ node :: after (f :: path)).head? := by
        rw [h.first, hseq]
        cases hb : before (f :: path) with
        | nil => exact absurd hb hfront
        | cons b bs => rfl
      obtain ⟨s', t', hlink, hs'⟩ := h.link hless hmore hkept hlast hfuel
      refine ⟨parent, holeLink (f :: path), s', t', hrun, ?_, hs'⟩
      rw [if_neg fun heq => hfront (hfirst.mp heq), ← hup]
      exact hlink

theorem Before.treeInsert {timeout : Timespec} (h : Before s q t node timeout)
    (hfuel : t.inorder.length < fuel) : ∃ s' t',
      s.treeInsert fuel node = .ok s' ∧ Keeps s' (q.insert node timeout) t' := by
  have hroot : s.timeoTree.root = t.top := h.represents.holdsPath
  rw [State.treeInsert]
  by_cases hnil : t = nil
  · subst hnil
    have hroot' : Before s q (plug nil []) node timeout := h
    obtain ⟨s', t', hrun, hs'⟩ := hroot'.link nofun nofun rfl rfl hfuel
    exact ⟨s', t', (if_pos hroot).trans hrun, hs'⟩
  · have hne : s.timeoTree.root ≠ none := fun hnone =>
      hnil (top_eq_none.mp (hroot.symm.trans hnone))
    obtain ⟨e, he⟩ : ∃ e, t.inorder.getLast? = some e :=
      Option.ne_none_iff_exists'.mp fun hnone =>
        hnil (inorder_eq_nil.mp (List.getLast?_eq_none_iff.mp hnone))
    have hlast : s.treeLast = some e := h.last.trans he
    have hderef : deref s.treeLast = .ok e := by
      rw [hlast]
      rfl
    rw [if_neg hne, hderef]
    simp only [bind, Except.bind, timeoutCmp_nonneg, h.key_self,
      h.key (List.mem_of_mem_getLast? he)]
    by_cases hle : q.key e ≤ timeout
    · rw [if_pos hle]
      exact h.append he hle hfuel
    · rw [if_neg hle]
      obtain ⟨parent, p, s', t', hdescend, hlink, hs'⟩ := h.descend he (not_le.mp hle) hfuel
      refine ⟨s', t', ?_, hs'⟩
      rw [hdescend]
      exact hlink

theorem Keeps.insert (h : Keeps s q t) (hnode : node ∉ q.live) (timeout : Timespec)
    (hfuel : t.inorder.length < fuel) : ∃ s' t',
      Call.run fuel s (.insert node timeout) = .ok s' ∧ Keeps s' (q.insert node timeout) t' := by
  refine Before.treeInsert ⟨h.represents, h.redBlack, ?_, h.ordered, h.first, h.last, hnode⟩ hfuel
  rw [h.timeout]
  rfl

/-! ## Removal -/

/-- The first node behind a removal: only the node itself has to look for the next one. -/
theorem Keeps.next_first {xs ys : List N} (h : Keeps s q t) (ht : t.inorder = xs ++ node :: ys)
    (hfuel : t.inorder.length < fuel) :
    (if s.treeFirst = some node then s.timeoTree.neighbour fuel .right node else .ok s.treeFirst) =
      .ok (xs ++ ys).head? := by
  have hnodup := h.represents.inorder_nodup
  rw [h.first, ht]
  rw [ht] at hnodup
  cases xs with
  | nil => exact (if_pos rfl).trans (neighbour_eq h.represents ht hfuel).1
  | cons x xs =>
    refine if_neg fun heq => ?_
    have hx : x = node := Option.some.inj heq
    exact (List.nodup_append.mp hnodup).2.2 x List.mem_cons_self node List.mem_cons_self hx

theorem Keeps.prev_last {xs ys : List N} (h : Keeps s q t) (ht : t.inorder = xs ++ node :: ys)
    (hfuel : t.inorder.length < fuel) :
    (if s.treeLast = some node then s.timeoTree.neighbour fuel .left node else .ok s.treeLast) =
      .ok (xs ++ ys).getLast? := by
  have hnodup := h.represents.inorder_nodup
  rw [h.last, ht]
  rw [ht] at hnodup
  rcases List.eq_nil_or_concat' ys with rfl | ⟨zs, z, rfl⟩
  · rw [List.append_nil, if_pos (by simp)]
    exact (neighbour_eq h.represents ht hfuel).2
  · have hlast : (xs ++ node :: (zs ++ [z])).getLast? = some z := by
      rw [← List.cons_append, ← List.append_assoc, List.getLast?_concat]
    rw [hlast, if_neg]
    · simp
    · intro heq
      have hz : z = node := Option.some.inj heq
      have hnot := (List.nodup_cons.mp (List.nodup_append.mp hnodup).2.1).1
      exact hnot (hz ▸ List.mem_append_right _ (List.mem_singleton.mpr rfl))

theorem Keeps.erase (h : Keeps s q t) (hnode : node ∈ q.live) (hfuel : t.inorder.length < fuel) :
    ∃ s' t', s.treeErase fuel node = .ok s' ∧ Keeps s' (q.erase node) t' := by
  obtain ⟨xs, ys, ht⟩ := List.append_of_mem (h.ordered.perm.mem_iff.mpr hnode)
  obtain ⟨m', t', hrun, hrep, hrb, hin⟩ := erase_spec h.represents h.redBlack ht hfuel
  have hordered := h.ordered
  have hnodup := h.represents.inorder_nodup
  rw [ht] at hordered hnodup
  refine ⟨{ s with
    treeFirst := (xs ++ ys).head?
    treeLast := (xs ++ ys).getLast?
    timeoTree := m'
    inRbtree := Function.update s.inRbtree node false }, t', ?_, hrep, hrb, h.timeout,
      hin ▸ hordered.erase hnodup, hin ▸ rfl, hin ▸ rfl⟩
  rw [State.treeErase, h.next_first ht hfuel, h.prev_last ht hfuel]
  simp only [bind, Except.bind, hrun]
  rfl

/-- A node that is over is the first one. -/
theorem Keeps.handleTimeout (h : Keeps s q t) (hfuel : t.inorder.length < fuel) :
    ∃ s' t', s.handleTimeout fuel = .ok s' ∧ Keeps s' q.pop t' := by
  have hpop := h.ordered.first (h.ordered.perm.nodup_iff.mp h.represents.inorder_nodup)
  have hfirst := h.first
  cases hseq : t.inorder with
  | nil =>
    rw [hseq] at hpop hfirst
    have hspec : q.pop = q := by
      rw [Queue.pop, hpop]
      rfl
    refine ⟨s, t, ?_, hspec.symm ▸ h⟩
    rw [State.handleTimeout, hfirst]
    rfl
  | cons node ys =>
    rw [hseq] at hpop hfirst
    have hspec : q.pop = q.erase node := by
      rw [Queue.pop, hpop]
      rfl
    have ht : t.inorder = [] ++ node :: ys := hseq
    obtain ⟨m', t', hrun, hrep, hrb, hin⟩ := erase_spec h.represents h.redBlack ht hfuel
    have hnext := (neighbour_eq h.represents ht hfuel).1
    have hordered := h.ordered
    have hnodup := h.represents.inorder_nodup
    rw [ht] at hordered hnodup
    refine ⟨{ s with
      treeFirst := ys.head?
      treeLast := if ys.head? = none then none else s.treeLast
      timeoTree := m' }, t', ?_, hrep, hrb, h.timeout.trans ?_, ?_, hin ▸ rfl, ?_⟩
    · rw [State.handleTimeout, hfirst]
      simp only [List.head?_cons, hnext, hrun, bind, Except.bind, pure, Except.pure]
    · rw [hspec]
      rfl
    · rw [hspec, hin]
      exact hordered.erase hnodup
    · show (if ys.head? = none then none else s.treeLast) = _
      rw [h.last, ht, hin]
      cases ys with
      | nil => rfl
      | cons y ys => rfl

/-! ## Runs -/

theorem Keeps.call (h : Keeps s q t) {call : Call N} (hcall : call.allowed q = true)
    (hfuel : t.inorder.length < fuel) : ∃ s' t', call.run fuel s = .ok s' ∧
      Keeps s' (call.spec q) t' := by
  cases call with
  | insert node timeout => exact h.insert (of_decide_eq_true hcall) timeout hfuel
  | erase node => exact h.erase (of_decide_eq_true hcall) hfuel
  | handleTimeout => exact h.handleTimeout hfuel

theorem length_spec (q : Queue N Timespec) (call : Call N) :
    (call.spec q).live.length ≤ q.live.length + 1 := by
  have herase : ∀ node, (q.erase node).live.length ≤ q.live.length + 1 := fun node =>
    Nat.le_succ_of_le List.length_erase_le
  cases call with
  | insert node timeout => exact Nat.le_of_eq List.length_append
  | erase node => exact herase node
  | handleTimeout =>
    rw [Call.spec, Queue.pop]
    split
    · exact herase _
    · exact Nat.le_succ _

theorem Keeps.run (h : Keeps s q t) {calls : List (Call N)} (hcalls : allowedCalls q calls = true)
    (hfuel : q.live.length + calls.length ≤ fuel) : ∃ s' t', runCalls fuel s calls = .ok s' ∧
      Keeps s' (specCalls q calls) t' := by
  induction calls generalizing s q t with
  | nil => exact ⟨s, t, rfl, h⟩
  | cons call calls ih =>
    obtain ⟨hcall, hcalls⟩ := Bool.and_eq_true_iff.mp hcalls
    rw [List.length_cons] at hfuel
    have hlen := h.ordered.perm.length_eq
    have hspec := length_spec q call
    have hlt : t.inorder.length < fuel := by omega
    have hle : (call.spec q).live.length + calls.length ≤ fuel := by omega
    obtain ⟨s₁, t₁, hrun, hs₁⟩ := h.call hcall hlt
    obtain ⟨s', t', hrest, hs'⟩ := ih hs₁ hcalls hle
    refine ⟨s', t', ?_, hs'⟩
    rw [runCalls, List.foldlM_cons, hrun]
    exact hrest

theorem keeps_runCalls (nodes : Mem N) (timeout : N → Timespec) {calls : List (Call N)}
    (hcalls : allowedCalls ⟨[], timeout⟩ calls = true) (hfuel : calls.length ≤ fuel) :
    ∃ s t, runCalls fuel (State.empty nodes timeout) calls = .ok s ∧
      Keeps s (specCalls ⟨[], timeout⟩ calls) t := by
  have hle : 0 + calls.length ≤ fuel := by omega
  exact (Keeps.empty nodes timeout).run hcalls hle

/-- Behind any calls from the empty tree, its sequence is that of the nodes inserted and not removed
by their timeouts, equal ones by age, and the caches are its two ends. -/
theorem run_ordered (nodes : Mem N) (timeout : N → Timespec) (calls : List (Call N))
    (hcalls : allowedCalls ⟨[], timeout⟩ calls = true) (fuel : Nat) (hfuel : calls.length ≤ fuel) :
    ∃ s t, runCalls fuel (State.empty nodes timeout) calls = .ok s ∧ Represents s.timeoTree t ∧
      s.timeout = (specCalls ⟨[], timeout⟩ calls).key ∧
      (specCalls ⟨[], timeout⟩ calls).Ordered t.inorder ∧
      s.treeFirst = t.inorder.head? ∧ s.treeLast = t.inorder.getLast? := by
  obtain ⟨s, t, hrun, hs⟩ := keeps_runCalls nodes timeout hcalls hfuel
  exact ⟨s, t, hrun, hs.represents, hs.timeout, hs.ordered, hs.first, hs.last⟩

/-- Nodes that nothing was written to. -/
def noNodes : Mem Nat := ⟨none, fun _ => none, fun _ _ => none, fun _ => .red⟩

/-- Two nodes with one timeout, one in front of them, and the first one over. -/
def ties : List (Call Nat) :=
  [.insert 1 ⟨5, 0⟩, .insert 2 ⟨3, 7⟩, .insert 3 ⟨5, 0⟩, .insert 4 ⟨4, 0⟩, .erase 2, .handleTimeout]

theorem run_ordered_ties : ∃ s t,
    runCalls 6 (State.empty noNodes fun _ => ⟨0, 0⟩) ties = .ok s ∧ Represents s.timeoTree t ∧
      s.timeout = (specCalls ⟨[], fun _ => ⟨0, 0⟩⟩ ties).key ∧
      (specCalls ⟨[], fun _ => ⟨0, 0⟩⟩ ties).Ordered t.inorder ∧
      s.treeFirst = t.inorder.head? ∧ s.treeLast = t.inorder.getLast? :=
  run_ordered noNodes (fun _ => ⟨0, 0⟩) ties (by decide) 6 (by decide)

/-- Behind any calls from the empty tree it is a red-black tree in which each node has its parent.
None of them reads through `NULL`, and their loops end. -/
theorem run_redBlack (nodes : Mem N) (timeout : N → Timespec) (calls : List (Call N))
    (hcalls : allowedCalls ⟨[], timeout⟩ calls = true) (fuel : Nat) (hfuel : calls.length ≤ fuel) :
    ∃ s t, runCalls fuel (State.empty nodes timeout) calls = .ok s ∧ Represents s.timeoTree t ∧
      t.RedBlack := by
  obtain ⟨s, t, hrun, hs⟩ := keeps_runCalls nodes timeout hcalls hfuel
  exact ⟨s, t, hrun, hs.represents, hs.redBlack⟩

theorem run_redBlack_ties : ∃ s t,
    runCalls 6 (State.empty noNodes fun _ => ⟨0, 0⟩) ties = .ok s ∧ Represents s.timeoTree t ∧
      t.RedBlack :=
  run_redBlack noNodes (fun _ => ⟨0, 0⟩) ties (by decide) 6 (by decide)

end WorkflowKernel.Poller.Tree
