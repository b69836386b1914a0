import WorkflowKernel.Rbtree.EraseColor
import WorkflowKernel.Rbtree.Walk

/-!
# rb_erase

A node with one child or none is bypassed. One with two children gives its place to the next node,
which has no left child and is bypassed itself; that node may be its own right child.

## What is proved

- `erase_spec`: the node is out of the sequence, and the tree is a red-black tree.
-/

namespace WorkflowKernel.Rbtree

open WorkflowKernel.Lib
open WorkflowKernel.Lib.RbTree

variable {N : Type} [DecidableEq N] {m m' : Mem N} {path : List (Frame N)} {t l r y : RbTree N}
  {side : Side} {c : Color} {a b : N} {fuel : Nat}

/-- A node with one child or none is bypassed. -/
theorem At.spliceOut (h : At m path (fork side c nil a y)) :
    At (m.spliceOut (above path) a y.top) path y := by
  obtain ⟨-, -, -, -, -, hy⟩ := holds_fork.mp h.holds
  have hapart := h.apart
  rw [inorder_nil, List.nil_append, List.cons_append, List.nodup_cons, List.mem_append,
    not_or] at hapart
  obtain ⟨⟨hay, hap⟩, hnodup⟩ := hapart
  obtain ⟨hndy, hndp, hdisj⟩ := List.nodup_append.mp hnodup
  have htop : ∀ n ∈ around path, y.top ≠ some n := fun n hn hyn => hdisj n (top_mem hyn) n hn rfl
  have hpath := h.holdsPath
  rw [top_fork] at hpath
  have hpath₁ : HoldsPath (m.adopt (above path) y.top) path (some a) :=
    hpath.congr (Mem.adopt_root ..) fun n hn => .adopt (htop n hn)
  refine ⟨?_, replaceChild_path hpath₁ hap hndp .left, hnodup⟩
  have hsame : ∀ n ∈ y.inorder, n ∉ around path := fun n hn hnp => hdisj n hn n hnp rfl
  refine hy.reparent (fun n hn => ?_) (fun n hn s => ?_) (fun n hn => ?_) (fun n hn hne => ?_) hndy
  · rw [Mem.spliceOut, Mem.replaceChild_parent, Mem.adopt_parent, if_pos hn]
  · exact ((replaceChild_same hpath₁ hap .left (hsame n hn)).child s).trans (Mem.adopt_child ..)
  · rw [Mem.spliceOut, Mem.replaceChild_color, Mem.adopt_color]
  · rw [Mem.spliceOut, Mem.replaceChild_parent, Mem.adopt_parent, if_neg hne]

/-- What a node outside the tree has when it takes the place of `a`. -/
structure Placed (m m' : Mem N) (path : List (Frame N)) (b : N) (c : Color) (l r : RbTree N) :
    Prop where
  parent : ∀ n, m'.parent n = if r.top = some n then some b else if l.top = some n then some b
    else if n = b then above path else m.parent n
  child : ∀ n, n ∉ around path → ∀ s, m'.child s n = if s = .left ∧ n = b then l.top
    else if s = .right ∧ n = b then r.top else m.child s n
  color : ∀ n, m'.color n = if n = b then c else m.color n
  path : HoldsPath m' path (some b)

theorem At.takePlace_run (h : At m path (fork .left c l a r)) (hl : l ≠ nil)
    (hb : b ∉ (fork .left c l a r).inorder ++ around path) :
    ∃ m', m.takePlace a b = .ok m' ∧ Placed m m' path b c l r := by
  obtain ⟨hpa, hal, har, hca, -, -⟩ := holds_fork.mp h.holds
  have har : m.child .right a = r.top := har
  obtain ⟨e, he⟩ : ∃ e, l.top = some e :=
    Option.ne_none_iff_exists'.mp fun hnone => hl (top_eq_none.mp hnone)
  rw [List.mem_append, mem_fork, not_or, not_or] at hb
  obtain ⟨⟨hba, -⟩, hbp⟩ := hb
  obtain ⟨-, hndp, hdisj⟩ := List.nodup_append.mp h.nodup
  have hap : a ∉ around path := fun hin => hdisj a (mem_fork.mpr (.inl rfl)) a hin rfl
  have hlp : ∀ n ∈ around path, l.top ≠ some n := fun n hn htop =>
    hdisj n (mem_fork.mpr (.inr (.inl (top_mem htop)))) n hn rfl
  have hrp : ∀ n ∈ around path, r.top ≠ some n := fun n hn htop =>
    hdisj n (mem_fork.mpr (.inr (.inr (top_mem htop)))) n hn rfl
  have hpath := h.holdsPath
  rw [top_fork] at hpath
  let m₁ := ((((m.setParent b (above path)).setColor b c).setChild .right b r.top).setChild
    .left b l.top)
  let m₂ := m₁.replaceChild .left (above path) a (some b)
  have hpath₁ : HoldsPath m₁ path (some a) := by
    refine hpath.congr rfl fun n hn => ?_
    have hnb : n ≠ b := fun heq => hbp (heq ▸ hn)
    exact (((Same.setParent hnb).trans (.setColor hnb)).trans (.setChild hnb)).trans
      (.setChild hnb)
  have hread : ∀ s, m₂.child s a = m.child s a := by
    intro s
    rw [(replaceChild_same hpath₁ hap .left hap).child]
    simp [m₁, Mem.setChild_child, Ne.symm hba]
  refine ⟨(m₂.adopt (some b) l.top).adopt (some b) r.top, ?_, ?_, ?_, ?_, ?_⟩
  · have hright : ((m.setParent b (above path)).setColor b c).child .right a = r.top := har
    have hleft : (((m.setParent b (above path)).setColor b c).setChild .right b r.top).child
        .left a = l.top := by
      rw [Mem.setChild_child, if_neg fun heq => hba heq.2.symm]
      exact hal
    have hup : m₁.parent a = above path := by
      simp [m₁, Mem.setParent_parent, Ne.symm hba, hpa]
    have hcolor : (m.setParent b (above path)).color a = c := hca
    unfold Mem.takePlace
    dsimp only
    have hderef : deref l.top = .ok e := by
      rw [he]
      rfl
    rw [hpa, hcolor, hright, hleft, hup, hread, hal, hderef]
    show Except.ok ((m₂.setParent e (some b)).adopt (some b) (m₂.child .right a)) = _
    rw [hread, har, he]
    rfl
  · intro n
    simp only [m₂, m₁, Mem.adopt_parent, Mem.replaceChild_parent, Mem.setChild_parent,
      Mem.setColor_parent, Mem.setParent_parent]
  · intro n hn s
    rw [Mem.adopt_child, Mem.adopt_child, (replaceChild_same hpath₁ hap .left hn).child]
    simp only [m₁, Mem.setChild_child, Mem.setColor_child, Mem.setParent_child]
  · intro n
    simp only [m₂, m₁, Mem.adopt_color, Mem.replaceChild_color, Mem.setChild_color,
      Mem.setColor_color, Mem.setParent_color]
  · refine (replaceChild_path hpath₁ hap hndp .left).congr (by simp [m₂]) fun n hn => ?_
    exact (Same.adopt (hlp n hn)).trans (.adopt (hrp n hn))

/-- A node outside the tree takes the place of one in it. -/
theorem At.takePlace (h : At m path (fork .left c l a r)) (hl : l ≠ nil)
    (hb : b ∉ (fork .left c l a r).inorder ++ around path) :
    ∃ m', m.takePlace a b = .ok m' ∧ At m' path (fork .left c l b r) := by
  obtain ⟨m', hrun, hm'⟩ := h.takePlace_run hl hb
  refine ⟨m', hrun, ?_⟩
  obtain ⟨-, -, -, -, hhl, hhr⟩ := holds_fork.mp h.holds
  have hapart := h.apart
  rw [List.mem_append, mem_fork, not_or, not_or, not_or] at hb
  simp only [List.cons_append, List.append_assoc, List.nodup_cons, List.nodup_append,
    List.mem_append, not_or] at hapart
  obtain ⟨-, hndl, ⟨hndr, hndp, hrp⟩, hlr⟩ := hapart
  obtain ⟨⟨hba, hbl, hbr⟩, hbp⟩ := hb
  have hsub : ∀ s : RbTree N, Holds m (some a) s → s.inorder.Nodup →
      (∀ n ∈ s.inorder, n ≠ b ∧ n ∉ around path) →
      (∀ n, s.top = some n → l.top = some n ∨ r.top = some n) →
      (∀ n ∈ s.inorder, s.top ≠ some n → l.top ≠ some n ∧ r.top ≠ some n) →
      Holds m' (some b) s := by
    intro s hs hnd hoff htop hrest
    refine hs.reparent (fun n hn => ?_) (fun n hn side => ?_) (fun n hn => ?_) (fun n hn hne => ?_)
      hnd
    · rw [hm'.parent]
      rcases htop n hn with hln | hrn
      · rw [if_pos hln, ite_self]
      · rw [if_pos hrn]
    · obtain ⟨hnb, hnp⟩ := hoff n hn
      rw [hm'.child n hnp, if_neg fun heq => hnb heq.2, if_neg fun heq => hnb heq.2]
    · rw [hm'.color, if_neg (hoff n hn).1]
    · obtain ⟨hln, hrn⟩ := hrest n hn hne
      rw [hm'.parent, if_neg hrn, if_neg hln, if_neg (hoff n hn).1]
  constructor
  · refine holds_fork.mpr ⟨?_, ?_, ?_, ?_, ?_, ?_⟩
    · rw [hm'.parent, if_neg fun htop => hbr (top_mem htop), if_neg fun htop => hbl (top_mem htop),
        if_pos rfl]
    · rw [hm'.child b hbp, if_pos ⟨rfl, rfl⟩]
    · rw [hm'.child b hbp, if_neg nofun, if_pos ⟨rfl, rfl⟩]
    · rw [hm'.color, if_pos rfl]
    · refine hsub l hhl hndl (fun n hn => ⟨?_, ?_⟩) (fun n hn => .inl hn) fun n hn hne => ⟨hne, ?_⟩
      · exact fun heq => hbl (heq ▸ hn)
      · exact fun hnp => hlr n hn n (.inr hnp) rfl
      · exact fun hrn => hlr n hn n (.inl (top_mem hrn)) rfl
    · refine hsub r hhr hndr (fun n hn => ⟨?_, ?_⟩) (fun n hn => .inr hn) fun n hn hne => ⟨?_, hne⟩
      · exact fun heq => hbr (heq ▸ hn)
      · exact fun hnp => hrp n hn n hnp rfl
      · exact fun hln => hlr n (top_mem hln) n (.inl hn) rfl
  · rw [top_fork]
    exact hm'.path
  · refine ((perm_fork .left c l b r).append_right _).nodup_iff.mpr ?_
    have hnodup := (List.nodup_cons.mp h.apart).2
    rw [List.cons_append, List.nodup_cons, List.mem_append, List.mem_append]
    exact ⟨fun hin => hin.elim (fun hin => hin.elim hbl hbr) hbp, hnodup⟩

/-- Behind the bypass the loop runs if the node that is gone was black. -/
theorem eraseColor_bypass {k : Nat} (h : At m path y) (hpath : Takes path k)
    (hbal : (fork side c nil a y).Balanced k) (hfuel : path.length < fuel) :
    Restores (if c = .black then m.eraseColor fuel y.top (above path) else .ok m)
      (plug y path).inorder := by
  cases c with
  | black =>
    rw [if_pos rfl]
    obtain ⟨n, rfl⟩ := hbal.pos
    obtain ⟨hn, hy⟩ := balanced_fork_black.mp hbal
    refine eraseColor_spec ⟨by omega, .inr hfuel⟩ h ?_ hpath
    cases hcy : y.color with
    | black => exact .inl ⟨rfl, hy⟩
    | red => exact .inr ⟨rfl, hy.blacken hcy⟩
  | red =>
    obtain ⟨-, hcy, -, hy⟩ := balanced_fork_red.mp hbal
    exact ⟨m, _, rfl, at_iff.mp h, redBlack_plug.mpr ⟨k, hpath, hy, .inl hcy⟩, rfl⟩

/-- A node with one child or none. -/
theorem erase_bypass (h : At m path (fork side c nil a y)) {k : Nat}
    (hfits : Fits path (fork side c nil a y) k) (hfuel : path.length < fuel) :
    Restores (m.erase fuel a) (plug y path).inorder := by
  obtain ⟨hpa, han, hay, hca, -, -⟩ := holds_fork.mp h.holds
  have hrun : m.erase fuel a = if c = .black
      then (m.spliceOut (above path) a y.top).eraseColor fuel y.top (above path)
      else .ok (m.spliceOut (above path) a y.top) := by
    unfold Mem.erase
    cases side with
    | left =>
      have hleft : m.child .left a = none := han
      have hright : m.child .right a = y.top := hay
      rw [hleft, hright]
      simp only [hpa, hca, if_true]
      rfl
    | right =>
      have hleft : m.child .left a = y.top := hay
      have hright : m.child .right a = none := han
      rw [hleft, hright]
      cases htop : y.top with
      | none =>
        simp only [hpa, hca, if_true]
        rfl
      | some e =>
        simp only [hpa, hca]
        rfl
  rw [hrun]
  exact eraseColor_bypass h.spliceOut hfits.takes hfits.balanced hfuel

/-- The parent of the hole that the next node leaves, once that node is where `a` was. -/
theorem above_swapped {p : List (Frame N)}
    (hnodup : (around (p ++ ⟨.right, c, a, l⟩ :: path)).Nodup) :
    (if above (p ++ ⟨.right, c, a, l⟩ :: path) = some a then some b
      else above (p ++ ⟨.right, c, a, l⟩ :: path)) = above (p ++ ⟨.right, c, b, l⟩ :: path) := by
  cases p with
  | nil => exact if_pos rfl
  | cons g p =>
    refine if_neg fun heq => ?_
    have hga : g.item = a := Option.some.inj heq
    have hmem : a ∈ around (p ++ ⟨.right, c, a, l⟩ :: path) :=
      item_mem_around (f := ⟨.right, c, a, l⟩) (List.mem_append_right _ List.mem_cons_self)
    rw [List.cons_append, around, List.cons_append, List.nodup_cons, hga] at hnodup
    exact hnodup.1 (List.mem_append_right _ hmem)

/-- A node with two children gives its place to the next one. -/
theorem erase_swap (h : At m path (fork .left c l a r)) {k : Nat}
    (hfits : Fits path (fork .left c l a r) k) (hl : l ≠ nil) (hr : r ≠ nil)
    (hfuel : (fork .left c l a r).inorder.length + path.length < fuel) :
    Restores (m.erase fuel a) (before path ++ l.inorder ++ (r.inorder ++ after path)) := by
  obtain ⟨-, hal, har, -, -, hhr⟩ := holds_fork.mp h.holds
  have har : m.child .right a = r.top := har
  obtain ⟨e, he⟩ : ∃ e, l.top = some e :=
    Option.ne_none_iff_exists'.mp fun hnone => hl (top_eq_none.mp hnone)
  obtain ⟨e', he'⟩ : ∃ e, r.top = some e :=
    Option.ne_none_iff_exists'.mp fun hnone => hr (top_eq_none.mp hnone)
  rw [(perm_fork .left c l a r).length_eq, List.length_cons, List.length_append] at hfuel
  have hle : r.inorder.length ≤ fuel := by omega
  obtain ⟨p, d, b, y, hdescend, hplug, horder⟩ := descend_spec .left hhr he' hle
  have hseq : r.inorder = b :: (plug y p).inorder := horder
  have hp : p.length ≤ r.inorder.length := by
    have hlen := length_le_around p
    rw [hplug, (perm_plug _ p).length_eq, List.length_append]
    omega
  -- the next node, in the tree around it
  have hb : At m (p ++ ⟨.right, c, a, l⟩ :: path) (fork .left d nil b y) := by
    rw [at_append, ← hplug, at_cons]
    exact h
  obtain ⟨n, hfitsb⟩ : ∃ n, Fits (p ++ ⟨.right, c, a, l⟩ :: path) (fork .left d nil b y) n := by
    rw [← redBlack_plug, plug_append, ← hplug, plug_cons]
    exact redBlack_plug.mpr ⟨k, hfits⟩
  obtain ⟨hpb, -, hby, hcb, -, -⟩ := holds_fork.mp hb.holds
  have hby : m.child .right b = y.top := hby
  have hnodupb := List.nodup_append.mp hb.nodup
  have hm₁ : At _ path (fork .left c l a (plug y p)) := at_cons.mp (at_append.mp hb.spliceOut)
  have hfresh : b ∉ (fork .left c l a (plug y p)).inorder ++ around path := by
    have hperm : ((fork .left c l a r).inorder ++ around path).Perm
        (b :: ((fork .left c l a (plug y p)).inorder ++ around path)) := by
      rw [← List.cons_append]
      refine List.Perm.append_right (around path) ?_
      show (l.inorder ++ a :: r.inorder).Perm (b :: (l.inorder ++ a :: (plug y p).inorder))
      rw [hseq]
      exact (List.Perm.append_left _ (List.Perm.swap b a _)).trans List.perm_middle
    exact (List.nodup_cons.mp (hperm.nodup_iff.mp h.nodup)).1
  obtain ⟨m₂, hplace, hm₂⟩ := hm₁.takePlace hl hfresh
  have hm₂' : At m₂ (p ++ ⟨.right, c, b, l⟩ :: path) y := at_append.mpr (at_cons.mpr hm₂)
  have hrun : m.erase fuel a = if d = .black
      then m₂.eraseColor fuel y.top (above (p ++ ⟨.right, c, b, l⟩ :: path)) else .ok m₂ := by
    have hbynot : y.top ≠ some b := fun htop =>
      (List.nodup_cons.mp hnodupb.1).1 (top_mem htop)
    have hup : (m.spliceOut (above (p ++ ⟨.right, c, a, l⟩ :: path)) b y.top).parent b =
        above (p ++ ⟨.right, c, a, l⟩ :: path) := by
      rw [Mem.spliceOut, Mem.replaceChild_parent, Mem.adopt_parent, if_neg hbynot, hpb]
    unfold Mem.erase
    rw [hal, har, he, he']
    simp only [hdescend, hby, hpb, hcb, bind, Except.bind, hup]
    rw [above_swapped hnodupb.2.1]
    simp only [hplace]
    rfl
  have hfuel' : (p ++ ⟨.right, c, b, l⟩ :: path).length < fuel := by
    rw [List.length_append, List.length_cons]
    omega
  have hrest := eraseColor_bypass hm₂' (hfitsb.takes.item b) hfitsb.balanced hfuel'
  have hattach : (Frame.attach (plug y p) ⟨.right, c, b, l⟩).inorder = l.inorder ++ r.inorder := by
    rw [hseq]
    rfl
  rw [plug_append, plug_cons, inorder_plug, hattach] at hrest
  rw [hrun]
  simpa only [List.append_assoc] using hrest

/-- `rb_erase` takes the node out and leaves a red-black tree. -/
theorem erase_spec {xs ys : List N} (h : Represents m t) (hrb : t.RedBlack)
    (ht : t.inorder = xs ++ a :: ys) (hfuel : t.inorder.length < fuel) :
    Restores (m.erase fuel a) (xs ++ ys) := by
  obtain ⟨path, c, l, r, rfl, hat, rfl, rfl, hlen⟩ := h.focus ht
  have hpath := length_le_around path
  obtain ⟨k, hfits⟩ := redBlack_plug.mp hrb
  by_cases hl : l = nil
  · subst hl
    have hleft : At m path (fork .left c nil a r) := hat
    have hrest : Restores (m.erase fuel a) _ := erase_bypass hleft hfits (by omega)
    rw [inorder_plug] at hrest
    simpa only [inorder_nil, List.append_nil, List.append_assoc] using hrest
  · by_cases hr : r = nil
    · subst hr
      have hright : At m path (fork .right c nil a l) := hat
      have hrest : Restores (m.erase fuel a) _ := erase_bypass hright hfits (by omega)
      rw [inorder_plug] at hrest
      simpa only [inorder_nil, List.nil_append, List.append_assoc] using hrest
    · exact erase_swap hat hfits hl hr (by
        show (node c l a r).inorder.length + path.length < fuel
        omega)

end WorkflowKernel.Rbtree
