import WorkflowKernel.Rbtree.Represent

/-!
# __rb_erase_color

The loop starts at a subtree that passes one black node less than the path above asks for, and
moves the missing node up until a red node is painted black or a sibling gives one away.

## What is proved

- `eraseColor_spec`: the loop ends with a red-black tree of the same sequence.
-/

namespace WorkflowKernel.Rbtree

open WorkflowKernel.Lib
open WorkflowKernel.Lib.RbTree

variable {N : Type} [DecidableEq N] {m : Mem N} {path : List (Frame N)} {t s x y z : RbTree N}
  {side : Side} {c : Color} {a b e : N} {n fuel : Nat}

omit [DecidableEq N] in
/-- The root is one of the nodes above. -/
theorem root_above {f : Frame N} {o : Option N} (h : HoldsPath m (f :: path) o) :
    ∃ r ∈ around (f :: path), m.root = some r := by
  induction path generalizing f o with
  | nil => exact ⟨f.item, List.mem_cons_self, h.2.2.2.2.2⟩
  | cons g path ih =>
    obtain ⟨r, hr, hroot⟩ := ih h.2.2.2.2.2
    exact ⟨r, List.mem_cons_of_mem _ (List.mem_append_right _ hr), hroot⟩

/-- The loop is over: the node is red, or there is nothing above. -/
theorem eraseColor_done (fuel : Nat) (h : At m path t) (hover : t.color = .red ∨ path = []) :
    ∃ m', m.eraseColor (fuel + 1) t.top (above path) = .ok m' ∧ At m' path t.blacken := by
  refine ⟨_, ?_, h.blacken⟩
  rw [Mem.eraseColor, if_pos]
  · rfl
  · rcases hover with hred | rfl
    · exact .inl (h.holds.isRed.trans (decide_eq_true hred))
    · exact .inr (Eq.symm h.holdsPath)

/-- One round of the loop. -/
theorem eraseColor_succ (h : At m (⟨side, c, a, s⟩ :: path) t) (hblack : t.color = .black)
    (hs : s.top = some b) : m.eraseColor (fuel + 1) t.top (some a) =
      if m.color b = .red then
        (((m.setColor b .black).setColor a .red).rotate side a).bind
          fun m => (deref (m.child side.other a)).bind
            (m.eraseBlack (Mem.eraseColor fuel) side a)
      else m.eraseBlack (Mem.eraseColor fuel) side a b := by
  have hnot : ¬(m.isRed t.top ∨ t.top = m.root) := by
    rintro (hred | hroot)
    · rw [h.holds.isRed, hblack] at hred
      cases hred
    · obtain ⟨r, hr, hrr⟩ := root_above h.holdsPath
      exact (List.nodup_append.mp h.nodup).2.2 r (top_mem (hroot.trans hrr)) r hr rfl
  have hside := h.side_eq (.inr fun hnil => by rw [show s = nil from hnil] at hs; cases hs)
  obtain ⟨-, -, hother, -, -, -⟩ := h.holdsPath
  have hother : m.child side.other a = some b := hother.trans hs
  rw [Mem.eraseColor, if_neg hnot]
  simp only [deref, bind, hside, hother, Except.bind]

/-- Both nephews are black: the missing node moves up. -/
theorem eraseBlack_up (loop : Mem N → Option N → Option N → Except Fault (Mem N))
    (h : At m (⟨side, c, a, fork side .black y b z⟩ :: path) t) (hy : y.color = .black)
    (hz : z.color = .black) : ∃ m', m.eraseBlack loop side a b = loop m' (some a) (above path) ∧
      At m' path (fork side c t a (fork side .red y b z)) := by
  have hsibling := at_sibling.mp h
  have hpaint := at_cons.mp (at_sibling.mpr (hsibling.setColor .red))
  obtain ⟨-, hby, hbz, -, hhy, hhz⟩ := holds_fork.mp hsibling.holds
  have hup : m.parent a = above path := (at_cons.mp h).holds.parent (top_fork ..)
  refine ⟨_, ?_, hpaint⟩
  rw [Mem.eraseBlack, if_pos, hup]
  rw [hby, hbz, hhy.isRed, hhz.isRed, hy, hz]
  decide

/-- The sibling takes the parent's place, and a red far nephew the sibling's. -/
theorem rotate_parent (h : At m (⟨side, c, a, fork side .black y b z⟩ :: path) t) :
    let m₁ := (m.setColor b (m.color a)).setColor a .black
    ∃ m', (m₁.paint .black (m₁.child side.other b)).rotate side a = .ok m' ∧
      At m' path (fork side c (fork side .black t a y) b z.blacken) := by
  have hsibling := at_sibling.mp h
  obtain ⟨-, -, hbz, -, -, -⟩ := holds_fork.mp hsibling.holds
  have hca : m.color a = c := h.holdsPath.2.2.2.1
  have hother := at_cons.mp (at_sibling.mpr (hsibling.setColor c))
  have hparent : At _ path (fork side .black t a (fork side c y b z)) := hother.setColor .black
  obtain ⟨m', hrun, hm'⟩ := (at_outer.mpr (at_outer.mp hparent).blacken).rotate
  refine ⟨m', ?_, hm'⟩
  rw [hca, Mem.setColor_child, Mem.setColor_child, hbz]
  exact hrun

/-- A red near nephew takes the sibling's place, with the sibling as its red far child. -/
theorem rotate_sibling {u v : RbTree N}
    (h : At m (⟨side, c, a, fork side .black (fork side .red u e v) b z⟩ :: path) t) : ∃ m',
      ((m.paint .black (m.child side b)).setColor b .red).rotate side.other b = .ok m' ∧
        At m' (⟨side, c, a, fork side .black u e (fork side .red v b z)⟩ :: path) t := by
  have hsibling := at_sibling.mp h
  obtain ⟨-, hbe, -, -, -, -⟩ := holds_fork.mp hsibling.holds
  have hnear : At m (⟨side, .black, b, z⟩ :: ⟨side.other, c, a, t⟩ :: path) (fork side .red u e v) :=
    at_cons.mpr hsibling
  have hpaint : At _ _ (fork side .red _ b z) := (at_cons.mp hnear.blacken).setColor .red
  rw [blacken_fork, ← fork_other side .red z b, ← fork_other side .black v] at hpaint
  obtain ⟨m', hrun, hm'⟩ := hpaint.rotate
  rw [fork_other, fork_other] at hm'
  rw [hbe]
  exact ⟨m', hrun, at_sibling.mpr hm'⟩

/-- A nephew is red: the loop ends with rotations. -/
theorem eraseBlack_end (loop : Mem N → Option N → Option N → Except Fault (Mem N))
    (h : At m (⟨side, c, a, fork side .black y b z⟩ :: path) t) (hy : y.Balanced n)
    (hz : z.Balanced n) (hred : ¬(y.color = .black ∧ z.color = .black)) :
    ∃ m' b' y' z', m.eraseBlack loop side a b = .ok (m'.paint .black m'.root) ∧
      At m' path (fork side c (fork side .black t a y') b' z') ∧ y'.Balanced n ∧
      z'.Balanced (n + 1) ∧ z'.color = .black ∧
      (fork side c (fork side .black t a y') b' z').inorder =
        (fork side c t a (fork side .black y b z)).inorder := by
  have hsibling := at_sibling.mp h
  obtain ⟨-, hby, hbz, -, hhy, hhz⟩ := holds_fork.mp hsibling.holds
  have hnot : ¬(¬m.isRed (m.child side b) ∧ ¬m.isRed (m.child side.other b)) := by
    rw [hby, hbz, hhy.isRed, hhz.isRed]
    cases hcy : y.color <;> cases hcz : z.color <;> simp [hcy, hcz] at hred ⊢
  rw [Mem.eraseBlack, if_neg hnot, hbz, hhz.isRed]
  cases hcz : z.color with
  | red =>
    obtain ⟨m', hrun, hm'⟩ := rotate_parent h
    refine ⟨m', b, y, z.blacken, ?_, hm', hy, hz.blacken hcz, color_blacken z, ?_⟩
    · rw [if_neg (by simp)]
      simp only [pure, Except.pure, bind, Except.bind, hrun]
    · exact (inorder_fork_rotate side c .black .black c t y z.blacken a b).trans
        (inorder_fork_congr rfl (inorder_fork_congr rfl (inorder_blacken z)))
  | black =>
    have hredy : y.color = .red := by
      cases hcy : y.color with
      | red => rfl
      | black => exact absurd ⟨hcy, hcz⟩ hred
    obtain ⟨e, hye⟩ : ∃ e, y.top = some e := by
      cases y with
      | nil => cases hredy
      | node _ _ e _ => exact ⟨e, rfl⟩
    obtain ⟨_, u, v, rfl⟩ := eq_fork side hye
    rw [color_fork] at hredy
    subst hredy
    obtain ⟨hu, hv, hbu, hbv⟩ := balanced_fork_red.mp hy
    obtain ⟨m₁, hrun₁, hm₁⟩ := rotate_sibling h
    obtain ⟨m', hrun, hm'⟩ := rotate_parent hm₁
    have he : m₁.child side.other a = some e := hm₁.holdsPath.2.2.1.trans (top_fork ..)
    refine ⟨m', e, u, fork side .black v b z, ?_, ?_, hbu, balanced_fork_black.mpr ⟨hbv, hz⟩,
      color_fork .., ?_⟩
    · rw [if_pos (by simp)]
      simp only [pure, Except.pure, bind, Except.bind, deref, hrun₁, he, hrun]
    · rw [blacken_fork] at hm'
      exact hm'
    · refine (inorder_fork_rotate side c .black .black c ..).trans ?_
      exact inorder_fork_congr rfl (inorder_fork_rotate side .black .black .red .black ..).symm

/-- A red sibling goes up, and its near child is the sibling now. -/
theorem rotate_red (h : At m (⟨side, .black, a, fork side .red y b z⟩ :: path) t) : ∃ m',
    ((m.setColor b .black).setColor a .red).rotate side a = .ok m' ∧
      At m' (⟨side, .red, a, y⟩ :: ⟨side, .black, b, z⟩ :: path) t := by
  have hsibling := (at_sibling.mp h).setColor .black
  have hparent : At _ path (fork side .red t a (fork side .black y b z)) :=
    (at_cons.mp (at_sibling.mpr hsibling)).setColor .red
  obtain ⟨m', hrun, hm'⟩ := hparent.rotate
  exact ⟨m', hrun, at_cons.mpr (at_cons.mpr hm')⟩

/-- The body below a black sibling, if the loop does its part on the tree above. -/
theorem eraseBlack_spec {loop : Mem N → Option N → Option N → Except Fault (Mem N)}
    (h : At m (⟨side, c, a, fork side .black y b z⟩ :: path) t) (ht : t.Balanced n)
    (htakes : Takes (⟨side, c, a, fork side .black y b z⟩ :: path) (n + 1))
    (hloop : ∀ m', At m' path (fork side c t a (fork side .red y b z)) → y.color = .black →
      z.color = .black → Restores (loop m' (some a) (above path))
        (plug (fork side c t a (fork side .red y b z)) path).inorder) :
    Restores (m.eraseBlack loop side a b)
      (plug t (⟨side, c, a, fork side .black y b z⟩ :: path)).inorder := by
  rw [plug_cons, Frame.attach]
  by_cases hred : y.color = .black ∧ z.color = .black
  · obtain ⟨m', hrun, hm'⟩ := eraseBlack_up loop h hred.1 hred.2
    obtain ⟨m'', t'', hok, hrep, hrb, hin⟩ := hloop m' hm' hred.1 hred.2
    refine ⟨m'', t'', hrun.trans hok, hrep, hrb, hin.trans ?_⟩
    exact inorder_plug_congr (inorder_fork_congr rfl (inorder_fork_color ..)) path
  · obtain ⟨hy, hz⟩ := balanced_fork_black.mp htakes.sibling
    obtain ⟨m', b', y', z', hrun, hm', hy', hz', hcz, hseq⟩ :=
      eraseBlack_end loop h hy hz hred
    have hbt : (fork side .black t a y').Balanced (n + 1) := balanced_fork_black.mpr ⟨ht, hy'⟩
    have hrb : (plug (fork side c (fork side .black t a y') b' z') path).RedBlack := by
      refine redBlack_plug.mpr ?_
      cases c with
      | black =>
        exact ⟨n + 2, htakes.2, balanced_fork_black.mpr ⟨hbt, hz'⟩, .inl (color_fork ..)⟩
      | red =>
        have hbalanced : (fork side .red (fork side .black t a y') b' z').Balanced (n + 1) :=
          balanced_fork_red.mpr ⟨color_fork .., hcz, hbt, hz'⟩
        exact ⟨n + 1, htakes.2.2.2, hbalanced, .inr htakes.2.2.1⟩
    have hrep := at_iff.mp hm'
    have hroot : m'.root = (plug (fork side c (fork side .black t a y') b' z') path).top :=
      hrep.holdsPath
    have hpaint := At.blacken hrep
    rw [← hroot, blacken_of_black hrb.1] at hpaint
    exact ⟨_, _, hrun, hpaint, hrb, inorder_plug_congr hseq path⟩

/-- The loop ends, and the tree is balanced. -/
theorem eraseColor_spec (hfuel : 0 < fuel ∧ (t.color = .red ∨ path.length < fuel)) (h : At m path t)
    (ht : t.color = .black ∧ t.Balanced n ∨ t.color = .red ∧ t.blacken.Balanced (n + 1))
    (hpath : Takes path (n + 1)) :
    Restores (m.eraseColor fuel t.top (above path)) (plug t path).inorder := by
  induction fuel generalizing m path t n with
  | zero => exact absurd hfuel.1 (Nat.lt_irrefl 0)
  | succ fuel ih =>
    rcases ht with ⟨hblack, ht⟩ | ⟨hred, ht⟩
    · match path with
      | [] =>
        obtain ⟨m', hrun, hm'⟩ := eraseColor_done fuel h (.inr rfl)
        rw [blacken_of_black hblack] at hm'
        exact ⟨m', t, hrun, hm', ⟨hblack, n, ht⟩, rfl⟩
      | ⟨side, c, a, s⟩ :: path =>
        have hlt : path.length < fuel := by
          rcases hfuel.2 with hred | hlt
          · rw [hblack] at hred
            cases hred
          · exact Nat.lt_of_succ_lt_succ hlt
        obtain ⟨b, hb⟩ : ∃ b, s.top = some b :=
          Option.ne_none_iff_exists'.mp fun hnone => hpath.sibling.ne_nil (top_eq_none.mp hnone)
        obtain ⟨d, y, z, rfl⟩ := eq_fork side hb
        have hcb : m.color b = d :=
          (holds_fork.mp (at_sibling.mp h).holds).2.2.2.1
        rw [show above (_ :: path) = some a from rfl, eraseColor_succ h hblack (top_fork ..), hcb]
        cases d with
        | black =>
          rw [if_neg nofun]
          refine eraseBlack_spec h ht hpath fun m' hm' hcy hcz => ?_
          obtain ⟨hy, hz⟩ := balanced_fork_black.mp hpath.sibling
          have hs : (fork side .red y b z).Balanced n := balanced_fork_red.mpr ⟨hcy, hcz, hy, hz⟩
          have hup : (fork side .black t a (fork side .red y b z)).Balanced (n + 1) :=
            balanced_fork_black.mpr ⟨ht, hs⟩
          rw [← top_fork side c t a (fork side .red y b z)]
          cases c with
          | black => exact ih ⟨by omega, .inr hlt⟩ hm' (.inl ⟨color_fork .., hup⟩) hpath.2
          | red =>
            rw [← blacken_fork side .red] at hup
            exact ih ⟨by omega, .inr hlt⟩ hm' (.inr ⟨color_fork .., hup⟩) hpath.2.2.2
        | red =>
          rw [if_pos rfl]
          cases c with
          | red =>
            have hcs := hpath.2.1
            rw [color_fork] at hcs
            cases hcs
          | black =>
            obtain ⟨hcy, -, hy, hz⟩ := balanced_fork_red.mp hpath.sibling
            obtain ⟨e, he⟩ : ∃ e, y.top = some e :=
              Option.ne_none_iff_exists'.mp fun hnone => hy.ne_nil (top_eq_none.mp hnone)
            obtain ⟨d, u, v, rfl⟩ := eq_fork side he
            rw [color_fork] at hcy
            subst hcy
            obtain ⟨m₁, hrot, hm₁⟩ := rotate_red h
            have hread : m₁.child side.other a = some e :=
              hm₁.holdsPath.2.2.1.trans (top_fork ..)
            have htakes : Takes (⟨side, .red, a, fork side .black u e v⟩ ::
              ⟨side, .black, b, z⟩ :: path) (n + 1) := ⟨hy, color_fork .., rfl, hz, hpath.2⟩
            have hseq : (plug t (⟨side, .red, a, fork side .black u e v⟩ ::
                ⟨side, .black, b, z⟩ :: path)).inorder =
                (plug t (⟨side, .black, a, fork side .red (fork side .black u e v) b z⟩ ::
                  path)).inorder := inorder_plug_congr (inorder_fork_rotate ..) path
            simp only [hrot, hread, deref, Except.bind]
            rw [← hseq]
            -- the parent is red now: the next round of the loop is the last one
            refine eraseBlack_spec hm₁ ht htakes fun m' hm' hcu hcv => ?_
            obtain ⟨hu, hv⟩ := balanced_fork_black.mp hy
            have hup : (fork side .red t a (fork side .red u e v)).blacken.Balanced (n + 1) := by
              rw [blacken_fork]
              exact balanced_fork_black.mpr ⟨ht, balanced_fork_red.mpr ⟨hcu, hcv, hu, hv⟩⟩
            rw [← top_fork side .red t a (fork side .red u e v)]
            exact ih ⟨by omega, .inl (color_fork ..)⟩ hm' (.inr ⟨color_fork .., hup⟩)
              htakes.2.2.2
    · obtain ⟨m', hrun, hm'⟩ := eraseColor_done fuel h (.inl hred)
      refine ⟨m', _, hrun, at_iff.mp hm', ?_, inorder_plug_congr (inorder_blacken t) path⟩
      exact redBlack_plug.mpr ⟨n + 1, hpath, ht, .inl (color_blacken t)⟩

end WorkflowKernel.Rbtree
