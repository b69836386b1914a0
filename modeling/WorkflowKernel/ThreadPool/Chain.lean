import WorkflowKernel.ThreadPool.Count

/-!
# The join chain

The pool keeps one thread id. Each worker that leaves through `__thrdpool_exit_routine` puts its own
there and joins the one that it finds, and `__thrdpool_terminate` joins the last one. `Handed` says
of the workers behind their exit, the latest first, that each of them either still has the next one
to join or has ended after it.

The runs are those in which every `thrdpool_increase` is over before `thrdpool_destroy` is called.

## What is proved

- `Handed.ends`: a worker of the chain ends, and the one that it joins is the one behind it.
- `Handed.all`: when the head has ended, all have, and all behind it have been joined.
- `Chain.step`: the chain, the id in the pool at its head, and what has been joined.
-/

namespace WorkflowKernel.ThreadPool

open WorkflowKernel.Transition

variable {s t : State} {n w : Nat}

/-- The workers that have been joined. -/
def State.joined (s : State) : List Nat := s.joins.map Prod.snd

/-- Each worker of the list has the next one still to join, or has ended behind it. -/
def Handed (s : State) : List Nat → Prop
  | [] => True
  | [a] => s.pc a = .joining none ∨ s.pc a = .ended
  | a :: b :: l =>
    ((s.pc a = .joining (some b) ∧ b ∉ s.joined) ∨
      (s.pc a = .ended ∧ s.pc b = .ended ∧ b ∈ s.joined)) ∧ Handed s (b :: l)

/-- A list of workers that do not move and of which none is joined but perhaps the first. -/
theorem Handed.congr : ∀ {l : List Nat}, Handed s l → (∀ a ∈ l, t.pc a = s.pc a) →
    (∀ b ∈ l.tail, b ∈ t.joined ↔ b ∈ s.joined) → Handed t l
  | [], _, _, _ => trivial
  | [a], h, hpc, _ => by
    unfold Handed at h ⊢
    rw [hpc a List.mem_cons_self]
    exact h
  | a :: b :: l, h, hpc, hjoined => by
    obtain ⟨hpair, hrest⟩ := h
    refine ⟨?_, hrest.congr (fun c hc => hpc c (List.mem_cons_of_mem _ hc)) fun c hc =>
      hjoined c (List.mem_cons_of_mem _ hc)⟩
    rw [hpc a List.mem_cons_self, hpc b (List.mem_cons_of_mem _ List.mem_cons_self),
      hjoined b List.mem_cons_self]
    exact hpair

/-- The one that a worker of the list has to join comes behind it and has not been joined. -/
theorem Handed.joining {a b : Nat} : ∀ {l : List Nat}, Handed s l → a ∈ l → l.Nodup →
    s.pc a = .joining (some b) → b ∈ l.tail ∧ b ≠ a ∧ b ∉ s.joined
  | [c], h, ha, _, hpc => by
    rw [List.mem_singleton.mp ha] at hpc
    rcases h with h | h
    · rw [h] at hpc
      cases hpc
    · rw [h] at hpc
      cases hpc
  | c :: d :: l, h, ha, hnodup, hpc => by
    obtain ⟨hc, hnodup'⟩ := List.nodup_cons.mp hnodup
    rcases List.mem_cons.mp ha with rfl | ha
    · rcases h.1 with ⟨hpair, hout⟩ | ⟨hended, -⟩
      · rw [hpair] at hpc
        cases hpc
        exact ⟨List.mem_cons_self, fun hda => hc (hda ▸ List.mem_cons_self), hout⟩
      · rw [hended] at hpc
        cases hpc
    · obtain ⟨htail, hne, hout⟩ := h.2.joining ha hnodup' hpc
      exact ⟨List.mem_cons_of_mem _ htail, hne, hout⟩

/-- What `exitJoin` does: the worker ends, and the one that it had to join is joined. -/
def Ends (s t : State) (a : Nat) : Prop :=
  t.pc = Function.update s.pc a .ended ∧ ((s.pc a = .joining none ∧ t.joined = s.joined) ∨
    ∃ b, s.pc a = .joining (some b) ∧ s.pc b = .ended ∧ t.joined = b :: s.joined)

/-- A worker of the list ends. -/
theorem Handed.ends {a : Nat} (hends : Ends s t a) :
    ∀ {l : List Nat}, Handed s l → a ∈ l → l.Nodup → Handed t l
  | [c], _, ha, _ => by
    right
    rw [hends.1, List.mem_singleton.mp ha, Function.update_self]
  | c :: d :: l, h, ha, hnodup => by
    obtain ⟨hmove, hcase⟩ := hends
    obtain ⟨hc, hnodup'⟩ := List.nodup_cons.mp hnodup
    obtain ⟨hpair, hrest⟩ := h
    have hdc : d ≠ c := fun hdc => hc (hdc ▸ List.mem_cons_self)
    by_cases hca : c = a
    · -- the worker itself: the next one is the one that it joins
      subst hca
      have hlast : ∀ b ∈ l, b ∈ t.joined ↔ b ∈ s.joined := by
        intro b hb
        rcases hcase with ⟨-, hsame⟩ | ⟨e, he, -, hadd⟩
        · rw [hsame]
        · have hed : e = d := by
            rcases hpair with ⟨hpc, -⟩ | ⟨hpc, -⟩ <;> rw [hpc] at he <;> cases he
            rfl
          have hbd : b ≠ d := by
            rintro rfl
            exact (List.nodup_cons.mp hnodup').1 hb
          rw [hadd, hed, List.mem_cons]
          simp [hbd]
      refine ⟨.inr ?_, hrest.congr ?_ hlast⟩
      · rw [hmove, Function.update_self, Function.update_of_ne hdc]
        rcases hcase with ⟨hpc, -⟩ | ⟨b, hpc, hb, hadd⟩
        · rcases hpair with ⟨hpc', -⟩ | ⟨hpc', -⟩ <;> rw [hpc'] at hpc <;> cases hpc
        · rcases hpair with ⟨hpc', -⟩ | ⟨hpc', -⟩ <;> rw [hpc'] at hpc <;> cases hpc
          rw [hadd]
          exact ⟨rfl, hb, List.mem_cons_self⟩
      · intro b hb
        rw [hmove, Function.update_of_ne]
        rintro rfl
        exact hc hb
    · have hrestMem : a ∈ d :: l := (List.mem_cons.mp ha).resolve_left (Ne.symm hca)
      refine ⟨?_, hrest.ends ⟨hmove, hcase⟩ hrestMem hnodup'⟩
      rw [hmove, Function.update_of_ne hca]
      rcases hpair with ⟨hpc, hout⟩ | ⟨hended, hd, hjoined⟩
      · left
        refine ⟨hpc, ?_⟩
        rcases hcase with ⟨-, hsame⟩ | ⟨b, hb, -, hadd⟩
        · rwa [hsame]
        · rw [hadd]
          intro hmem
          rcases List.mem_cons.mp hmem with rfl | hmem
          · -- the one that `a` joins comes behind `a`
            exact (List.nodup_cons.mp hnodup').1 (hrest.joining hrestMem hnodup' hb).1
          · exact hout hmem
      · right
        have hda : d ≠ a := by
          rintro rfl
          rcases hcase with ⟨hpc, -⟩ | ⟨b, hpc, -⟩ <;> rw [hd] at hpc <;> cases hpc
        rw [Function.update_of_ne hda]
        refine ⟨hended, hd, ?_⟩
        rcases hcase with ⟨-, hsame⟩ | ⟨b, -, -, hadd⟩
        · rwa [hsame]
        · rw [hadd]
          exact List.mem_cons_of_mem _ hjoined

/-- When the first worker has ended, all have, and all but the first have been joined. -/
theorem Handed.all : ∀ {a : Nat} {l : List Nat}, Handed s (a :: l) → s.pc a = .ended →
    ∀ b ∈ l, s.pc b = .ended ∧ b ∈ s.joined
  | _, [], _, _ => nofun
  | a, c :: l, h, ha => by
    rcases h.1 with ⟨hpc, -⟩ | ⟨-, hc, hjoined⟩
    · rw [ha] at hpc
      cases hpc
    · intro b hb
      rcases List.mem_cons.mp hb with rfl | hb
      · exact ⟨hc, hjoined⟩
      · exact h.2.all hc b hb

/-! ## The chain -/

/-- `__thrdpool_terminate` has joined the last worker. -/
def Phase.joinedLast : Phase → Bool
  | .drain | .returned => true
  | _ => false

/-- The increases are over before `thrdpool_destroy` is called. -/
def increasesFirst (s : State) : Label → Bool
  | .increase => s.phase = .idle
  | .destroy _ => !s.creating
  | _ => true

theorem inTime_of_increasesFirst {l : Label} (h : increasesFirst s l = true) : inTime s l = true := by
  cases l with
  | increase =>
    have hidle : s.phase = .idle := by simpa [increasesFirst] using h
    simp [inTime, hidle, Phase.past]
  | _ => rfl

/-- The workers behind their exit hand the joining on, and the pool holds the id of the last one. -/
structure Chain (s : State) : Prop where
  tid : s.tid = s.exits.head?
  handed : Handed s s.exits
  head : ∀ w, s.exits.head? = some w →
    (w ∈ s.joined ↔ s.phase.joinedLast = true) ∧ (s.phase.joinedLast = true → s.pc w = .ended)
  target : ∀ w, s.phase = .joining w → s.exits.head? = some w
  joined : ∀ w, w ∈ s.joined → w ∈ s.exits
  nodup : s.joined.Nodup
  self : ∀ j w, (j, w) ∈ s.joins → j ≠ some w
  creating : s.creating = true → s.phase = .idle
  detached : s.detached = if s.phase.begun then s.caller.toList else []

/-- A step that neither counts a worker out nor joins one. -/
theorem Chain.frame (h : Chain s) (hpc : ∀ a ∈ s.exits, t.pc a = s.pc a) (htid : t.tid = s.tid)
    (hexits : t.exits = s.exits) (hjoins : t.joins = s.joins)
    (hlast : t.phase.joinedLast = s.phase.joinedLast)
    (htarget : ∀ w, t.phase = .joining w → s.exits.head? = some w)
    (hcreating : t.creating = true → t.phase = .idle)
    (hdetached : t.detached = if t.phase.begun then t.caller.toList else []) : Chain t := by
  have hjoined : t.joined = s.joined := by
    unfold State.joined
    rw [hjoins]
  refine ⟨?_, ?_, ?_, ?_, ?_, ?_, ?_, hcreating, hdetached⟩
  · rw [htid, hexits]
    exact h.tid
  · rw [hexits]
    exact h.handed.congr hpc fun b _ => by rw [hjoined]
  · intro w hw
    rw [hexits] at hw
    have hmem : w ∈ s.exits := List.mem_of_head? hw
    rw [hjoined, hlast, hpc w hmem]
    exact h.head w hw
  · rw [hexits]
    exact htarget
  · rw [hjoined, hexits]
    exact h.joined
  · rw [hjoined]
    exact h.nodup
  · rw [hjoins]
    exact h.self

theorem head_not_mem_tail {v : Nat} : ∀ {l : List Nat}, l.Nodup → l.head? = some v → v ∉ l.tail
  | a :: l, hnodup, hhead => by
    obtain rfl : a = v := Option.some.inj hhead
    exact (List.nodup_cons.mp hnodup).1

/-- The wait is over only when every worker has been counted out. -/
theorem Books.mem_gone (h : Books n s) (hpast : s.phase.past = true) (hw : w < s.started) :
    w ∈ s.gone := by
  by_contra hgone
  obtain ⟨hzero, hcreating⟩ := h.past hpast
  have hpos := h.nthreads_pos hw hgone hcreating
  omega

theorem past_of_joinedLast (h : s.phase.joinedLast = true) : s.phase.past = true := by
  cases hp : s.phase <;> rw [hp] at h <;> first | rfl | cases h

theorem Books.not_past (h : Books n s) (hpc : s.pc w ≠ .absent) (hgone : w ∉ s.gone) :
    s.phase.past = false := by
  by_contra hpast
  exact hgone (h.mem_gone (by simpa using hpast) (h.lt_started hpc))

/-- A worker that has not exited and does not destroy the pool has not been counted out. -/
theorem Books.active (h : Books n s) (hpc : s.pc w = .exit ∨ s.pc w = .task) : w ∉ s.gone := by
  apply h.not_gone
  · rcases hpc with hpc | hpc <;> rw [hpc] <;> rfl
  · left
    intro hc
    have := h.caller w hc
    rcases hpc with hpc | hpc <;> rw [hpc] at this <;> rcases this with this | this <;> cases this

/-- A worker counts itself out and becomes the head of the chain. -/
theorem Chain.countOut (h : Chain s) (hbooks : Books n s) (hw : s.pc w = .exit)
    (hcreating : s.creating = false) : Chain (countOut s w) := by
  have hnotmem : w ∉ s.exits := by
    rw [hbooks.exits, hw]
    exact Bool.false_ne_true
  have hnotpast := hbooks.not_past (by rw [hw]; simp) (hbooks.active (.inl hw))
  have hnotlast : s.phase.joinedLast = false := by
    by_contra hlast
    rw [past_of_joinedLast (by simpa using hlast)] at hnotpast
    cases hnotpast
  obtain ⟨hbegun, hpast, hidle, -⟩ := countOut_phase s w
  have hlast : (ThreadPool.countOut s w).phase.joinedLast = false := by
    by_contra hlast
    rw [past_of_joinedLast (by simpa using hlast), hnotpast] at hpast
    cases hpast
  have hpc : ∀ a ∈ s.exits, (ThreadPool.countOut s w).pc a = s.pc a := by
    intro a ha
    apply Function.update_of_ne
    rintro rfl
    exact hnotmem ha
  have hhanded : Handed (ThreadPool.countOut s w) s.exits :=
    h.handed.congr hpc fun b _ => Iff.rfl
  have hpcw : (ThreadPool.countOut s w).pc w = .joining s.tid := Function.update_self ..
  refine ⟨rfl, ?handed, ?head, ?target, ?joined, h.nodup, h.self, ?creating, ?detached⟩
  case handed =>
    show Handed (ThreadPool.countOut s w) (w :: s.exits)
    rw [h.tid] at hpcw
    cases hexits : s.exits with
    | nil =>
      rw [hexits] at hpcw
      exact .inl hpcw
    | cons b l =>
      rw [hexits] at hpcw hhanded
      refine ⟨.inl ⟨hpcw, ?_⟩, hhanded⟩
      have hb := (h.head b (by rw [hexits]; rfl)).1
      rw [hnotlast] at hb
      exact fun hmem => Bool.false_ne_true (hb.mp hmem)
  case head =>
    intro v hv
    obtain rfl : w = v := Option.some.inj hv
    rw [hlast]
    refine ⟨⟨fun hmem => absurd (h.joined w hmem) hnotmem, nofun⟩, nofun⟩
  case target =>
    intro v hv
    rw [hv, hnotpast] at hpast
    cases hpast
  case joined =>
    exact fun v hv => List.mem_cons_of_mem _ (h.joined v hv)
  case creating =>
    intro hc
    rw [show s.creating = true from hc] at hcreating
    cases hcreating
  case detached =>
    rw [hbegun]
    exact h.detached

/-- A worker joins the one it found in the pool. -/
theorem Chain.exitJoin (h : Chain s) (hbooks : Books n s) (hstep : exitJoin s w = some t) :
    Chain t := by
  have hnodup : s.exits.Nodup := (List.nodup_append.mp hbooks.nodup).1
  unfold ThreadPool.exitJoin at hstep
  split at hstep
  · next hw =>
    cases hstep
    have hmem : w ∈ s.exits := by
      rw [hbooks.exits, hw]
      rfl
    have hends : Ends s (s.setPc w .ended) w := ⟨rfl, .inl ⟨hw, rfl⟩⟩
    refine ⟨h.tid, h.handed.ends hends hmem hnodup, ?head, h.target, h.joined, h.nodup, h.self,
      h.creating, h.detached⟩
    case head =>
      intro v hv
      obtain ⟨hjoined, hended⟩ := h.head v hv
      refine ⟨hjoined, fun hlast => ?_⟩
      have hne : v ≠ w := by
        rintro rfl
        rw [hended hlast] at hw
        cases hw
      exact (Function.update_of_ne hne ..).trans (hended hlast)
  · next b hw =>
    split at hstep
    · next hb =>
      cases hstep
      have hmem : w ∈ s.exits := by
        rw [hbooks.exits, hw]
        rfl
      have hends : Ends s ((s.join (some w) b).setPc w .ended) w := ⟨rfl, .inr ⟨b, hw, hb, rfl⟩⟩
      obtain ⟨htail, hne, hout⟩ := h.handed.joining hmem hnodup hw
      have hjoined : ((s.join (some w) b).setPc w .ended).joined = b :: s.joined := rfl
      refine ⟨h.tid, h.handed.ends hends hmem hnodup, ?head, h.target, ?joined, ?nodup, ?self,
        h.creating, h.detached⟩
      case head =>
        intro v hv
        obtain ⟨hiff, hended⟩ := h.head v hv
        have hvb : v ≠ b := by
          rintro rfl
          exact head_not_mem_tail hnodup hv htail
        refine ⟨?_, fun hlast => ?_⟩
        · rw [hjoined, List.mem_cons]
          simp only [hvb, false_or]
          exact hiff
        · have hvw : v ≠ w := by
            rintro rfl
            rw [hended hlast] at hw
            cases hw
          exact (Function.update_of_ne hvw ..).trans (hended hlast)
      case joined =>
        intro v hv
        rw [hjoined] at hv
        rcases List.mem_cons.mp hv with rfl | hv
        · exact List.mem_of_mem_tail htail
        · exact h.joined v hv
      case nodup =>
        rw [hjoined]
        exact List.nodup_cons.mpr ⟨hout, h.nodup⟩
      case self =>
        intro j v hv
        rcases List.mem_cons.mp hv with heq | hv
        · cases heq
          exact fun hwb => hne (Option.some.inj hwb).symm
        · exact h.self j v hv
    · cases hstep
  · cases hstep

/-- `__thrdpool_terminate` joins the last worker. -/
theorem Chain.terminateJoin (h : Chain s) (hbooks : Books n s)
    (hstep : terminateJoin s = some t) : Chain t := by
  have hnodup : s.exits.Nodup := (List.nodup_append.mp hbooks.nodup).1
  unfold ThreadPool.terminateJoin at hstep
  split at hstep
  · next b hphase =>
    split at hstep
    · next hb =>
      cases hstep
      have hhead := h.target b hphase
      have hmem : b ∈ s.exits := List.mem_of_head? hhead
      have hout : b ∉ s.joined := by
        intro hin
        have hlast := (h.head b hhead).1.mp hin
        rw [hphase] at hlast
        cases hlast
      have hjoined : State.joined { s.join s.caller b with phase := .drain } = b :: s.joined := rfl
      refine ⟨h.tid, ?handed, ?head, nofun, ?joined, ?nodup, ?self, ?creating, ?detached⟩
      case handed =>
        refine h.handed.congr (fun a _ => rfl) fun c hc => ?_
        have hcb : c ≠ b := by
          rintro rfl
          exact head_not_mem_tail hnodup hhead hc
        rw [hjoined, List.mem_cons]
        simp only [hcb, false_or]
      case head =>
        intro v hv
        obtain rfl : b = v := Option.some.inj (hhead.symm.trans hv)
        rw [hjoined]
        exact ⟨⟨fun _ => rfl, fun _ => List.mem_cons_self⟩, fun _ => hb⟩
      case joined =>
        intro v hv
        rw [hjoined] at hv
        rcases List.mem_cons.mp hv with rfl | hv
        · exact hmem
        · exact h.joined v hv
      case nodup =>
        rw [hjoined]
        exact List.nodup_cons.mpr ⟨hout, h.nodup⟩
      case self =>
        intro j v hv
        rcases List.mem_cons.mp hv with heq | hv
        · cases heq
          intro hc
          -- the worker that destroys the pool has not exited
          have hdestroys := hbooks.caller b hc
          rw [hb] at hdestroys
          rcases hdestroys with hd | hd <;> cases hd
        · exact h.self j v hv
      case creating =>
        intro hc
        have hidle := h.creating hc
        rw [hphase] at hidle
        cases hidle
      case detached =>
        have hdetached := h.detached
        rw [hphase] at hdetached
        exact hdetached
    · cases hstep
  · cases hstep

/-- A worker that is not behind its exit moves. -/
theorem Books.exits_pc {q : Pc} (h : Books n s) (hw : (s.pc w).exited = false) :
    ∀ a ∈ s.exits, (s.setPc w q).pc a = s.pc a := by
  intro a ha
  apply Function.update_of_ne
  rintro rfl
  rw [h.exits, hw] at ha
  cases ha

/-- Behind a test of `nthreads` in `__thrdpool_terminate` nobody has been joined by it. -/
theorem testNthreads_phase (s : State) : s.testNthreads.phase.begun = true ∧
    s.testNthreads.phase.joinedLast = false ∧ ∀ w, s.testNthreads.phase ≠ .joining w := by
  unfold State.testNthreads
  simp only
  split
  · exact ⟨rfl, rfl, nofun⟩
  · exact ⟨rfl, rfl, nofun⟩

/-- `__thrdpool_terminate` up to its wait. -/
theorem Chain.terminate (h : Chain s) (hstep : terminate s = some t) : Chain t := by
  simp only [ThreadPool.terminate] at hstep
  split at hstep
  · next hcalled =>
    obtain ⟨hphase, hfree⟩ := hcalled
    have hdetached : s.detached = [] := by
      have := h.detached
      rw [hphase] at this
      exact this
    have hnotlast : s.phase.joinedLast = false := by
      rw [hphase]
      rfl
    have hcreating : s.creating = true → t.phase = .idle := by
      intro hc
      rw [hfree] at hc
      cases hc
    split at hstep
    · next hc =>
      cases hstep
      obtain ⟨hbegun, hlast, htarget⟩ :=
        testNthreads_phase { s with nonblock := true, stop := true }
      refine h.frame (fun a _ => rfl) rfl rfl rfl (hlast.trans hnotlast.symm)
        (fun w hw => absurd hw (htarget w)) hcreating ?_
      rw [if_pos hbegun]
      show s.detached = s.caller.toList
      rw [hdetached, hc]
      rfl
    · next v hc =>
      cases hstep
      obtain ⟨hbegun, hlast, htarget⟩ :=
        testNthreads_phase (State.detach { s with nonblock := true, stop := true } v)
      refine h.frame (fun a _ => rfl) rfl rfl rfl (hlast.trans hnotlast.symm)
        (fun w hw => absurd hw (htarget w)) hcreating ?_
      rw [if_pos hbegun]
      show v :: s.detached = s.caller.toList
      rw [hdetached, hc]
      rfl
  · cases hstep

/-- `thrdpool_destroy` goes on behind the first section of `__thrdpool_terminate` and joins nobody. -/
theorem Chain.setPhase {p : Phase} (h : Chain s) (hbegun : s.phase.begun = true)
    (hp : p.begun = true) (hlast : p.joinedLast = s.phase.joinedLast)
    (htarget : ∀ w, p = .joining w → s.exits.head? = some w) : Chain { s with phase := p } := by
  refine h.frame (fun a _ => rfl) rfl rfl rfl hlast htarget ?_ ?_
  · intro hc
    rw [h.creating hc] at hbegun
    cases hbegun
  · have hdetached := h.detached
    rw [if_pos hbegun] at hdetached
    rw [if_pos hp]
    exact hdetached

theorem Chain.testNthreads (h : Chain s) (hphase : s.phase = .woken) : Chain s.testNthreads := by
  unfold State.testNthreads
  split
  · exact h.setPhase (by rw [hphase]; rfl) rfl (by rw [hphase]; rfl) (by simp)
  · exact h.setPhase (by rw [hphase]; rfl) rfl (by rw [hphase]; rfl) (by simp)

/-- The id in the pool is the one to join, if there is one. -/
theorem Chain.readTid (h : Chain s) (hstep : readTid s = some t) : Chain t := by
  unfold ThreadPool.readTid at hstep
  split at hstep
  · next hphase =>
    have htid := h.tid
    split at hstep
    · next hnone =>
      cases hstep
      rw [hnone] at htid
      refine ⟨hnone.symm ▸ htid, h.handed.congr (fun _ _ => rfl) fun _ _ => Iff.rfl, ?_, nofun,
        h.joined, h.nodup, h.self, ?_, ?_⟩
      · intro v hv
        have : (none : Option Nat) = some v := htid.trans hv
        cases this
      · intro hc
        have hidle := h.creating hc
        rw [hphase] at hidle
        cases hidle
      · have hdetached := h.detached
        rw [hphase] at hdetached
        exact hdetached
    · next w hsome =>
      cases hstep
      refine h.setPhase (by rw [hphase]; rfl) rfl (by rw [hphase]; rfl) ?_
      intro v hv
      cases hv
      rw [← htid]
      exact hsome
  · cases hstep

/-- The steps of a worker in its loop. -/
theorem Chain.goesOn (h : Chain s) (hbooks : Books n s) (hgoes : GoesOn s t w) : Chain t := by
  obtain ⟨q, queue, hw, -, rfl⟩ := hgoes
  have hexit := (Pc.working_spec hw).2.2.2.1
  exact h.frame (hbooks.exits_pc hexit) rfl rfl rfl rfl h.target h.creating h.detached

theorem Chain.increase (h : Chain s) (hbooks : Books n s) (hidle : s.phase = .idle)
    (hstep : thrdpoolIncrease s = some t) : Chain t := by
  unfold thrdpoolIncrease at hstep
  split at hstep
  · cases hstep
    have hnew : (s.pc s.started).exited = false := by
      rw [hbooks.absent _ (Nat.le_refl _)]
      rfl
    exact h.frame (hbooks.exits_pc hnew) rfl rfl rfl rfl h.target (fun _ => hidle) h.detached
  · cases hstep

/-- A task returns, and its worker frees the pool or not. -/
theorem Chain.taskReturns (h : Chain s) (hbooks : Books n s) (hstep : taskReturns s w = some t) :
    Chain t := by
  unfold ThreadPool.taskReturns at hstep
  split at hstep
  · next hw =>
    have hexited : (s.pc w).exited = false := by
      rcases hw with hw | hw <;> rw [hw] <;> rfl
    split at hstep
    · cases hstep
      exact h.frame (hbooks.exits_pc hexited) rfl rfl rfl rfl h.target h.creating h.detached
    · cases hstep
      exact h.frame (hbooks.exits_pc hexited) rfl rfl rfl rfl h.target h.creating h.detached
  · cases hstep

/-- `thrdpool_destroy` is called when the increases are over. -/
theorem Chain.destroy {caller : Option Nat} (h : Chain s) (hbooks : Books n s)
    (hfree : s.creating = false) (hstep : thrdpoolDestroy s caller = some t) : Chain t := by
  have hcreating : s.creating = true → Phase.called = .idle := by
    intro hc
    rw [hfree] at hc
    cases hc
  unfold thrdpoolDestroy at hstep
  split at hstep
  · next hidle =>
    have hdetached := h.detached
    rw [hidle] at hdetached
    split at hstep
    · cases hstep
      exact h.frame (fun a _ => rfl) rfl rfl rfl (by rw [hidle]; rfl) (by simp) hcreating hdetached
    · next w =>
      split at hstep
      · next hw =>
        cases hstep
        exact h.frame (hbooks.exits_pc (by rw [hw]; rfl)) rfl rfl rfl (by rw [hidle]; rfl)
          (by simp) hcreating hdetached
      · cases hstep
  · cases hstep

/-- The wait is woken without a notification. -/
theorem Chain.wake (h : Chain s) (hstep : wake s = some t) : Chain t := by
  unfold ThreadPool.wake at hstep
  split at hstep
  · next hphase =>
    cases hstep
    exact h.setPhase (by rw [hphase]; rfl) rfl (by rw [hphase]; rfl) (by simp)
  · cases hstep

/-- `thrdpool_destroy` returns, to the outside or to the worker that called it. -/
theorem Chain.destroyReturns (h : Chain s) (hbooks : Books n s)
    (hstep : destroyReturns s = some t) : Chain t := by
  unfold ThreadPool.destroyReturns at hstep
  split at hstep
  · next hdrain =>
    have hphase : Chain { s with phase := .returned } :=
      h.setPhase (by rw [hdrain.1]; rfl) rfl (by rw [hdrain.1]; rfl) (by simp)
    split at hstep
    · cases hstep
      exact hphase.frame (fun a _ => rfl) rfl rfl rfl rfl hphase.target hphase.creating
        hphase.detached
    · next w hc =>
      cases hstep
      have hexited : (s.pc w).exited = false := by
        have hdestroys := hbooks.caller w hc
        cases hp : s.pc w <;> simp_all [Pc.destroys, Pc.exited]
      exact hphase.frame (hbooks.exits_pc hexited) rfl rfl rfl rfl (by simp) hphase.creating
        hphase.detached
  · cases hstep

/-- Every step of the runs in which the increases come first keeps the chain. -/
theorem Chain.step {l : Label} (h : Chain s) (hbooks : Books n s)
    (hok : increasesFirst s l = true) (hstep : step s l = some t) : Chain t := by
  cases l with
  | schedule | decrease | drainTask task =>
    obtain ⟨queue, rfl⟩ := queue_of_step rfl hstep
    exact h.frame (fun a _ => rfl) rfl rfl rfl rfl h.target h.creating h.detached
  | testStop w | getTask w task | getNull w | exit w =>
    exact h.goesOn hbooks (goesOn_of_step rfl hstep)
  | increase => exact h.increase hbooks (by simpa [increasesFirst] using hok) hstep
  | increased =>
    simp only [ThreadPool.step, thrdpoolIncreased] at hstep
    split at hstep
    · cases hstep
      exact h.frame (fun a _ => rfl) rfl rfl rfl rfl h.target (by simp) h.detached
    · cases hstep
  | taskReturns w => exact h.taskReturns hbooks hstep
  | exitRoutine w =>
    simp only [ThreadPool.step, exitRoutine] at hstep
    split at hstep
    · next hw =>
      cases hstep
      exact h.countOut hbooks hw.1 hw.2
    · cases hstep
  | exitJoin w => exact h.exitJoin hbooks hstep
  | destroy caller => exact h.destroy hbooks (by simpa [increasesFirst] using hok) hstep
  | terminate => exact h.terminate hstep
  | wake => exact h.wake hstep
  | testAgain =>
    simp only [ThreadPool.step, testAgain] at hstep
    split at hstep
    · next hphase =>
      cases hstep
      exact h.testNthreads hphase.1
    · cases hstep
  | readTid => exact h.readTid hstep
  | terminateJoin => exact h.terminateJoin hbooks hstep
  | destroyReturns => exact h.destroyReturns hbooks hstep

end WorkflowKernel.ThreadPool
