import WorkflowKernel.SubTask.Invariant

/-!
# The counts are kept

One lemma for each frame that runs, by what it leaves, and the run.

## What is proved

- `Counts.step`: every step of every thread keeps the counts.
- `Counts.reachable`: they hold in every state reached.
-/

namespace WorkflowKernel.SubTask

open WorkflowKernel.Lib WorkflowKernel.Lib.CallStacks WorkflowKernel.Transition

variable {T : Type} {p : Plan T} {s s' : State T} {t u cur parent : T} {us rest : List T}
  {threads : List (List (Frame T))} {read : Option T} {old new : List (Frame T)}

/-- A step that writes these fields. -/
theorem fields {parent : T → Option T} {nleft : T → Int}
    {outstanding dispatches dones counted : T → Nat}
    (hs' : s' = ⟨parent, nleft, threads, outstanding, dispatches, dones, counted⟩) :
    (∀ u, s'.parent u = parent u) ∧ (∀ u, s'.nleft u = nleft u) ∧
      (∀ u, s'.outstanding u = outstanding u) ∧ (∀ u, s'.dispatches u = dispatches u) ∧
      (∀ u, s'.dones u = dones u) ∧ ∀ u, s'.counted u = counted u := by
  subst hs'
  exact ⟨fun _ => rfl, fun _ => rfl, fun _ => rfl, fun _ => rfl, fun _ => rfl, fun _ => rfl⟩

variable [DecidableEq T]

/-- A step that replaces these frames. -/
theorem weights (hr : Replaced s.threads s'.threads old new) :
    (∀ u, s'.starting u + (old.map (Frame.starts u)).sum =
      s.starting u + (new.map (Frame.starts u)).sum) ∧
    (∀ t u, s'.waiting t u + (old.map (Frame.waits t u)).sum =
      s.waiting t u + (new.map (Frame.waits t u)).sum) ∧
    (∀ u, s'.finishing u + (old.map (Frame.finishes u)).sum =
      s.finishing u + (new.map (Frame.finishes u)).sum) ∧
    (∀ u, s'.inDone u + (old.map (Frame.inDone u)).sum =
      s.inDone u + (new.map (Frame.inDone u)).sum) ∧
    (∀ u, s'.counting u + (old.map (Frame.counts u)).sum =
      s.counting u + (new.map (Frame.counts u)).sum) :=
  ⟨fun _ => hr.total _, fun _ _ => hr.total _, fun _ => hr.total _, fun _ => hr.total _,
    fun _ => hr.total _⟩

theorem uncounted_congr (hcounted : ∀ u, s'.counted u = s.counted u) (us : List T) :
    uncounted p s' us = uncounted p s us := by
  simp only [uncounted, hcounted]

omit [DecidableEq T] in
/-- A running frame has a part in a count. -/
theorem pos_of_runs {w : Frame T → Nat} {f : Frame T} (hruns : Runs s.threads f) (hw : w f = 1) :
    1 ≤ total w s.threads := by
  rw [← hw]
  exact le_total hruns

namespace Counts

theorem frames_step (h : Counts p s) (hr : Replaced s.threads s'.threads old new)
    (hnew : ∀ f ∈ new, FrameOk p f) : ∀ f, Runs s'.threads f → FrameOk p f := by
  intro f hf
  rcases hr.runs f hf with hold | hmem
  · exact h.frames f hold
  · exact hnew f hmem

/-- User code, or a loop at its end, returns. -/
theorem returned (h : Counts p s) (hr : Replaced s.threads s'.threads old [])
    (hold : old = [.body t] ∨ old = [.loop t []]) (hs' : s' = { s with threads := s'.threads }) :
    Counts p s' := by
  have hframes := h.frames_step hr (by simp)
  obtain ⟨hstart, hwait, hfin, hin, hcount⟩ := weights hr
  obtain ⟨hparent, hnleft, hout, hdisp, hdones, hcounted⟩ := fields hs'
  have huncounted := uncounted_congr (p := p) hcounted
  rcases hold with rfl | rfl <;>
    simp only [List.map_cons, List.map_nil, List.sum_cons, List.sum_nil, Frame.starts, Frame.waits,
      Frame.finishes, Frame.inDone, Frame.counts, Nat.add_zero, List.count_nil, ite_self]
      at hstart hwait hfin hin hcount
  all_goals
    obtain ⟨hroot, hsubtask, hnext, hleaf, hparallel, hended, hparents, -, hnlefts⟩ := h
    constructor <;> first | assumption | grind

theorem dispatchLeaf (h : Counts p s) (hr : Replaced s.threads s'.threads [.dispatch t] [.body t])
    (hsub : p.subtasks t = none)
    (hs' : s' = { s with
      dispatches := bump s.dispatches t
      outstanding := bump s.outstanding t
      threads := s'.threads }) : Counts p s' := by
  have hframes := h.frames_step hr (by simp [FrameOk])
  obtain ⟨hstart, hwait, hfin, hin, hcount⟩ := weights hr
  simp only [List.map_cons, List.map_nil, List.sum_cons, List.sum_nil, Frame.starts, Frame.waits,
    Frame.finishes, Frame.inDone, Frame.counts, Nat.add_zero] at hstart hwait hfin hin hcount
  obtain ⟨hparent, hnleft, hout, hdisp, hdones, hcounted⟩ := fields hs'
  simp only [bump_apply] at hout hdisp
  have hbound := h.bound
  have huncounted := uncounted_congr (p := p) hcounted
  obtain ⟨hroot, hsubtask, hnext, hleaf, hparallel, hended, hparents, -, hnlefts⟩ := h
  constructor <;> first | assumption | grind

/-- `ParallelTask::dispatch` up to its loop. -/
theorem dispatchParallel (h : Counts p s) (hruns : Runs s.threads (.dispatch t))
    (hsub : p.subtasks t = some us)
    (hr : Replaced s.threads s'.threads [.dispatch t]
      (if us.length ≠ 0 then [.loop t us] else [.subtaskDone t]))
    (hs' : s' = { s with
      dispatches := bump s.dispatches t
      nleft := Function.update s.nleft t us.length
      threads := s'.threads }) : Counts p s' := by
  have hpos : 1 ≤ s.starting t := pos_of_runs hruns (by rw [Frame.starts, if_pos rfl])
  have hbound := h.bound
  have hbefore : s.dispatches t = 0 := by
    have ht := hbound t
    omega
  have hzero := h.done_le t
  have hnodup := p.subtask_once hsub
  have hcard : (uncounted p s us).card = us.length := by
    have hnone : ∀ u ∈ us, s.counted (p.last u) = 0 :=
      fun u hu => h.uncounted_before hsub hu hbefore
    rw [uncounted, Finset.filter_true_of_mem (by simpa using hnone),
      List.toFinset_card_of_nodup hnodup]
  have honce : ∀ u ∈ us, us.count u = 1 := fun u hu => List.count_eq_one_of_mem hnodup hu
  obtain ⟨hparent, hnleft, hout, hdisp, hdones, hcounted⟩ := fields hs'
  simp only [bump_apply, Function.update_apply] at hnleft hdisp
  have huncounted := uncounted_congr (p := p) hcounted
  split at hr
  next hne =>
    have hframes := h.frames_step hr (by simp [FrameOk, hsub])
    obtain ⟨hstart, hwait, hfin, hin, hcount⟩ := weights hr
    simp only [List.map_cons, List.map_nil, List.sum_cons, List.sum_nil, Frame.starts, Frame.waits,
      Frame.finishes, Frame.inDone, Frame.counts, Nat.add_zero] at hstart hwait hfin hin hcount
    obtain ⟨hroot, hsubtask, hnext, hleaf, hparallel, hended, hparents, -, hnlefts⟩ := h
    constructor <;> first | assumption | grind
  next hempty =>
    have hframes := h.frames_step hr (by simp [FrameOk])
    obtain ⟨hstart, hwait, hfin, hin, hcount⟩ := weights hr
    simp only [List.map_cons, List.map_nil, List.sum_cons, List.sum_nil, Frame.starts, Frame.waits,
      Frame.finishes, Frame.inDone, Frame.counts, Nat.add_zero] at hstart hwait hfin hin hcount
    obtain ⟨hroot, hsubtask, hnext, hleaf, hparallel, hended, hparents, -, hnlefts⟩ := h
    constructor <;> first | assumption | grind

/-- The loop of `ParallelTask::dispatch` comes to a subtask. -/
theorem loopNext (h : Counts p s) (hruns : Runs s.threads (.loop t (u :: rest)))
    (hr : Replaced s.threads s'.threads [.loop t (u :: rest)] [.dispatch u, .loop t rest])
    (hs' : s' = { s with
      parent := Function.update s.parent u (some t)
      threads := s'.threads }) : Counts p s' := by
  obtain ⟨us, hus, hrest⟩ := h.frames _ hruns
  have hu : u ∈ us := hrest u List.mem_cons_self
  have hframes := h.frames_step hr (by
    simp only [List.mem_cons, List.not_mem_nil, or_false, forall_eq_or_imp, forall_eq, FrameOk,
      true_and]
    exact ⟨us, hus, fun v hv => hrest v (List.mem_cons_of_mem _ hv)⟩)
  obtain ⟨hstart, hwait, hfin, hin, hcount⟩ := weights hr
  simp only [List.map_cons, List.map_nil, List.sum_cons, List.sum_nil, Frame.starts, Frame.waits,
    Frame.finishes, Frame.inDone, Frame.counts, Nat.add_zero,
    List.count_cons, beq_iff_eq] at hstart hwait hfin hin hcount
  obtain ⟨hparent, hnleft, hout, hdisp, hdones, hcounted⟩ := fields hs'
  simp only [Function.update_apply] at hparent
  have huncounted := uncounted_congr (p := p) hcounted
  -- nothing else starts `u`
  have hnotroot : p.root ≠ u := fun heq => p.root_not_subtask hus (heq ▸ hu)
  have hnotnext := p.subtask_not_next hus hu
  have honly : ∀ t' us', p.subtasks t' = some us' → u ∈ us' → t = t' :=
    fun t' us' hus' hu' => p.subtask_unique hus hus' hu hu'
  have hseries : ∀ parent, some t = some parent ↔ p.Series parent u := by
    intro parent
    rw [Option.some.injEq]
    exact ⟨fun heq => heq ▸ p.series_first hus hu,
      fun hser => (p.series_first hus hu).parallel_unique hser⟩
  obtain ⟨hroot, hsubtask, hnext, hleaf, hparallel, hended, hparents, -, hnlefts⟩ := h
  constructor <;> first | assumption | grind

/-- `subtask_done` calls `done()`. -/
theorem subtaskDone (h : Counts p s) (hruns : Runs s.threads (.subtaskDone cur))
    (hr : Replaced s.threads s'.threads [.subtaskDone cur] [.done cur (s.parent cur)])
    (hs' : s' = { s with dones := bump s.dones cur, threads := s'.threads }) : Counts p s' := by
  have hpos : 1 ≤ s.finishing cur := pos_of_runs hruns (by rw [Frame.finishes, if_pos rfl])
  have hdone := h.done_le cur
  have hread := h.parent cur (by omega)
  have hframes := h.frames_step hr (by simpa [FrameOk] using hread)
  obtain ⟨hstart, hwait, hfin, hin, hcount⟩ := weights hr
  simp only [List.map_cons, List.map_nil, List.sum_cons, List.sum_nil, Frame.starts, Frame.waits,
    Frame.finishes, Frame.inDone, Frame.counts, Nat.add_zero] at hstart hwait hfin hin hcount
  obtain ⟨hparent, hnleft, hout, hdisp, hdones, hcounted⟩ := fields hs'
  simp only [bump_apply] at hdones
  have huncounted := uncounted_congr (p := p) hcounted
  obtain ⟨hroot, hsubtask, hnext, hleaf, hparallel, hended, hparents, -, hnlefts⟩ := h
  constructor <;> first | assumption | grind

/-- `done()` returns the next task of the series. -/
theorem doneNext (h : Counts p s) (hruns : Runs s.threads (.done cur read))
    (hnextcur : p.next cur = some u)
    (hr : Replaced s.threads s'.threads [.done cur read] [.dispatch u])
    (hs' : s' = { s with
      parent := Function.update s.parent u read
      threads := s'.threads }) : Counts p s' := by
  have hframes := h.frames_step hr (by simp [FrameOk])
  obtain ⟨hstart, hwait, hfin, hin, hcount⟩ := weights hr
  simp only [List.map_cons, List.map_nil, List.sum_cons, List.sum_nil, Frame.starts, Frame.waits,
    Frame.finishes, Frame.inDone, Frame.counts, Nat.add_zero] at hstart hwait hfin hin hcount
  obtain ⟨hparent, hnleft, hout, hdisp, hdones, hcounted⟩ := fields hs'
  simp only [Function.update_apply] at hparent
  have huncounted := uncounted_congr (p := p) hcounted
  -- nothing else starts `u`
  have hnotroot : p.root ≠ u := fun heq => p.root_not_next cur (heq ▸ hnextcur)
  have honly : ∀ t', p.next t' = some u → cur = t' := fun t' ht' => p.next_unique hnextcur ht'
  have hnotsub : ∀ t us, p.subtasks t = some us → u ∉ us :=
    fun t us hus hu => p.subtask_not_next hus hu cur hnextcur
  have hseries : ∀ parent, read = some parent ↔ p.Series parent u := by
    intro parent
    rw [p.series_next hnextcur]
    exact h.frames _ hruns parent
  obtain ⟨hroot, hsubtask, hnext, hleaf, hparallel, hended, hparents, -, hnlefts⟩ := h
  constructor <;> first | assumption | grind

/-- `done()` returns NULL. -/
theorem doneLast (h : Counts p s) (hruns : Runs s.threads (.done cur read))
    (hend : p.next cur = none)
    (hr : Replaced s.threads s'.threads [.done cur read]
      (read.toList.map fun parent => .decrement cur parent))
    (hs' : s' = { s with threads := s'.threads }) : Counts p s' := by
  have hseries := h.frames _ hruns
  obtain ⟨hparent, hnleft, hout, hdisp, hdones, hcounted⟩ := fields hs'
  have huncounted := uncounted_congr (p := p) hcounted
  cases read with
  | none =>
    have hframes := h.frames_step hr (by simp)
    have hnoseries : ∀ parent, ¬ p.Series parent cur :=
      fun parent hser => nomatch (hseries parent).mpr hser
    obtain ⟨hstart, hwait, hfin, hin, hcount⟩ := weights hr
    simp only [List.map_cons, List.map_nil, List.sum_cons, List.sum_nil, Frame.starts, Frame.waits,
      Frame.finishes, Frame.inDone, Frame.counts, Nat.add_zero, Option.toList_none]
      at hstart hwait hfin hin hcount
    obtain ⟨hroot, hsubtask, hnext, hleaf, hparallel, hended, hparents, -, hnlefts⟩ := h
    constructor <;> first | assumption | grind
  | some read =>
    have hframes := h.frames_step hr (by
      simpa [FrameOk, hend] using (hseries read).mp rfl)
    obtain ⟨hstart, hwait, hfin, hin, hcount⟩ := weights hr
    simp only [List.map_cons, List.map_nil, List.sum_cons, List.sum_nil, Frame.starts, Frame.waits,
      Frame.finishes, Frame.inDone, Frame.counts, Nat.add_zero, Option.toList_some]
      at hstart hwait hfin hin hcount
    obtain ⟨hroot, hsubtask, hnext, hleaf, hparallel, hended, hparents, -, hnlefts⟩ := h
    constructor <;> first | assumption | grind

/-- User code calls `subtask_done` of a leaf. -/
theorem called (h : Counts p s) (hout : 0 < s.outstanding t)
    (hr : Replaced s.threads s'.threads [] [.subtaskDone t])
    (hs' : s' = { s with
      threads := s'.threads
      outstanding := Function.update s.outstanding t (s.outstanding t - 1) }) : Counts p s' := by
  have hframes := h.frames_step hr (by simp [FrameOk])
  obtain ⟨hstart, hwait, hfin, hin, hcount⟩ := weights hr
  simp only [List.map_cons, List.map_nil, List.sum_cons, List.sum_nil, Frame.starts, Frame.waits,
    Frame.finishes, Frame.inDone, Frame.counts, Nat.add_zero] at hstart hwait hfin hin hcount
  obtain ⟨hparent, hnleft, houts, hdisp, hdones, hcounted⟩ := fields hs'
  simp only [Function.update_apply] at houts
  have huncounted := uncounted_congr (p := p) hcounted
  obtain ⟨hroot, hsubtask, hnext, hleaf, hparallel, hended, hparents, -, hnlefts⟩ := h
  constructor <;> first | assumption | grind

/-- The decrement counts one series off, of this `ParallelTask` and of no other. -/
theorem uncounted_decrement (h : Counts p s) (hruns : Runs s.threads (.decrement cur parent))
    (hcounted : ∀ u, s'.counted u = s.counted u + if cur = u then 1 else 0) :
    (∀ t us, p.subtasks t = some us → t ≠ parent → uncounted p s' us = uncounted p s us) ∧
    ∀ us, p.subtasks parent = some us →
      (uncounted p s' us).card + 1 = (uncounted p s us).card := by
  obtain ⟨-, hzero, -, us, u, hus, hu, hlast⟩ := h.uncounted_mem hruns
  have hseries := (h.frames _ hruns).1
  have hlasts : ∀ t us x, p.subtasks t = some us → x ∈ us → p.last x = cur → t = parent := by
    intro t us x hus hx heq
    have hx : p.Series t (p.last x) := ⟨us, x, hus, hx, Plan.follows_last x⟩
    rw [heq] at hx
    exact hx.parallel_unique hseries
  constructor
  · intro t us' hus' hne
    refine Finset.filter_congr fun x hx => ?_
    have hother : cur ≠ p.last x := fun heq =>
      hne (hlasts t us' x hus' (List.mem_toFinset.mp hx) heq.symm)
    rw [hcounted, if_neg hother, Nat.add_zero]
  · intro us' hus'
    obtain rfl : us = us' := by
      rw [hus] at hus'
      exact Option.some.inj hus'
    have herase : uncounted p s' us = (uncounted p s us).erase u := by
      ext x
      simp only [uncounted, Finset.mem_filter, Finset.mem_erase, List.mem_toFinset, hcounted]
      by_cases hx : x ∈ us
      · have hiff : cur = p.last x ↔ x = u := by
          rw [← hlast]
          constructor
          · intro heq
            exact Plan.start_unique (heq ▸ Plan.follows_last x) (Plan.follows_last u)
              (p.subtask_not_next hus hx) (p.subtask_not_next hus hu)
          · exact fun heq => heq ▸ rfl
        by_cases hxu : x = u
        · rw [if_pos (hiff.mpr hxu)]
          simp [hxu]
        · rw [if_neg (hiff.not.mpr hxu)]
          simp [hxu, hx]
      · simp [hx]
    rw [herase]
    refine Finset.card_erase_add_one ?_
    rw [uncounted, Finset.mem_filter, List.mem_toFinset, hlast]
    exact ⟨hu, hzero⟩

theorem nleft_pos (h : Counts p s) (hruns : Runs s.threads (.decrement cur parent)) :
    0 < s.nleft parent := by
  obtain ⟨hone, hzero, -, us, u, hus, hu, hlast⟩ := h.uncounted_mem hruns
  rw [h.nleft parent us hus hone, Int.natCast_pos, Finset.card_pos]
  refine ⟨u, ?_⟩
  rw [uncounted, Finset.mem_filter, List.mem_toFinset, hlast]
  exact ⟨hu, hzero⟩

theorem decrement (h : Counts p s) (hruns : Runs s.threads (.decrement cur parent))
    (hr : Replaced s.threads s'.threads [.decrement cur parent]
      (if s.nleft parent - 1 = 0 then [.subtaskDone parent] else []))
    (hs' : s' = { s with
      nleft := Function.update s.nleft parent (s.nleft parent - 1)
      counted := bump s.counted cur
      threads := s'.threads }) : Counts p s' := by
  have hpos := h.nleft_pos hruns
  have hend := (h.frames _ hruns).2
  obtain ⟨hone, -, -, us, -, hus, -, -⟩ := h.uncounted_mem hruns
  obtain ⟨hparent, hnleft, hout, hdisp, hdones, hcounted⟩ := fields hs'
  simp only [bump_apply, Function.update_apply] at hnleft hcounted
  obtain ⟨hothers, hcard⟩ := h.uncounted_decrement hruns hcounted
  split at hr
  next hlast =>
    have hframes := h.frames_step hr (by simp [FrameOk])
    obtain ⟨hstart, hwait, hfin, hin, hcount⟩ := weights hr
    simp only [List.map_cons, List.map_nil, List.sum_cons, List.sum_nil, Frame.starts, Frame.waits,
      Frame.finishes, Frame.inDone, Frame.counts, Nat.add_zero] at hstart hwait hfin hin hcount
    obtain ⟨hroot, hsubtask, hnext, hleaf, hparallel, hended, hparents, -, hnlefts⟩ := h
    constructor <;> first | assumption | grind
  next hleft =>
    have hframes := h.frames_step hr (by simp)
    obtain ⟨hstart, hwait, hfin, hin, hcount⟩ := weights hr
    simp only [List.map_cons, List.map_nil, List.sum_cons, List.sum_nil, Frame.starts, Frame.waits,
      Frame.finishes, Frame.inDone, Frame.counts, Nat.add_zero] at hstart hwait hfin hin hcount
    obtain ⟨hroot, hsubtask, hnext, hleaf, hparallel, hended, hparents, -, hnlefts⟩ := h
    constructor <;> first | assumption | grind

/-- A frame runs. -/
theorem runFrame (h : Counts p s) {i : Nat} {f : Frame T} {below : List (Frame T)}
    (hi : s.threads[i]? = some (f :: below)) :
    Counts p { (runFrame p s f).1 with
      threads := s.threads.set i ((runFrame p s f).2 ++ below) } := by
  have hruns := runs_head hi
  have hr := fun new => Replaced.run hi new
  cases f with
  | dispatch t =>
    simp only [SubTask.runFrame, dispatch]
    split
    next hsub => exact h.dispatchLeaf (hr _) hsub rfl
    next us hsub => exact h.dispatchParallel hruns hsub (hr _) rfl
  | body t => exact h.returned (hr _) (.inl rfl) rfl
  | loop t rest =>
    cases rest with
    | nil => exact h.returned (hr _) (.inr rfl) rfl
    | cons u rest => exact h.loopNext hruns (hr _) rfl
  | subtaskDone cur => exact h.subtaskDone hruns (hr _) rfl
  | done cur read =>
    simp only [SubTask.runFrame, doneReturned]
    split
    next u hnext => exact h.doneNext hruns hnext (hr _) rfl
    next hend => exact h.doneLast hruns hend (hr _) rfl
  | decrement cur parent => exact h.decrement hruns (hr _) rfl

theorem step (h : Counts p s) {l : Label T} (hstep : step p s l = some s') : Counts p s' := by
  cases l with
  | run i =>
    rw [SubTask.step] at hstep
    split at hstep
    next f below hi =>
      cases hstep
      exact h.runFrame hi
    next => cases hstep
  | call i t =>
    rw [SubTask.step] at hstep
    split at hstep
    next stack hi =>
      split at hstep
      next hcond =>
        cases hstep
        exact h.called hcond.2 (Replaced.call hi _) rfl
      next => cases hstep
    next => cases hstep

theorem start (p : Plan T) (others : Nat) : Counts p (State.start p.root others) := by
  have htotal : ∀ w, total w (State.start p.root others).threads = w (.dispatch p.root) := by
    intro w
    simp [total, State.start]
  have hstart : ∀ t, (State.start p.root others).starting t = if p.root = t then 1 else 0 :=
    fun t => htotal _
  have hwait : ∀ t u, (State.start p.root others).waiting t u = 0 := fun t u => htotal _
  have hfin : ∀ t, (State.start p.root others).finishing t = 0 := fun t => htotal _
  have hin : ∀ t, (State.start p.root others).inDone t = 0 := fun t => htotal _
  have hcount : ∀ t, (State.start p.root others).counting t = 0 := fun t => htotal _
  constructor
  · rw [hstart, if_pos rfl]
    rfl
  · intro parent us u hus hu
    have hne : p.root ≠ u := fun heq => p.root_not_subtask hus (heq ▸ hu)
    rw [hstart, hwait, if_neg hne]
    rfl
  · intro t u hnext
    have hne : p.root ≠ u := fun heq => p.root_not_next t (heq ▸ hnext)
    rw [hstart, hin, if_neg hne]
    rfl
  · intro t ht
    rw [hfin]
    rfl
  · intro t us ht
    rw [hfin]
    exact ⟨rfl, rfl⟩
  · intro parent t hend hseries
    rw [hcount, hin]
    rfl
  · intro t ht parent
    rw [hstart] at ht
    split at ht
    next heq =>
      subst heq
      refine ⟨?_, fun hseries => absurd hseries Plan.not_series_root⟩
      intro hparent
      cases hparent
    next => exact absurd ht (by simp [State.start])
  · rintro f ⟨stack, hmem, hf⟩
    simp only [State.start, List.mem_cons, List.mem_replicate] at hmem
    rcases hmem with rfl | ⟨-, rfl⟩
    · rw [List.mem_singleton] at hf
      subst hf
      trivial
    · cases hf
  · intro parent us hus hone
    cases hone

theorem reachable (h : (system p).Reachable s) : Counts p s :=
  InductiveInvariant.holds
    { init := by
        rintro s ⟨others, rfl⟩
        exact start p others
      step := fun _ _ _ hs _ hstep => hs.step hstep } h

end Counts

end WorkflowKernel.SubTask
