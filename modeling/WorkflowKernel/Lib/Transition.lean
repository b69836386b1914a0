import Mathlib.Logic.Basic

/-!
# Transition systems

A system is its initial states and one step function. A label carries every choice the
environment makes, so that the step computes and a run is a list of labels; a label that is not
enabled steps to `none`.

`System.Reaches ok` is the state set of the runs whose every step meets a condition `ok` on the
label and the state before it. An ordinary reachable state is the case of no condition, and a law
that holds of a faulty program only while a bad branch is avoided is a law about `Reaches ok`.

## What is proved

- `InductiveInvariant.holds`: a predicate that starts true and that every admitted step keeps is
  true of every state reached. Each safety theorem is this rule and a step lemma.
- `System.reaches_of_runIf`: a run that computes is a derivation, which is what turns a concrete
  list of labels into a reachable state.
- `System.run_length_le`: a measure that every step drops bounds the length of a run.
- `Simulation.reaches`: a system whose steps are each followed by a second one reaches only states
  related to states that the second one reaches; both may be held to a condition on the steps.
-/

namespace WorkflowKernel.Transition

universe u v u' v'

/-- A labelled transition system whose step computes. -/
structure System (σ : Type u) (α : Type v) where
  Init : σ → Prop
  step : σ → α → Option σ

variable {σ : Type u} {α : Type v} {τ : Type u'} {β : Type v'}

/-- The states that runs reach when every step of the run meets `ok`. -/
inductive System.Reaches (M : System σ α) (ok : σ → α → Prop) : σ → Prop
  | init {s : σ} : M.Init s → M.Reaches ok s
  | step {s t : σ} {a : α} : M.Reaches ok s → ok s a → M.step s a = some t → M.Reaches ok t

/-- The states that any run reaches. -/
abbrev System.Reachable (M : System σ α) : σ → Prop := M.Reaches fun _ _ => True

/-- Weakening the condition on the steps only adds runs. -/
theorem System.Reaches.mono {M : System σ α} {ok ok' : σ → α → Prop}
    (weaker : ∀ s a, ok s a → ok' s a) {s : σ} (h : M.Reaches ok s) : M.Reaches ok' s := by
  induction h with
  | init hs => exact .init hs
  | step _ ha hstep ih => exact .step ih (weaker _ _ ha) hstep

/-- A predicate that starts true and that every admitted step keeps. -/
structure InductiveInvariant (M : System σ α) (ok : σ → α → Prop) (I : σ → Prop) : Prop where
  init : ∀ s, M.Init s → I s
  step : ∀ s a t, I s → ok s a → M.step s a = some t → I t

/-- The invariant rule. -/
theorem InductiveInvariant.holds {M : System σ α} {ok : σ → α → Prop} {I : σ → Prop}
    (inv : InductiveInvariant M ok I) {s : σ} (h : M.Reaches ok s) : I s := by
  induction h with
  | init hs => exact inv.init _ hs
  | step _ ha hstep ih => exact inv.step _ _ _ ih ha hstep

/-! ## Runs that compute -/

/-- The run of a list of labels, refused at the first label that misses the check `ok` or is not
enabled. -/
def System.runIf (M : System σ α) (ok : σ → α → Bool) : σ → List α → Option σ
  | s, [] => some s
  | s, a :: as => if ok s a then (M.step s a).bind fun t => M.runIf ok t as else none

/-- The run of a list of labels. -/
def System.run (M : System σ α) : σ → List α → Option σ := M.runIf fun _ _ => true

/-- A run that computes extends a derivation. -/
theorem System.Reaches.runIf {M : System σ α} {ok : σ → α → Prop} {check : σ → α → Bool}
    (sound : ∀ s a, check s a = true → ok s a) :
    ∀ {s t : σ} {as : List α}, M.Reaches ok s → M.runIf check s as = some t → M.Reaches ok t
  | s, t, [], hs, hrun => by
    cases hrun
    exact hs
  | s, t, a :: as, hs, hrun => by
    simp only [System.runIf] at hrun
    split at hrun
    · next hok =>
      obtain ⟨u, hstep, hrest⟩ := Option.bind_eq_some_iff.mp hrun
      exact System.Reaches.runIf sound (.step hs (sound s a hok) hstep) hrest
    · cases hrun

/-- A checked run from an initial state reaches its last state. -/
theorem System.reaches_of_runIf {M : System σ α} {ok : σ → α → Prop} {check : σ → α → Bool}
    (sound : ∀ s a, check s a = true → ok s a) {s t : σ} {as : List α} (hs : M.Init s)
    (hrun : M.runIf check s as = some t) : M.Reaches ok t :=
  (System.Reaches.init hs).runIf sound hrun

/-- An unchecked run from an initial state reaches its last state. -/
theorem System.reachable_of_run {M : System σ α} {s t : σ} {as : List α} (hs : M.Init s)
    (hrun : M.run s as = some t) : M.Reachable t :=
  System.reaches_of_runIf (fun _ _ _ => trivial) hs hrun

/-- A measure that every step drops bounds the run. -/
theorem System.run_length_le {M : System σ α} {I : σ → Prop} {left : σ → Nat}
    (keeps : ∀ s a t, I s → M.step s a = some t → I t)
    (drops : ∀ s a t, I s → M.step s a = some t → left t < left s) :
    ∀ {s t : σ} {as : List α}, I s → M.run s as = some t → left t + as.length ≤ left s
  | s, t, [], _, hrun => by
    cases hrun
    exact Nat.le_refl _
  | s, t, a :: as, hs, hrun => by
    obtain ⟨u, hstep, hrest⟩ := Option.bind_eq_some_iff.mp hrun
    have hdrop := drops s a u hs hstep
    have hrun := System.run_length_le keeps drops (keeps s a u hs hstep) hrest
    rw [List.length_cons]
    omega

/-! ## Simulation -/

/-- A relation under which `A` follows each step of `C` that meets `ok`, by a step that meets `ok'` or
by none. -/
structure Simulation (C : System σ α) (A : System τ β) (ok : σ → α → Prop) (ok' : τ → β → Prop)
    (R : σ → τ → Prop) : Prop where
  init : ∀ s, C.Init s → ∃ t, A.Init t ∧ R s t
  step : ∀ s t a s', R s t → ok s a → C.step s a = some s' →
    ∃ t', R s' t' ∧ (t' = t ∨ ∃ b, ok' t b ∧ A.step t b = some t')

/-- Every state `C` reaches is related to one that `A` reaches, so what holds of the states of `A`
is read back through `R`. -/
theorem Simulation.reaches {C : System σ α} {A : System τ β} {ok : σ → α → Prop}
    {ok' : τ → β → Prop} {R : σ → τ → Prop} (sim : Simulation C A ok ok' R) {s : σ}
    (h : C.Reaches ok s) : ∃ t, A.Reaches ok' t ∧ R s t := by
  induction h with
  | init hs =>
    obtain ⟨t, ht, hR⟩ := sim.init _ hs
    exact ⟨t, .init ht, hR⟩
  | step _ hok hstep ih =>
    obtain ⟨t, ht, hR⟩ := ih
    obtain ⟨t', hR', rfl | ⟨b, hb, hfollow⟩⟩ := sim.step _ t _ _ hR hok hstep
    · exact ⟨t', ht, hR'⟩
    · exact ⟨t', ht.step hb hfollow, hR'⟩

end WorkflowKernel.Transition
