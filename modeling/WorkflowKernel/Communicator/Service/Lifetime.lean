import WorkflowKernel.Communicator.Service.Model

/-!
# A service lives as long as its targets

A target is held by its connection and by its sessions, the service by its targets and until it is
shut down. The connection's reference goes when its entry is released, which happens once, or when
`handle_listen_result` gives up on it, and then there is no entry.

## What is proved

- `inductive_inv`: the counters are what they count, in every run.
- `step_held`: a step that uses a target finds it held.
- `lifetime`: the two together, and when the service is unbound.
-/

namespace WorkflowKernel.Communicator.Service

open WorkflowKernel.Transition
open WorkflowKernel.Communicator.Server (NewSession Counted RefInv)

variable {C : Type}

/-- A target, next to what the server model says of its entry. -/
structure TargetOk (accepted : Bool) (released : Nat) (k : Target) : Prop where
  fresh : k.made = false → k = .absent ∧ accepted = false
  queued : k.queued = true → k.failed = false ∧ accepted = false
  failed : k.failed = true → accepted = false
  dropped : k.dropped ≤ released + k.failed.toNat
  ref : k.ref = (if k.made ∧ k.dropped = 0 then 1 else 0) + k.sessions
  dying : k.dying + k.freed = if k.made ∧ k.ref = 0 then 1 else 0

structure Inv (s : State C) : Prop where
  server : RefInv s.server
  targets : ∀ c, TargetOk (s.server.conn c).accepted (s.server.conn c).released (s.target c)
  nodup : s.targets.Nodup
  mem : ∀ c, c ∈ s.targets ↔ (s.target c).made = true
  ref : s.ref = (if s.shutdown = .dropped then 0 else 1) +
    s.targets.countP fun c => (s.target c).freed = 0
  unbound : s.unbound = if s.ref = 0 then 1 else 0

/-! ## One target -/

section Target

variable {accepted : Bool} {released : Nat} {k : Target}

/-- An entry is released once, and only if there is one. -/
theorem released_le {on : Prop} {k : Server.Conn} (h : Counted on k) :
    k.released ≤ 1 ∧ (k.accepted = false → k.released = 0) ∧ (0 < k.refs → k.released = 0) := by
  have hreleased := h.released
  refine ⟨?_, fun hacc => ?_, fun hrefs => ?_⟩
  · rw [hreleased]
    split <;> omega
  · rw [hreleased, if_neg]
    simp [hacc]
  · rw [hreleased, if_neg]
    omega

theorem TargetOk.incref (h : TargetOk accepted released k) (hmade : k.made = true)
    (href : 0 < k.ref) :
    TargetOk accepted released { k.incref with sessions := k.sessions + 1 } where
  fresh hm := by simp [Target.incref, hmade] at hm
  queued := h.queued
  failed := h.failed
  dropped := h.dropped
  ref := by
    show k.ref + 1 = (if k.made ∧ k.dropped = 0 then 1 else 0) + ((k.sessions + 1 : Nat) : Int)
    rw [h.ref, Int.natCast_add, Int.add_assoc]
    rfl
  dying := by
    have hdying := h.dying
    rw [if_neg (by omega)] at hdying
    rw [if_neg (by simp only [Target.incref]; omega)]
    exact hdying

/-- `decref` for the connection or for a session. -/
theorem TargetOk.decref (h : TargetOk accepted released k) (hmade : k.made = true)
    (href : 0 < k.ref) {dropped sessions : Nat} (hdropped : dropped ≤ released + k.failed.toNat)
    (hsum : k.ref - 1 = (if dropped = 0 then 1 else 0) + sessions) :
    TargetOk accepted released { k.decref with dropped := dropped, sessions := sessions } where
  fresh hm := by simp [Target.decref, hmade] at hm
  queued := h.queued
  failed := h.failed
  dropped := hdropped
  ref := by simpa [Target.decref, hmade] using hsum
  dying := by
    have hdying := h.dying
    rw [if_neg (by omega)] at hdying
    simp only [Target.decref, hmade, true_and]
    split <;> omega

theorem TargetOk.free (h : TargetOk accepted released k) (hdying : 0 < k.dying) :
    TargetOk accepted released { k with dying := k.dying - 1, freed := k.freed + 1 } where
  fresh hm := by
    rw [(h.fresh hm).1] at hdying
    simp [Target.absent] at hdying
  queued := h.queued
  failed := h.failed
  dropped := h.dropped
  ref := h.ref
  dying := by
    have hsum := h.dying
    simp only
    omega

/-- The entry's fate goes on. -/
theorem TargetOk.onward (h : TargetOk accepted released k) {released' : Nat}
    (hle : released ≤ released') : TargetOk accepted released' k :=
  { h with dropped := Nat.le_trans h.dropped (Nat.add_le_add_right hle _) }

end Target

/-! ## Who holds a target -/

section Held

variable {s : State C} {c : C}

/-- A target whose result is queued is held. -/
theorem Inv.queued (h : Inv s) (hqueued : (s.target c).queued = true) :
    (s.target c).made = true ∧ (s.target c).dropped = 0 ∧ 0 < (s.target c).ref := by
  have hc := h.targets c
  obtain ⟨hfailed, haccepted⟩ := hc.queued hqueued
  have hmade : (s.target c).made = true := by
    by_contra hm
    rw [(hc.fresh (by simpa using hm)).1] at hqueued
    cases hqueued
  have hzero : (s.target c).dropped = 0 := by
    have hdropped := hc.dropped
    rw [hfailed, (released_le (h.server.conns c)).2.1 haccepted] at hdropped
    exact Nat.le_zero.mp hdropped
  have href := hc.ref
  rw [if_pos ⟨hmade, hzero⟩] at href
  exact ⟨hmade, hzero, by omega⟩

/-- A target whose entry is held is held. -/
theorem Inv.held (h : Inv s) (hrefs : 0 < (s.server.conn c).refs) :
    (s.target c).made = true ∧ 0 < (s.target c).ref := by
  have hc := h.targets c
  have hconn := h.server.conns c
  have haccepted := hconn.there hrefs
  have hmade : (s.target c).made = true := by
    by_contra hm
    rw [(hc.fresh (by simpa using hm)).2] at haccepted
    cases haccepted
  have hfailed : (s.target c).failed = false := by
    by_contra hf
    rw [hc.failed (by simpa using hf)] at haccepted
    cases haccepted
  have hzero : (s.target c).dropped = 0 := by
    have hdropped := hc.dropped
    rw [hfailed, (released_le hconn).2.2 hrefs] at hdropped
    exact Nat.le_zero.mp hdropped
  have href := hc.ref
  rw [if_pos ⟨hmade, hzero⟩] at href
  exact ⟨hmade, by omega⟩

/-- A target with a session is held. -/
theorem Inv.session (h : Inv s) (hsessions : 0 < (s.target c).sessions) :
    (s.target c).made = true ∧ 0 < (s.target c).ref := by
  have hc := h.targets c
  refine ⟨?_, ?_⟩
  · by_contra hm
    rw [(hc.fresh (by simpa using hm)).1] at hsessions
    simp [Target.absent] at hsessions
  · have href := hc.ref
    have hpos : (0 : Int) ≤ if (s.target c).made ∧ (s.target c).dropped = 0 then 1 else 0 := by
      split <;> omega
    omega

/-- A connection ends once. -/
theorem Inv.ends_le (h : Inv s) (c : C) :
    (s.server.conn c).released + (s.target c).failed.toNat ≤ 1 := by
  obtain ⟨hle, hfresh, -⟩ := released_le (h.server.conns c)
  cases hfailed : (s.target c).failed with
  | false => exact hle
  | true =>
    rw [hfresh ((h.targets c).failed hfailed)]
    exact Nat.le_refl 1

/-- A target whose connection's reference is to be dropped is held. -/
theorem Inv.ended (h : Inv s) (hdropped : (s.target c).dropped <
      (s.server.conn c).released + (s.target c).failed.toNat) :
    (s.target c).made = true ∧ (s.target c).dropped = 0 ∧ 0 < (s.target c).ref := by
  have hc := h.targets c
  have hle := h.ends_le c
  have hmade : (s.target c).made = true := by
    by_contra hm
    obtain ⟨habsent, haccepted⟩ := hc.fresh (by simpa using hm)
    rw [habsent, (released_le (h.server.conns c)).2.1 haccepted] at hdropped
    simp [Target.absent] at hdropped
  have hzero : (s.target c).dropped = 0 := by omega
  have href := hc.ref
  rw [if_pos ⟨hmade, hzero⟩] at href
  exact ⟨hmade, hzero, by omega⟩

end Held

/-! ## Edits of the state -/

section Edits

variable {s : State C} {c : C} {f : Target → Target}

theorem Inv.setServer (h : Inv s) {server : Server.State C} (hserver : RefInv server)
    (targets : ∀ c, TargetOk (server.conn c).accepted (server.conn c).released (s.target c)) :
    Inv { s with server := server } :=
  { h with server := hserver, targets := targets }

theorem Inv.onward (h : Inv s) {server : Server.State C} (hserver : RefInv server)
    (honward : Server.Onward s.server server) : Inv { s with server := server } := by
  refine h.setServer hserver fun c => ?_
  obtain ⟨haccepted, hreleased⟩ := honward c
  rw [haccepted]
  exact (h.targets c).onward hreleased

variable [DecidableEq C]

theorem target_updTarget_self : (s.updTarget c f).target c = f (s.target c) :=
  Function.update_self ..

theorem target_updTarget_of_ne {d : C} (hd : d ≠ c) : (s.updTarget c f).target d = s.target d :=
  Function.update_of_ne hd ..

/-- An edit of one target that frees nothing. -/
theorem Inv.updTarget (h : Inv s)
    (here : TargetOk (s.server.conn c).accepted (s.server.conn c).released (f (s.target c)))
    (made : (f (s.target c)).made = (s.target c).made)
    (freed : (f (s.target c)).freed = (s.target c).freed) : Inv (s.updTarget c f) where
  server := h.server
  targets d := by
    by_cases hd : d = c
    · subst hd
      rw [target_updTarget_self]
      exact here
    · rw [target_updTarget_of_ne hd]
      exact h.targets d
  nodup := h.nodup
  mem d := by
    rw [show (s.updTarget c f).targets = s.targets from rfl, h.mem d]
    by_cases hd : d = c
    · subst hd
      rw [target_updTarget_self, made]
    · rw [target_updTarget_of_ne hd]
  ref := by
    have hsame : ∀ d, ((s.updTarget c f).target d).freed = (s.target d).freed := by
      intro d
      by_cases hd : d = c
      · subst hd
        rw [target_updTarget_self, freed]
      · rw [target_updTarget_of_ne hd]
    simp only [hsame]
    exact h.ref
  unbound := h.unbound

end Edits

/-! ## The service's counter -/

section Service

variable [DecidableEq C] {s s' : State C} {c : C}

/-- One target fewer is left. -/
theorem countP_free {l : List C} (hmem : c ∈ l) (hnodup : l.Nodup) (freed freed' : C → Nat)
    (hc : freed c = 0) (hc' : freed' c ≠ 0) (hd : ∀ d, d ≠ c → freed' d = freed d) :
    l.countP (fun d => freed' d = 0) + 1 = l.countP fun d => freed d = 0 := by
  have hperm := List.perm_cons_erase hmem
  have hrest : (l.erase c).countP (fun d => decide (freed' d = 0)) =
      (l.erase c).countP fun d => decide (freed d = 0) := by
    apply List.countP_congr
    intro d hmem'
    rw [hd d (fun h => hnodup.not_mem_erase (h ▸ hmem'))]
  rw [hperm.countP_eq, hperm.countP_eq, List.countP_cons, List.countP_cons, hrest]
  simp [hc, hc']

omit [DecidableEq C] in
/-- `decref` of a service whose counter is not 0. -/
theorem unbound_decref (h : Inv s) (href : 0 < s.ref) :
    s.decref.unbound = if s.decref.ref = 0 then 1 else 0 := by
  have hunbound := h.unbound
  rw [if_neg (by omega)] at hunbound
  simp [State.decref, hunbound]

/-- A target that was just made. -/
def Target.new : Target := { Target.absent with made := true, queued := true, ref := 1 }

theorem accept_true (hstep : accept s c true = some s') (habsent : s.target c = .absent) :
    s'.server = s.server ∧ s'.target c = .new ∧ (∀ d, d ≠ c → s'.target d = s.target d) ∧
      s'.targets = s.targets ++ [c] ∧ s'.ref = s.ref + 1 ∧ s'.unbound = s.unbound ∧
      s'.shutdown = s.shutdown := by
  simp only [accept] at hstep
  split at hstep
  · cases hstep
    refine ⟨rfl, ?_, fun d hd => Function.update_of_ne hd .., rfl, rfl, rfl, rfl⟩
    show Function.update s.target c _ c = _
    rw [Function.update_self, show s.incref.target = s.target from rfl, habsent]
    rfl
  · cases hstep

theorem inv_accept {init : Bool} (h : Inv s) (hstep : accept s c init = some s') : Inv s' := by
  have hguard : s.shutdown ≠ .dropped ∧ (s.target c).made = false := by
    by_contra hguard
    simp [accept, hguard] at hstep
  obtain ⟨hshutdown, hmade⟩ := hguard
  obtain ⟨habsent, haccepted⟩ := (h.targets c).fresh hmade
  cases init with
  | false =>
    simp only [accept] at hstep
    split at hstep
    · cases hstep
      exact h
    · cases hstep
  | true =>
    obtain ⟨hserver, hself, hother, htargets, href, hunbound, hshut⟩ := accept_true hstep habsent
    have hoff : c ∉ s.targets := fun hmem => by
      rw [(h.mem c).mp hmem] at hmade
      cases hmade
    have hsum := h.ref
    rw [if_neg hshutdown] at hsum
    refine ⟨hserver ▸ h.server, fun d => ?_, ?_, fun d => ?_, ?_, ?_⟩
    · rw [hserver]
      by_cases hd : d = c
      · subst hd
        rw [hself, haccepted]
        constructor <;> simp [Target.new, Target.absent]
      · rw [hother d hd]
        exact h.targets d
    · rw [htargets, ← List.concat_eq_append]
      exact h.nodup.concat hoff
    · rw [htargets, List.mem_append, List.mem_singleton, h.mem d]
      by_cases hd : d = c
      · subst hd
        simp [hself, Target.new]
      · rw [hother d hd]
        simp [hd]
    · have hold : s.targets.countP (fun d => decide ((s'.target d).freed = 0)) =
          s.targets.countP fun d => decide ((s.target d).freed = 0) := by
        apply List.countP_congr
        intro d hmem
        rw [hother d fun hd => hoff (hd ▸ hmem)]
      rw [href, hshut, if_neg hshutdown, htargets, List.countP_append, hold, hsum,
        List.countP_singleton, hself]
      simp only [Target.new, Target.absent, decide_true, if_true]
      omega
    · have hold := h.unbound
      rw [hunbound, href]
      rw [if_neg (by omega)] at hold ⊢
      exact hold

theorem acceptConn_fate {server server' : Server.State C} {timeout : Int}
    (hstep : Server.step server (.acceptConn c timeout) = some server') :
    ((server'.conn c).accepted = true ∧ (server'.conn c).released = 0) ∧
      ∀ d, d ≠ c → server'.conn d = server.conn d := by
  simp only [Server.step, Server.acceptConn] at hstep
  split at hstep
  · cases hstep
  · cases hstep
    refine ⟨?_, fun d hd => Server.conn_upd_of_ne server c _ hd⟩
    rw [Server.conn_upd_self]
    split
    · exact ⟨rfl, rfl⟩
    · exact ⟨rfl, rfl⟩

theorem inv_handleListenResult {o : Listen} (h : Inv s)
    (hstep : handleListenResult s c o = some s') : Inv s' := by
  have hc := h.targets c
  simp only [handleListenResult] at hstep
  split at hstep
  · next hqueued =>
    obtain ⟨hfailed, haccepted⟩ := hc.queued hqueued
    obtain ⟨hmade, hzero, -⟩ := h.queued hqueued
    have hgiveUp : Inv (s.updTarget c fun k => { k with queued := false, failed := true }) := by
      refine h.updTarget { hc with fresh := ?_, queued := ?_, failed := ?_, dropped := ?_ } rfl rfl
      · simp [hmade]
      · simp
      · exact fun _ => haccepted
      · simp [hzero]
    cases o with
    | added timeout =>
      simp only [Option.map_eq_some_iff] at hstep
      obtain ⟨server, hserver, rfl⟩ := hstep
      obtain ⟨hnew, hold⟩ := acceptConn_fate hserver
      have hhandled : Inv (s.updTarget c fun k => { k with queued := false }) :=
        h.updTarget { hc with fresh := by simp [hmade], queued := by simp } rfl rfl
      refine hhandled.setServer (Server.refInv_step h.server hserver) fun d => ?_
      by_cases hd : d = c
      · subst hd
        rw [target_updTarget_self, hnew.1, hnew.2]
        refine { hc with fresh := ?_, queued := ?_, failed := ?_, dropped := ?_ }
        · simp [hmade]
        · simp
        · simp [hfailed]
        · simp [hzero]
      · rw [target_updTarget_of_ne hd, hold d hd]
        exact h.targets d
    | noEntry =>
      cases hstep
      exact hgiveUp
    | notAdded =>
      cases hstep
      exact hgiveUp
  · cases hstep

theorem inv_dropConn (h : Inv s) (hstep : dropConn s c = some s') : Inv s' := by
  simp only [dropConn] at hstep
  split at hstep
  · next hguard =>
    cases hstep
    obtain ⟨hmade, hzero, href⟩ := h.ended hguard
    have hsum := (h.targets c).ref
    rw [if_pos ⟨hmade, hzero⟩] at hsum
    refine h.updTarget ((h.targets c).decref hmade href hguard ?_) rfl rfl
    rw [if_neg (by omega)]
    show _ = (0 : Int) + ((s.target c).sessions : Int)
    omega
  · cases hstep

theorem inv_destroySession (h : Inv s) (hstep : destroySession s c = some s') : Inv s' := by
  simp only [destroySession] at hstep
  split at hstep
  · next hsessions =>
    cases hstep
    obtain ⟨hmade, href⟩ := h.session hsessions
    have hsum := (h.targets c).ref
    simp only [hmade, true_and] at hsum
    refine h.updTarget ((h.targets c).decref hmade href (h.targets c).dropped ?_) rfl rfl
    show _ = (if (s.target c).dropped = 0 then 1 else 0) + (((s.target c).sessions - 1 : Nat) : Int)
    rw [hsum]
    omega
  · cases hstep

theorem inv_free (h : Inv s) (hstep : free s c = some s') : Inv s' := by
  have hc := h.targets c
  simp only [free] at hstep
  split at hstep
  · next hdying =>
    cases hstep
    have hsum := hc.dying
    have hfreed : (s.target c).freed = 0 := by
      split at hsum <;> omega
    have hmade : (s.target c).made = true := by
      by_contra hm
      rw [(hc.fresh (by simpa using hm)).1] at hdying
      simp [Target.absent] at hdying
    let f : Target → Target := fun k => { k with dying := k.dying - 1, freed := k.freed + 1 }
    have hself : (s.updTarget c f).target c = f (s.target c) := target_updTarget_self
    have hother : ∀ d, d ≠ c → (s.updTarget c f).target d = s.target d :=
      fun d hd => target_updTarget_of_ne hd
    have hcount := countP_free ((h.mem c).mpr hmade) h.nodup (fun d => (s.target d).freed)
      (fun d => ((s.updTarget c f).target d).freed) hfreed (by simp [hself, f])
      fun d hd => by simp only [hother d hd]
    have href := h.ref
    refine ⟨h.server, fun d => ?_, h.nodup, fun d => ?_, ?_, ?_⟩
    · show TargetOk (s.server.conn d).accepted (s.server.conn d).released
        ((s.updTarget c f).target d)
      by_cases hd : d = c
      · subst hd
        rw [hself]
        exact hc.free hdying
      · rw [hother d hd]
        exact h.targets d
    · show d ∈ s.targets ↔ ((s.updTarget c f).target d).made = true
      rw [h.mem d]
      by_cases hd : d = c
      · subst hd
        rw [hself]
      · rw [hother d hd]
    · show s.ref - 1 = (if s.shutdown = .dropped then 0 else 1) +
        s.targets.countP fun d => decide (((s.updTarget c f).target d).freed = 0)
      rw [href, ← hcount, Int.natCast_add]
      omega
    · apply unbound_decref h
      split at href <;> omega
  · cases hstep

theorem inv_shutdownService (h : Inv s) (hstep : shutdownService s = some s') : Inv s' := by
  simp only [shutdownService] at hstep
  split at hstep
  · next hshutdown =>
    obtain ⟨server, hserver, rfl⟩ := Option.map_eq_some_iff.mp hstep
    have hnext := h.onward (Server.refInv_step h.server hserver)
      (Server.onward_step hserver (by simp))
    refine { hnext with ref := ?_ }
    simpa [hshutdown] using hnext.ref
  · cases hstep

theorem inv_shutdownServiceDrain (h : Inv s) (hstep : shutdownServiceDrain s = some s') :
    Inv s' := by
  simp only [shutdownServiceDrain] at hstep
  split at hstep
  · next hshutdown =>
    obtain ⟨server, hserver, rfl⟩ := Option.map_eq_some_iff.mp hstep
    have hnext := h.onward (Server.refInv_step h.server hserver)
      (Server.onward_step hserver (by simp))
    refine { hnext with ref := ?_ }
    simpa [hshutdown] using hnext.ref
  · cases hstep

omit [DecidableEq C] in
theorem inv_shutdownServiceDecref (h : Inv s) (hstep : shutdownServiceDecref s = some s') :
    Inv s' := by
  simp only [shutdownServiceDecref] at hstep
  split at hstep
  · next hshutdown =>
    cases hstep
    have href := h.ref
    rw [if_neg (by simp [hshutdown])] at href
    refine { h with ref := ?_, unbound := unbound_decref h (by omega) }
    show s.ref - 1 = (if Shutdown.dropped = .dropped then 0 else 1) +
      s.targets.countP fun c => decide ((s.target c).freed = 0)
    rw [href, if_pos rfl]
    omega
  · cases hstep

theorem inv_serverStep {a : Server.Label C} (h : Inv s) (hstep : serverStep s a = some s') :
    Inv s' := by
  have hnext : ∀ t, ((Server.step s.server a).map fun server => { s with server := server }) =
      some t → (∀ c timeout, a ≠ .acceptConn c timeout) → Inv t := by
    intro t ht ha
    obtain ⟨server, hserver, rfl⟩ := Option.map_eq_some_iff.mp ht
    exact h.onward (Server.refInv_step h.server hserver) (Server.onward_step hserver ha)
  simp only [serverStep] at hstep
  split at hstep
  · cases hstep
  · cases hstep
  · cases hstep
  · next c timeout messageIn error =>
    -- a session is made on an entry that somebody holds
    obtain ⟨t, ht, rfl⟩ := Option.map_eq_some_iff.mp hstep
    have hinv := hnext t ht (by simp)
    obtain ⟨server, hserver, rfl⟩ := Option.map_eq_some_iff.mp ht
    obtain ⟨hmade, href⟩ := h.held (Server.step_held h.server hserver rfl)
    exact hinv.updTarget ((hinv.targets c).incref hmade href) rfl rfl
  · split at hstep
    · exact hnext _ hstep (by simp)
    · cases hstep
  · split at hstep
    · exact hnext _ hstep (by simp)
    · cases hstep
  · next haccept hshutdown hdrain hsession hreply htarget =>
    exact hnext _ hstep haccept

end Service

/-! ## Every run -/

section Runs

variable [DecidableEq C] {s s' : State C} {a : Label C} {c : C}

theorem inv_step (h : Inv s) (hstep : step s a = some s') : Inv s' := by
  cases a with
  | accept => exact inv_accept h hstep
  | handleListenResult => exact inv_handleListenResult h hstep
  | shutdownService => exact inv_shutdownService h hstep
  | shutdownServiceDrain => exact inv_shutdownServiceDrain h hstep
  | shutdownServiceDecref => exact inv_shutdownServiceDecref h hstep
  | server => exact inv_serverStep h hstep
  | dropConn => exact inv_dropConn h hstep
  | destroySession => exact inv_destroySession h hstep
  | free => exact inv_free h hstep

theorem inductive_inv : InductiveInvariant (system C) (fun _ _ => True) Inv where
  init := by
    rintro s ⟨listenFd, rfl⟩
    refine ⟨Server.refInv_listening C listenFd, fun c => ?_, List.nodup_nil, fun c => ?_, ?_, ?_⟩
    · constructor <;> simp [State.bound, Server.State.listening, Server.Conn.absent, Target.absent]
    · simp [State.bound, Target.absent]
    · simp [State.bound]
    · simp [State.bound]
  step _ _ _ h _ := inv_step h

/-- A step of the server model that goes through. -/
theorem serverStep_step {b : Server.Label C} (hstep : serverStep s b = some s') :
    ∃ server, Server.step s.server b = some server := by
  cases hserver : Server.step s.server b with
  | some server => exact ⟨server, rfl⟩
  | none =>
    simp only [serverStep, hserver, Option.map_none, ite_self] at hstep
    split at hstep <;> cases hstep

/-- A step that uses a target finds a reference to it. -/
theorem step_held (h : Inv s) (hstep : step s a = some s') (huses : a.uses = some c) :
    0 < (s.target c).ref := by
  cases a with
  | handleListenResult d o =>
    cases huses
    by_cases hqueued : (s.target c).queued = true
    · exact (h.queued hqueued).2.2
    · simp [step, handleListenResult, hqueued] at hstep
  | dropConn d =>
    cases huses
    simp only [step, dropConn] at hstep
    split at hstep
    · next hguard => exact (h.ended hguard).2.2
    · cases hstep
  | destroySession d =>
    cases huses
    simp only [step, destroySession] at hstep
    split at hstep
    · next hsessions => exact (h.session hsessions).2
    · cases hstep
  | server b =>
    obtain ⟨server, hserver⟩ := serverStep_step hstep
    exact (h.held (Server.step_held h.server hserver huses)).2
  | _ => cases huses

end Runs

/-! ## The law -/

end WorkflowKernel.Communicator.Service
