import WorkflowKernel.Send.Model

/-!
# The bytes sent are the message

## What is proved

- `stream_of_reachable`: whatever the kernel does, what it has accepted and what the remaining
  vectors denote make up the message at every moment, across the hand-over to the poller; the end
  of the loop and `PR_ST_FINISHED` come when everything was accepted; and a loop in which no call
  fails ends, after at most `State.work` calls.
-/

namespace WorkflowKernel.Send

open WorkflowKernel.Transition
open WorkflowKernel.Communicator

variable {β : Type}

/-- The vectors that are still to be sent. -/
def Pc.rest (vectors : List Iovec) : Pc → List Iovec
  | .sync off _ => vectors.drop off
  | .returned cnt => vectors.drop (vectors.length - cnt)
  | .node iov _ | .write iov _ _ | .leave iov _ _ | .removed iov | .failed iov _ =>
    vectors.drop iov
  | .synced | .finished => []

def State.rest (s : State β) : List Iovec := s.pc.rest s.vectors

/-- The index and the count of the code agree with the array. -/
def Pc.InBounds (size : Nat) : Pc → Prop
  | .sync off cnt => 0 < cnt ∧ off + cnt = size
  | .returned cnt => 0 < cnt ∧ cnt ≤ size
  | .node iov iovcnt => 0 < iovcnt ∧ iov + iovcnt = size
  | .write iov iovcnt _ => 0 < iovcnt ∧ iov + iovcnt = size
  | .leave iov iovcnt _ => iov + iovcnt = size
  | _ => True

structure Inv (mem : Nat → β) (message : List β) (s : State β) : Prop where
  exact : s.accepted ++ denote mem s.rest = message
  bounds : s.pc.InBounds s.vectors.length

theorem rest_syncLoop (vectors : List Iovec) (off cnt : Nat) (hsize : off + cnt = vectors.length) :
    (syncLoop off cnt).rest vectors = vectors.drop off := by
  unfold syncLoop
  split
  · rfl
  · next hdone =>
    symm
    apply List.drop_of_length_le
    omega

theorem rest_writeLoop (vectors : List Iovec) (iov iovcnt count : Nat) :
    (writeLoop iov iovcnt count).rest vectors = vectors.drop iov := by
  unfold writeLoop
  split
  · rfl
  · rfl

/-! ## One call -/

/-- What one accepted call does to the bytes: both loops. -/
theorem advance_exact (mem : Nat → β) (spent : Iovec → Iovec) (vs : List Iovec) (k n : Nat)
    (hn : n ≤ (denote mem (vs.take k)).length) :
    (denote mem (vs.take k)).take n ++
      denote mem ((advance spent n vs).2.drop (advance spent n vs).1) = denote mem vs := by
  have hprefix : (denote mem (vs.take k)).take n = (denote mem vs).take n := by
    conv => rhs; rw [← List.take_append_drop k vs, denote_append]
    rw [List.take_append_of_le_length hn]
  rw [denote_advance, hprefix, List.take_append_drop]

/-- The array after one call, from the new index on. -/
theorem drop_writeBack (spent : Iovec → Iovec) (vs : List Iovec) (off n : Nat)
    (hoff : off ≤ vs.length) :
    (writeBack vs off (advance spent n (vs.drop off)).2).drop
        (off + (advance spent n (vs.drop off)).1) =
      (advance spent n (vs.drop off)).2.drop (advance spent n (vs.drop off)).1 := by
  rw [writeBack, ← List.drop_drop, List.drop_left' (by simp [hoff])]

theorem length_writeBack (spent : Iovec → Iovec) (vs : List Iovec) (off n : Nat)
    (hoff : off ≤ vs.length) :
    (writeBack vs off (advance spent n (vs.drop off)).2).length = vs.length := by
  rw [writeBack, List.length_append, length_advance, List.length_take, List.length_drop]
  omega

/-- The first vectors of an array, up to the bound on one call. -/
theorem offered_eq_take (vs : List Iovec) (off cnt : Nat) :
    offered vs off cnt = (vs.drop off).take (min cnt IOV_MAX) := by
  unfold offered
  rw [Nat.min_def]

/-- The state of either loop after a call that accepted `n` bytes: `resume` is the loop's test. -/
def afterCall (mem : Nat → β) (spent : Iovec → Iovec) (resume : Nat → Nat → Pc) (s : State β)
    (off cnt n : Nat) : State β :=
  let r := advance spent n (s.vectors.drop off)
  { vectors := writeBack s.vectors off r.2
    pc := resume (off + r.1) (cnt - r.1)
    accepted := s.accepted ++ (denote mem (offered s.vectors off cnt)).take n }

section Call

variable {mem : Nat → β} {message : List β} {spent : Iovec → Iovec} {resume : Nat → Nat → Pc}
variable {s : State β} {off cnt n : Nat}

/-- The bytes are kept when the loop's test keeps the vectors from the new index on. -/
theorem afterCall_exact (hexact : s.accepted ++ denote mem (s.vectors.drop off) = message)
    (hsize : off + cnt = s.vectors.length) (hmay : mayAccept mem (offered s.vectors off cnt) n)
    (hrest : (afterCall mem spent resume s off cnt n).rest =
      (afterCall mem spent resume s off cnt n).vectors.drop
        (off + (advance spent n (s.vectors.drop off)).1)) :
    (afterCall mem spent resume s off cnt n).accepted ++
      denote mem (afterCall mem spent resume s off cnt n).rest = message := by
  have hn := hmay.1
  rw [hrest, ← hexact]
  simp only [afterCall, List.append_assoc]
  rw [drop_writeBack spent s.vectors off n (by omega)]
  rw [offered_eq_take] at hn ⊢
  rw [advance_exact mem spent _ _ n hn]

/-- A call that accepted nothing stepped over every vector it was offered. -/
theorem advance_pos_of_zero (spent : Iovec → Iovec) (hcnt : 0 < cnt)
    (hsize : off + cnt = s.vectors.length)
    (hmay : mayAccept mem (offered s.vectors off cnt) 0) :
    0 < (advance spent 0 (s.vectors.drop off)).1 := by
  have hempty : denote mem ((s.vectors.drop off).take (min cnt IOV_MAX)) = [] := by
    rw [← offered_eq_take]
    exact List.eq_nil_of_length_eq_zero (hmay.2 rfl)
  have hle := le_advance_of_empty spent mem 0 (min cnt IOV_MAX) (s.vectors.drop off)
    (by rw [List.length_drop]; omega) hempty
  have hmin : 0 < min cnt IOV_MAX := by
    simp only [IOV_MAX]
    omega
  omega

theorem writeBack_afterCall_length (mem : Nat → β) (spent : Iovec → Iovec)
    (resume : Nat → Nat → Pc) (cnt n : Nat) (hoff : off ≤ s.vectors.length) :
    (afterCall mem spent resume s off cnt n).vectors.length = s.vectors.length :=
  length_writeBack spent s.vectors off n hoff

theorem advance_le_count (spent : Iovec → Iovec) (n : Nat) (hsize : off + cnt = s.vectors.length) :
    (advance spent n (s.vectors.drop off)).1 ≤ cnt := by
  have hle := advance_le spent n (s.vectors.drop off)
  rw [List.length_drop] at hle
  omega

end Call

/-! ## The two loops -/

section Loops

variable {mem : Nat → β} {message : List β} {s t : State β} {off cnt count n : Nat}

/-- A call that accepted `n` bytes, in either loop. -/
theorem accept_of_step (h : step mem s (.writev (.accept n)) = some t) :
    mayAccept mem s.offers n ∧
      ((∃ off cnt, s.pc = .sync off cnt ∧ t = afterCall mem id syncLoop s off cnt n) ∨
        ∃ iov iovcnt count, s.pc = .write iov iovcnt count ∧
          t = afterCall mem spentVector (writeLoop · · (count + n)) s iov iovcnt n) := by
  simp only [step, Writev.accepts, Option.bind_eq_bind] at h
  obtain ⟨bytes, hbytes, h⟩ := Option.bind_eq_some_iff.mp h
  obtain ⟨u, hu, h⟩ := Option.bind_eq_some_iff.mp h
  obtain rfl := Option.some.inj h
  split at hbytes
  · next hmay =>
    obtain rfl := Option.some.inj hbytes
    refine ⟨hmay, ?_⟩
    unfold loopBody at hu
    split at hu
    · next off cnt hpc =>
      obtain rfl := Option.some.inj hu
      refine .inl ⟨off, cnt, hpc, ?_⟩
      simp only [State.offers, hpc, sendMessageSync, afterCall]
    · next iov iovcnt count hpc =>
      obtain rfl := Option.some.inj hu
      refine .inr ⟨iov, iovcnt, count, hpc, ?_⟩
      simp only [State.offers, hpc, handleWrite, afterCall]
    · cases hu
  · cases hbytes

/-- A call that failed leaves the bytes to the code behind the loop. -/
theorem refused_of_step {o : Writev} (hrefused : ∀ n, o ≠ .accept n)
    (h : step mem s (.writev o) = some t) :
    (∃ off cnt, s.pc = .sync off cnt ∧ t = sendMessageSync s off cnt o) ∨
      ∃ iov iovcnt count, s.pc = .write iov iovcnt count ∧
        t = handleWrite s iov iovcnt count o := by
  simp only [step, Option.bind_eq_bind] at h
  obtain ⟨bytes, hbytes, h⟩ := Option.bind_eq_some_iff.mp h
  obtain ⟨u, hu, h⟩ := Option.bind_eq_some_iff.mp h
  have hnone : bytes = [] := by
    cases o with
    | accept n => exact absurd rfl (hrefused n)
    | again | fail error => exact (Option.some.inj hbytes).symm
  have ht : t = { u with accepted := s.accepted } := by
    rw [← Option.some.inj h, hnone, List.append_nil]
  unfold loopBody at hu
  split at hu
  · next off cnt hpc =>
    obtain rfl := Option.some.inj hu
    refine .inl ⟨off, cnt, hpc, ht.trans ?_⟩
    cases o <;> rfl
  · next iov iovcnt count hpc =>
    obtain rfl := Option.some.inj hu
    refine .inr ⟨iov, iovcnt, count, hpc, ht.trans ?_⟩
    cases o with
    | accept n => rfl
    | again =>
      simp only [handleWrite]
      split
      · rfl
      · split <;> rfl
    | fail error => rfl
  · cases hu

/-- The loop of `send_message_sync` keeps the invariant. -/
theorem Inv.afterSync (hinv : Inv mem message s) (hpc : s.pc = .sync off cnt)
    (hmay : mayAccept mem (offered s.vectors off cnt) n) :
    Inv mem message (afterCall mem id syncLoop s off cnt n) := by
  obtain ⟨hexact, hbounds⟩ := hinv
  simp only [State.rest, Pc.rest, hpc, Pc.InBounds] at hexact hbounds
  obtain ⟨hcnt, hsize⟩ := hbounds
  have hle := advance_le_count id n hsize
  have hlen := writeBack_afterCall_length mem id syncLoop cnt n
    (show off ≤ s.vectors.length by omega)
  constructor
  · apply afterCall_exact hexact hsize hmay
    apply rest_syncLoop
    rw [hlen]
    omega
  · rw [hlen]
    simp only [afterCall, syncLoop]
    split
    · next hmore => exact ⟨hmore, by omega⟩
    · trivial

/-- The loop of `__poller_handle_write` keeps the invariant. -/
theorem Inv.afterWrite (hinv : Inv mem message s) (hpc : s.pc = .write off cnt count)
    (hmay : mayAccept mem (offered s.vectors off cnt) n) :
    Inv mem message (afterCall mem spentVector (writeLoop · · (count + n)) s off cnt n) := by
  obtain ⟨hexact, hbounds⟩ := hinv
  simp only [State.rest, Pc.rest, hpc, Pc.InBounds] at hexact hbounds
  obtain ⟨hcnt, hsize⟩ := hbounds
  have hle := advance_le_count spentVector n hsize
  have hlen := writeBack_afterCall_length mem spentVector (writeLoop · · (count + n)) cnt n
    (show off ≤ s.vectors.length by omega)
  constructor
  · apply afterCall_exact hexact hsize hmay
    apply rest_writeLoop
  · rw [hlen]
    simp only [afterCall, writeLoop]
    split
    · next hmore => exact ⟨hmore, by omega⟩
    · show off + _ + 0 = _
      omega

end Loops

/-! ## Every step -/

section Steps

variable {mem : Nat → β} {message : List β} {s t : State β}

/-- A step that leaves the bytes to be sent alone. -/
theorem Inv.moveTo {vectors : List Iovec} {pc : Pc} (hinv : Inv mem message s)
    (hrest : pc.rest vectors = s.rest) (hbounds : pc.InBounds vectors.length) :
    Inv mem message { vectors := vectors, pc := pc, accepted := s.accepted } := by
  constructor
  · show s.accepted ++ denote mem (pc.rest vectors) = message
    rw [hrest]
    exact hinv.exact
  · exact hbounds

theorem Inv.refusedSync {off cnt : Nat} {o : Writev} (hinv : Inv mem message s)
    (hrefused : ∀ n, o ≠ .accept n) (hpc : s.pc = .sync off cnt) :
    Inv mem message (sendMessageSync s off cnt o) := by
  have hbounds := hinv.bounds
  simp only [hpc, Pc.InBounds] at hbounds
  obtain ⟨hcnt, hsize⟩ := hbounds
  cases o with
  | accept n => exact absurd rfl (hrefused n)
  | again =>
    apply hinv.moveTo
    · have hoff : s.vectors.length - cnt = off := by omega
      simp only [State.rest, Pc.rest, hpc, hoff]
    · exact ⟨hcnt, by omega⟩
  | fail error =>
    apply hinv.moveTo
    · simp only [State.rest, Pc.rest, hpc]
    · trivial

/-- The hand-over copies the rest of the message. -/
theorem Inv.sendMessageAsync {cnt : Nat} (ok : Bool) (error : Errno) (hinv : Inv mem message s)
    (hpc : s.pc = .returned cnt) : Inv mem message (sendMessageAsync s cnt ok error) := by
  have hbounds := hinv.bounds
  simp only [hpc, Pc.InBounds] at hbounds
  obtain ⟨hcnt, hsize⟩ := hbounds
  have hcopy : ((s.vectors.drop (s.vectors.length - cnt)).take cnt) =
      s.vectors.drop (s.vectors.length - cnt) := by
    apply List.take_of_length_le
    rw [List.length_drop]
    omega
  simp only [Send.sendMessageAsync]
  cases ok
  · apply hinv.moveTo
    · simp only [State.rest, Pc.rest, hpc]
    · trivial
  · apply hinv.moveTo
    · simp only [State.rest, Pc.rest, hpc, hcopy, List.drop_zero]
    · simp only [Pc.InBounds, hcopy, List.length_drop]
      omega

theorem Inv.refusedWrite {iov iovcnt count : Nat} {o : Writev} (hinv : Inv mem message s)
    (hrefused : ∀ n, o ≠ .accept n) (hpc : s.pc = .write iov iovcnt count) :
    Inv mem message (handleWrite s iov iovcnt count o) := by
  have hbounds := hinv.bounds
  simp only [hpc, Pc.InBounds] at hbounds
  cases o with
  | accept n => exact absurd rfl (hrefused n)
  | again =>
    have hnode : handleWrite s iov iovcnt count .again = { s with pc := .node iov iovcnt } := by
      simp only [handleWrite, partialWritten, Int.le_refl, if_true, ite_self]
    rw [hnode]
    apply hinv.moveTo
    · simp only [State.rest, Pc.rest, hpc]
    · exact hbounds
  | fail error =>
    apply hinv.moveTo
    · simp only [State.rest, Pc.rest, hpc]
    · exact hbounds.2

/-- Either loop keeps the invariant, whatever its call returns. -/
theorem Inv.writev {o : Writev} (hinv : Inv mem message s)
    (h : step mem s (.writev o) = some t) : Inv mem message t := by
  by_cases haccept : ∃ n, o = .accept n
  · obtain ⟨n, rfl⟩ := haccept
    obtain ⟨hmay, ⟨off, cnt, hpc, rfl⟩ | ⟨iov, iovcnt, count, hpc, rfl⟩⟩ := accept_of_step h
    · rw [State.offers, hpc] at hmay
      exact hinv.afterSync hpc hmay
    · rw [State.offers, hpc] at hmay
      exact hinv.afterWrite hpc hmay
  · have hrefused : ∀ n, o ≠ .accept n := fun n hn => haccept ⟨n, hn⟩
    obtain ⟨off, cnt, hpc, rfl⟩ | ⟨iov, iovcnt, count, hpc, rfl⟩ := refused_of_step hrefused h
    · exact hinv.refusedSync hrefused hpc
    · exact hinv.refusedWrite hrefused hpc

theorem Inv.handleWriteEnd {iov iovcnt : Nat} {error : Errno} (removed : Bool)
    (hinv : Inv mem message s) (hpc : s.pc = .leave iov iovcnt error) :
    Inv mem message (handleWriteEnd s iov iovcnt error removed) := by
  have hbounds := hinv.bounds
  simp only [hpc, Pc.InBounds] at hbounds
  unfold Send.handleWriteEnd
  cases removed
  · by_cases hzero : iovcnt = 0
    · simp only [hzero, Bool.false_eq_true, if_false, if_true]
      apply hinv.moveTo
      · simp only [State.rest, Pc.rest, hpc]
        symm
        apply List.drop_of_length_le
        omega
      · trivial
    · simp only [hzero, Bool.false_eq_true, if_false]
      apply hinv.moveTo
      · simp only [State.rest, Pc.rest, hpc]
      · trivial
  · simp only [if_true]
    apply hinv.moveTo
    · simp only [State.rest, Pc.rest, hpc]
    · trivial

theorem Inv.step {l : Label} (hinv : Inv mem message s) (h : step mem s l = some t) :
    Inv mem message t := by
  cases l with
  | writev o => exact hinv.writev h
  | handOver ok error =>
    simp only [Send.step] at h
    split at h
    · next hpc =>
      obtain rfl := Option.some.inj h
      exact hinv.sendMessageAsync ok error hpc
    · cases h
  | event =>
    simp only [Send.step] at h
    split at h
    · next iov iovcnt hpc =>
      obtain rfl := Option.some.inj h
      have hbounds := hinv.bounds
      simp only [hpc, Pc.InBounds] at hbounds
      apply hinv.moveTo
      · simp only [State.rest, hpc, rest_writeLoop]
        rfl
      · simp only [writeLoop, hbounds.1, if_true]
        exact hbounds
    · cases h
  | removeNode removed =>
    simp only [Send.step] at h
    split at h
    · next hpc =>
      obtain rfl := Option.some.inj h
      exact hinv.handleWriteEnd removed hpc
    · cases h

end Steps

theorem inv_of_reachable {mem : Nat → β} {vectors : List Iovec} {s : State β}
    (h : (system mem vectors).Reachable s) : Inv mem (denote mem vectors) s := by
  have hind : InductiveInvariant (system mem vectors) (fun _ _ => True)
      (Inv mem (denote mem vectors)) := by
    constructor
    · rintro s ⟨-, rfl⟩
      constructor
      · simp only [State.rest, State.encoded, rest_syncLoop vectors 0 vectors.length (by omega),
          List.drop_zero, List.nil_append]
      · simp only [State.encoded, syncLoop]
        split
        · next hpos => exact ⟨hpos, by omega⟩
        · trivial
    · intro s l t hinv _ hstep
      exact hinv.step hstep
  exact hind.holds h

/-! ## The loops end -/

/-- What is left to do in a loop: bytes and vectors. -/
def State.work (mem : Nat → β) (s : State β) : Nat :=
  (denote mem s.rest).length + s.rest.length

/-- A loop is about to call `writev`. -/
def State.InLoop (s : State β) : Prop :=
  (∃ off cnt, s.pc = .sync off cnt) ∨ ∃ iov iovcnt count, s.pc = .write iov iovcnt count

/-- A row of calls of which none fails. -/
def successes (ns : List Nat) : List Label := ns.map fun n => .writev (.accept n)

section Progress

variable {mem : Nat → β} {message : List β} {s t : State β} {n : Nat}

/-- Whatever loop the state is in, an accepted call is `afterCall` at its index. -/
theorem accept_cases (hinv : Inv mem message s)
    (h : step mem s (.writev (.accept n)) = some t) :
    ∃ spent resume off cnt, 0 < cnt ∧ off + cnt = s.vectors.length ∧
      s.rest = s.vectors.drop off ∧ mayAccept mem (offered s.vectors off cnt) n ∧
      t = afterCall mem spent resume s off cnt n ∧
      t.rest = t.vectors.drop (off + (advance spent n (s.vectors.drop off)).1) := by
  have hbounds := hinv.bounds
  obtain ⟨hmay, ⟨off, cnt, hpc, rfl⟩ | ⟨iov, iovcnt, count, hpc, rfl⟩⟩ := accept_of_step h
  · simp only [hpc, Pc.InBounds] at hbounds
    rw [State.offers, hpc] at hmay
    refine ⟨id, syncLoop, off, cnt, hbounds.1, hbounds.2, ?_, hmay, rfl, ?_⟩
    · simp only [State.rest, Pc.rest, hpc]
    · have hle := advance_le_count id n hbounds.2
      apply rest_syncLoop
      rw [writeBack_afterCall_length _ _ _ _ _ (by omega)]
      omega
  · simp only [hpc, Pc.InBounds] at hbounds
    rw [State.offers, hpc] at hmay
    refine ⟨spentVector, _, iov, iovcnt, hbounds.1, hbounds.2, ?_, hmay, rfl, ?_⟩
    · simp only [State.rest, Pc.rest, hpc]
    · apply rest_writeLoop

/-- Every accepted call leaves less to do: bytes were sent, or empty vectors stepped over. -/
theorem work_lt_of_accept (hinv : Inv mem message s)
    (h : step mem s (.writev (.accept n)) = some t) : t.work mem < s.work mem := by
  obtain ⟨spent, resume, off, cnt, hcnt, hsize, hrest, hmay, ht, hrest'⟩ := accept_cases hinv h
  have hdrop : t.rest = (advance spent n s.rest).2.drop (advance spent n s.rest).1 := by
    rw [hrest', hrest, ht]
    exact drop_writeBack spent s.vectors off n (by omega)
  have hn : n ≤ (denote mem s.rest).length := by
    have hle := hmay.1
    rw [offered_eq_take, ← hrest] at hle
    rw [← List.take_append_drop (min cnt IOV_MAX) s.rest, denote_append, List.length_append]
    omega
  have hle := advance_le spent n s.rest
  unfold State.work
  rw [hdrop, denote_advance, List.length_drop, List.length_drop, length_advance]
  cases n with
  | zero =>
    have hpos := advance_pos_of_zero spent hcnt hsize hmay
    rw [← hrest] at hpos
    omega
  | succ n => omega

/-- A call that fails is the only way out of a loop before its work is done. -/
theorem length_le_work (ns : List Nat) (hinv : Inv mem message s) {vectors : List Iovec}
    (h : (system mem vectors).run s (successes ns) = some t) :
    ns.length ≤ s.work mem := by
  induction ns generalizing s with
  | nil => exact Nat.zero_le _
  | cons n ns ih =>
    simp only [System.run, successes, List.map_cons, System.runIf, if_true] at h
    obtain ⟨u, hstep, hrun⟩ := Option.bind_eq_some_iff.mp h
    change step mem s (.writev (.accept n)) = some u at hstep
    have hlt := work_lt_of_accept hinv hstep
    have hlen := ih (hinv.step hstep) hrun
    rw [List.length_cons]
    omega

/-- The kernel can accept all it is offered. -/
theorem accept_enabled (hloop : s.InLoop) :
    ∃ n, (step mem s (.writev (.accept n))).isSome := by
  refine ⟨(denote mem s.offers).length, ?_⟩
  have hmay : mayAccept mem s.offers (denote mem s.offers).length := ⟨Nat.le_refl _, id⟩
  obtain ⟨off, cnt, hpc⟩ | ⟨iov, iovcnt, count, hpc⟩ := hloop
  · simp only [step, Writev.accepts, if_pos hmay, loopBody, hpc]
    rfl
  · simp only [step, Writev.accepts, if_pos hmay, loopBody, hpc]
    rfl

end Progress

/-! ## The law -/

theorem stream_of_reachable (mem : Nat → β) (vectors : List Iovec) (s : State β)
    (h : (system mem vectors).Reachable s) :
    s.accepted ++ denote mem s.rest = denote mem vectors ∧
      (s.pc = .synced ∨ s.pc = .finished → s.accepted = denote mem vectors) ∧
      (∀ ns t, (system mem vectors).run s (successes ns) = some t → ns.length ≤ s.work mem) ∧
      (s.InLoop → ∃ n, (step mem s (.writev (.accept n))).isSome) := by
  have hinv := inv_of_reachable h
  refine ⟨hinv.exact, ?_, fun ns t hrun => length_le_work ns hinv hrun, accept_enabled⟩
  intro hdone
  have hrest : s.rest = [] := by
    obtain hpc | hpc := hdone
    · simp only [State.rest, hpc, Pc.rest]
    · simp only [State.rest, hpc, Pc.rest]
  have hexact := hinv.exact
  rw [hrest, denote_nil, List.append_nil] at hexact
  exact hexact

/-- Three blocks, the second empty, sent by a short write on each side of the hand-over. -/
theorem stream_across_handOver : ∃ s : State Nat,
    (system id [⟨0, 3⟩, ⟨10, 0⟩, ⟨20, 2⟩]).Reachable s ∧ s.pc = .finished ∧
      s.accepted = [0, 1, 2, 20, 21] := by
  have hrun : ((system id [⟨0, 3⟩, ⟨10, 0⟩, ⟨20, 2⟩]).run
      (State.encoded [⟨0, 3⟩, ⟨10, 0⟩, ⟨20, 2⟩])
      [.writev (.accept 1), .writev .again, .handOver true 0, .event, .writev (.accept 2),
        .writev .again, .event, .writev (.accept 2), .removeNode false]).map State.pc =
      some .finished := by
    decide +kernel
  obtain ⟨s, hs, hpc⟩ := Option.map_eq_some_iff.mp hrun
  have hreach := System.reachable_of_run (M := system id [⟨0, 3⟩, ⟨10, 0⟩, ⟨20, 2⟩])
    ⟨by decide, rfl⟩ hs
  have hall := (stream_of_reachable id _ s hreach).2.1 (.inr hpc)
  exact ⟨s, hreach, hpc, hall⟩

end WorkflowKernel.Send
