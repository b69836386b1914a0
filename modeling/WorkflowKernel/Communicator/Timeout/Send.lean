import WorkflowKernel.Communicator.Timeout.Model

/-!
# The deadline of a send

`first_timeout_send` starts a send, and every partial write arms the poller with `next_timeout`
again. Unlike `append_message`, `partial_written` does so when the whole limit is folded in already:
then `next_timeout` returns the response timeout, which has nothing to do with what is left.

## What is proved

- `send_deadline_iff`: the writes behind which no deadline is later than the send allows.
- `idleServer_extends`: without a response timeout the first partial write takes the deadline away.
-/

namespace WorkflowKernel.Communicator.Timeout

open WorkflowKernel.Communicator
open WorkflowKernel.Poller.Table (Timespec absTimeout nodeSetTimeout)

/-- `send_message_async` at `now`. -/
def startSend (sendTimeout responseTimeout : Int) (now : Timespec) (s : State) : State :=
  arm s (firstTimeoutSend responseTimeout sendTimeout s.session now) now

/-- `partial_written` behind one write event after the other. -/
def partialWrites (responseTimeout : Int) (s : State) (writes : List Timespec) : State :=
  writes.foldl (fun s now => partialWritten responseTimeout now s) s

/-- The end of the send, in nanoseconds. -/
def sendEnd (sendTimeout : Int) (start : Timespec) : Nat := start.ns + sendTimeout.toNat * 1000000

/-- The poller's deadline is no later than the end of the send and a millisecond, or both are
over. -/
def OnTime (stop : Nat) (now : Timespec) : Option Timespec → Prop
  | none => False
  | some d => d.ns ≤ stop + 1000000 ∨ d.ns ≤ now.ns ∧ stop ≤ now.ns

/-- The response timeout from `now` on ends within the send. -/
def fits (sendTimeout responseTimeout : Int) (start now : Timespec) : Bool :=
  0 ≤ responseTimeout ∧ (responseTimeout = 0 ∨
    now.ns + responseTimeout.toNat * 1000000 ≤ sendEnd sendTimeout start + 1000000)

/-- What of the send's limit is left at `now` is no more than the response timeout. -/
def foldsIn (sendTimeout responseTimeout : Int) (start now : Timespec) : Bool :=
  sendTimeout - timeUsed ⟨sendTimeout, start.sec, start.nsec⟩ now ≤ responseTimeout

/-- Every partial write behind the one that folds the limit in finds that the response timeout fits;
`folded` says that it is folded in before the first of these. -/
def InTime (sendTimeout responseTimeout : Int) (start : Timespec) : Bool → List Timespec → Bool
  | _, [] => true
  | folded, now :: writes =>
    (!folded || fits sendTimeout responseTimeout start now) &&
      InTime sendTimeout responseTimeout start
        (folded || foldsIn sendTimeout responseTimeout start now) writes

section Deadline

variable {T R : Int} {t₀ now t : Timespec} {s : State} {folded : Bool}

/-- What the session remembers of the limit. -/
def Remembers (T R : Int) (t₀ : Timespec) (folded : Bool) (s : State) : Prop :=
  if folded then s.session.timeout = 0 else Watching R T t₀ s.session

theorem startSend_spec (hT : IsInt T) (hR : IsInt R) (hsend : 0 ≤ T) (t₀ : Timespec) (s : State) :
    Remembers T R t₀ (R < 0 ∨ T ≤ R) (startSend T R t₀ s) ∧
      OnTime (sendEnd T t₀) t₀ (startSend T R t₀ s).deadline := by
  unfold startSend firstTimeoutSend
  rcases firstTimeout_cases hR { s.session with timeout := T } hT t₀ with
    ⟨hcond, heq⟩ | ⟨session, heq, hwatching⟩
  · have hshort : R < 0 ∨ 0 ≤ T ∧ T ≤ R := hcond
    obtain ⟨d, hd, hns⟩ := absTimeout_of_nonneg hsend t₀
    rw [heq, decide_eq_true (show R < 0 ∨ T ≤ R by omega)]
    refine ⟨rfl, ?_⟩
    show OnTime _ _ (absTimeout T t₀)
    rw [hd]
    exact .inl (by rw [hns, sendEnd]; omega)
  · have hlonger : T < 0 ∨ R < T := hwatching.longer
    obtain ⟨d, hd, hns⟩ := absTimeout_of_nonneg hwatching.response t₀
    rw [heq, decide_eq_false (show ¬(R < 0 ∨ T ≤ R) by have := hwatching.response; omega)]
    refine ⟨hwatching, ?_⟩
    show OnTime _ _ (absTimeout R t₀)
    rw [hd]
    exact .inl (by rw [hns, sendEnd]; omega)

/-- A partial write while the session watches for the limit. -/
theorem partialWritten_watching (hT : IsInt T) (hsend : 0 ≤ T) (h : Remembers T R t₀ false s)
    (hle : t₀.ns ≤ t.ns) (helapsed : t.ns < t₀.ns + 2147483648 * 1000000) :
    Remembers T R t₀ (foldsIn T R t₀ t) (partialWritten R t s) ∧
      OnTime (sendEnd T t₀) t (partialWritten R t s).deadline := by
  have hwatching : Watching R T t₀ s.session := h
  have hsession : s.session = ⟨T, t₀.sec, t₀.nsec⟩ := by
    rw [← hwatching.rest, ← hwatching.sec, ← hwatching.nsec]
  have hresponse := hwatching.response
  obtain ⟨hused, hupper, hlower⟩ := timeUsed_bounds hwatching.sec hwatching.nsec hle
  unfold partialWritten foldsIn
  rw [← hsession]
  rcases nextTimeout_cases hwatching hT hle helapsed with ⟨hcond, heq⟩ | ⟨hcond, heq⟩
  · obtain ⟨d, hd, hns⟩ := absTimeout_of_nonneg hresponse t
    rw [heq, decide_eq_false (by omega)]
    refine ⟨hwatching, ?_⟩
    show OnTime _ _ (absTimeout R t)
    rw [hd]
    exact .inl (by rw [hns, sendEnd]; omega)
  · obtain ⟨d, hd, hns⟩ := absTimeout_of_nonneg
      (show 0 ≤ max (T - timeUsed s.session t) 0 by omega) t
    rw [heq, decide_eq_true hcond.2]
    refine ⟨rfl, ?_⟩
    show OnTime _ _ (absTimeout (max (T - timeUsed s.session t) 0) t)
    rw [hd]
    show d.ns ≤ sendEnd T t₀ + 1000000 ∨ d.ns ≤ t.ns ∧ sendEnd T t₀ ≤ t.ns
    rw [hns, sendEnd]
    omega

/-- A partial write behind that arms the response timeout. -/
theorem partialWritten_folded (h : Remembers T R t₀ true s) :
    Remembers T R t₀ true (partialWritten R t s) ∧
      (OnTime (sendEnd T t₀) t (partialWritten R t s).deadline ↔ fits T R t₀ t = true) := by
  have hrest : s.session.timeout = 0 := h
  have hnext : nextTimeout R s.session t = (R, s.session) := by
    unfold nextTimeout
    rw [hrest, if_neg (by decide)]
  unfold partialWritten fits
  rw [hnext, decide_eq_true_iff]
  refine ⟨hrest, ?_⟩
  show OnTime (sendEnd T t₀) t (absTimeout R t) ↔ _
  rcases Int.lt_or_le R 0 with hneg | hpos
  · rw [absTimeout_of_neg hneg]
    exact ⟨False.elim, fun hfits => absurd hfits.1 (Int.not_le.mpr hneg)⟩
  · obtain ⟨d, hd, hns⟩ := absTimeout_of_nonneg hpos t
    rw [hd]
    show d.ns ≤ sendEnd T t₀ + 1000000 ∨ d.ns ≤ t.ns ∧ sendEnd T t₀ ≤ t.ns ↔ _
    rw [hns]
    omega

theorem partialWrites_iff (hT : IsInt T) (hsend : 0 ≤ T) {writes : List Timespec}
    (hwrites : ∀ t ∈ writes, t₀.ns ≤ t.ns ∧ t.ns < t₀.ns + 2147483648 * 1000000)
    (h : Remembers T R t₀ folded s) (hon : OnTime (sendEnd T t₀) now s.deadline) :
    (∀ n, OnTime (sendEnd T t₀) ((writes.take n).getLastD now)
      (partialWrites R s (writes.take n)).deadline) ↔ InTime T R t₀ folded writes = true := by
  induction writes generalizing s folded now with
  | nil =>
    refine ⟨fun _ => rfl, fun _ n => ?_⟩
    rw [List.take_nil]
    exact hon
  | cons t writes ih =>
    obtain ⟨hle, helapsed⟩ := hwrites t List.mem_cons_self
    have hrest := fun t' ht' => hwrites t' (List.mem_cons_of_mem t ht')
    -- the state behind the write, and whether the deadline is in time there
    have hstep : Remembers T R t₀ (folded || foldsIn T R t₀ t) (partialWritten R t s) ∧
        (OnTime (sendEnd T t₀) t (partialWritten R t s).deadline ↔
          (!folded || fits T R t₀ t) = true) := by
      cases folded with
      | false =>
        obtain ⟨hremembers, hon'⟩ := partialWritten_watching hT hsend h hle helapsed
        exact ⟨hremembers, fun _ => rfl, fun _ => hon'⟩
      | true => exact partialWritten_folded h
    rw [InTime, Bool.and_eq_true, ← hstep.2]
    constructor
    · intro hall
      have hhead : OnTime (sendEnd T t₀) t (partialWritten R t s).deadline := hall 1
      refine ⟨hhead, (ih hrest hstep.1 hhead).mp fun n => ?_⟩
      have htail := hall (n + 1)
      rw [List.take_succ_cons, List.getLastD_cons] at htail
      exact htail
    · rintro ⟨hhead, htail⟩ n
      cases n with
      | zero => exact hon
      | succ n =>
        rw [List.take_succ_cons, List.getLastD_cons]
        exact (ih hrest hstep.1 hhead).mpr htail n

end Deadline

/-- No partial write of a send moves the deadline behind the end of the send exactly if those behind
the fold find that the response timeout fits. -/
theorem send_deadline_iff {sendTimeout responseTimeout : Int} (hsend : IsInt sendTimeout)
    (hpos : 0 ≤ sendTimeout) (hresponse : IsInt responseTimeout) (s : State) (start : Timespec)
    (writes : List Timespec) (hmono : (start :: writes).Pairwise fun t t' => t.ns ≤ t'.ns)
    (helapsed : ∀ t ∈ writes, t.ns < start.ns + 2147483648 * 1000000) :
    (∀ n, OnTime (sendEnd sendTimeout start) ((writes.take n).getLastD start)
      (partialWrites responseTimeout (startSend sendTimeout responseTimeout start s)
        (writes.take n)).deadline) ↔
    InTime sendTimeout responseTimeout start
      (responseTimeout < 0 ∨ sendTimeout ≤ responseTimeout) writes = true := by
  obtain ⟨hremembers, hon⟩ := startSend_spec hsend hresponse hpos start s
  have hstart := (List.pairwise_cons.mp hmono).1
  exact partialWrites_iff hsend hpos (fun t ht => ⟨hstart t ht, helapsed t ht⟩) hremembers hon

/-- A new session, on a connection that sends. -/
def sending : State := ⟨⟨-1, -1, -1⟩, .connected, false, true, none⟩

/-- Partial writes behind 1 s, 2 s and another millisecond: the second one folds the limit in. -/
def threeWrites : List Timespec := [3000, 4000, 4001].map (nodeSetTimeout · .zero)

/-- A send of 5 s with a response timeout of 3 s, which still fits behind the fold. -/
theorem send_in_time : foldsIn 5000 3000 ⟨2, 0, by decide⟩ ⟨4, 0, by decide⟩ = true ∧
    InTime 5000 3000 ⟨2, 0, by decide⟩ false threeWrites = true ∧
    ∀ n, OnTime (sendEnd 5000 ⟨2, 0, by decide⟩)
      ((threeWrites.take n).getLastD ⟨2, 0, by decide⟩)
      (partialWrites 3000 (startSend 5000 3000 ⟨2, 0, by decide⟩ sending)
        (threeWrites.take n)).deadline :=
  ⟨by decide, by decide, (send_deadline_iff (by decide) (by decide) (by decide) sending
    ⟨2, 0, by decide⟩ threeWrites (by decide) (by decide)).mpr (by decide)⟩

/-- A send of 5 s to a server without a response timeout has no deadline behind its first partial
write. -/
theorem idleServer_extends : ¬ ∀ (sendTimeout responseTimeout : Int) (s : State) (start : Timespec)
    (writes : List Timespec), IsInt sendTimeout → 0 ≤ sendTimeout → IsInt responseTimeout →
    (start :: writes).Pairwise (fun t t' => t.ns ≤ t'.ns) →
    (∀ t ∈ writes, t.ns < start.ns + 2147483648 * 1000000) →
    ∀ n, OnTime (sendEnd sendTimeout start) ((writes.take n).getLastD start)
      (partialWrites responseTimeout (startSend sendTimeout responseTimeout start s)
        (writes.take n)).deadline := by
  intro hall
  have h := hall 5000 (-1) sending ⟨2, 0, by decide⟩ [⟨3, 0, by decide⟩] (by decide) (by decide)
    (by decide) (by decide) (by decide) 1
  have hnone : (partialWrites (-1) (startSend 5000 (-1) ⟨2, 0, by decide⟩ sending)
      (([⟨3, 0, by decide⟩] : List Timespec).take 1)).deadline = none := by decide
  rw [hnone] at h
  exact h

end WorkflowKernel.Communicator.Timeout
