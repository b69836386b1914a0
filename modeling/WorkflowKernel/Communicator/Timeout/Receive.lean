import WorkflowKernel.Communicator.Timeout.Model

/-!
# The deadline of a receive

`first_timeout_recv` starts a receive, and every `append()` that leaves the message incomplete starts
the response timeout again. Either the poller watches for the response timeout and the session for
the whole limit, or the whole limit is in the poller and nothing moves the deadline any more.

## What is proved

- `receive_deadline`: behind any number of parts of a message the poller has the earlier end of the
  two limits.
-/

namespace WorkflowKernel.Communicator.Timeout

open WorkflowKernel.Communicator
open WorkflowKernel.Poller.Table (Timespec absTimeout)

/-- The poller's deadline is this limit to a millisecond, or both are over. -/
def Near (d : Option Timespec) (l : WithTop Nat) (now : Timespec) : Prop :=
  match d with
  | none => l = ⊤
  | some d => ∃ n, l = WithTop.some n ∧
    (d.ns ≤ n + 1000000 ∧ n ≤ d.ns + 1000000 ∨ d.ns ≤ now.ns ∧ n ≤ now.ns)

/-- The earlier end of a receive that started at `start` and got a part at `now`. -/
def receiveLimit (receiveTimeout responseTimeout : Int) (start now : Timespec) : WithTop Nat :=
  min (limit receiveTimeout start) (limit responseTimeout now)

/-- `first_timeout_recv` at `now`. -/
def startReceive (receiveTimeout responseTimeout : Int) (now : Timespec) (s : State) : State :=
  arm s (firstTimeoutRecv responseTimeout receiveTimeout s.session now) now

/-- `append_message` with one part of the message after the other. -/
def receiveParts (responseTimeout : Int) (s : State) (parts : List (Timespec × Answers)) : State :=
  parts.foldl (fun s part => appendMessage responseTimeout part.2 part.1 s) s

section Deadline

variable {T R : Int} {t₀ now t : Timespec} {s : State} {a : Answers}

theorem receiveLimit_of_neg_left (hT : T < 0) : receiveLimit T R t₀ now = limit R now := by
  rw [receiveLimit, limit_of_neg hT, min_eq_right le_top]

theorem receiveLimit_of_neg_right (hR : R < 0) : receiveLimit T R t₀ now = limit T t₀ := by
  rw [receiveLimit, limit_of_neg hR, min_eq_left le_top]

theorem receiveLimit_of_nonneg (hT : 0 ≤ T) (hR : 0 ≤ R) : receiveLimit T R t₀ now =
    WithTop.some (min (t₀.ns + T.toNat * 1000000) (now.ns + R.toNat * 1000000)) := by
  rw [receiveLimit, limit_of_nonneg hT, limit_of_nonneg hR]
  exact (WithTop.coe_min ..).symm

/-- A deadline that is armed is its limit. -/
theorem near_absTimeout (h : l = limit T t) : Near (absTimeout T t) l now := by
  rw [h]
  rcases Int.lt_or_le T 0 with hneg | hpos
  · rw [absTimeout_of_neg hneg]
    exact limit_of_neg hneg
  · obtain ⟨d, hd, hns⟩ := absTimeout_of_nonneg hpos t
    rw [hd]
    exact ⟨_, limit_of_nonneg hpos, .inl (by omega)⟩

/-- The whole limit is in the poller. -/
structure Settled (T R : Int) (t₀ now : Timespec) (s : State) : Prop where
  rest : s.session.timeout = 0
  near : ∀ t, now.ns ≤ t.ns → Near s.deadline (receiveLimit T R t₀ t) t

/-- The session watches for the whole limit. -/
structure Open (T R : Int) (t₀ now : Timespec) (s : State) : Prop where
  watching : Watching R T t₀ s.session
  near : Near s.deadline (receiveLimit T R t₀ now) now

theorem startReceive_spec (hT : IsInt T) (hR : IsInt R) (t₀ : Timespec) (s : State) :
    Settled T R t₀ t₀ (startReceive T R t₀ s) ∨ Open T R t₀ t₀ (startReceive T R t₀ s) := by
  unfold startReceive firstTimeoutRecv
  rcases firstTimeout_cases hR { s.session with timeout := T } hT t₀ with
    ⟨hcond, heq⟩ | ⟨session, heq, hwatching⟩
  · left
    rw [heq]
    refine ⟨rfl, fun t ht => near_absTimeout (T := T) ?_⟩
    rcases Int.lt_or_le R 0 with hneg | hpos
    · exact receiveLimit_of_neg_right hneg
    · have hshort : R < 0 ∨ 0 ≤ T ∧ T ≤ R := hcond
      rw [receiveLimit_of_nonneg (by omega) hpos, limit_of_nonneg (by omega)]
      congr 1
      omega
  · right
    rw [heq]
    refine ⟨hwatching, near_absTimeout ?_⟩
    have hlonger := hwatching.longer
    have hresponse := hwatching.response
    simp only at hlonger
    rcases Int.lt_or_le T 0 with hneg | hpos
    · exact receiveLimit_of_neg_left hneg
    · rw [receiveLimit_of_nonneg hpos hresponse, limit_of_nonneg hresponse]
      congr 1
      omega

/-- Another part does not move the deadline. -/
theorem Settled.part (h : Settled T R t₀ now s) (ha : a.append = 0) (hle : now.ns ≤ t.ns) :
    Settled T R t₀ t (appendMessage R a t s) := by
  have hsame : appendMessage R a t s = s := by
    unfold appendMessage
    rw [if_neg (by omega), if_neg fun hcond => hcond.2 h.rest]
  rw [hsame]
  exact ⟨h.rest, fun t' ht' => h.near t' (Nat.le_trans hle ht')⟩

/-- A part comes while the session watches. -/
theorem Open.part (h : Open T R t₀ now s) (hT : IsInt T) (ha : a.append = 0) (hle : t₀.ns ≤ t.ns)
    (helapsed : t.ns < t₀.ns + 2147483648 * 1000000) :
    Settled T R t₀ t (appendMessage R a t s) ∨ Open T R t₀ t (appendMessage R a t s) := by
  have hlonger := h.watching.longer
  have hresponse := h.watching.response
  have hpart : appendMessage R a t s = arm s (nextTimeout R s.session t) t := by
    have hrest := h.watching.rest
    have hsec := h.watching.sec
    unfold appendMessage
    rw [if_neg (by omega), if_pos ⟨ha, by omega⟩, if_neg (by omega)]
  obtain ⟨hused, hupper, hlower⟩ := timeUsed_bounds h.watching.sec h.watching.nsec hle
  rw [hpart]
  rcases nextTimeout_cases h.watching hT hle helapsed with ⟨hcond, heq⟩ | ⟨⟨hTpos, hshort⟩, heq⟩
  · right
    rw [heq]
    refine ⟨h.watching, near_absTimeout ?_⟩
    rcases Int.lt_or_le T 0 with hneg | hpos
    · exact receiveLimit_of_neg_left hneg
    · rw [receiveLimit_of_nonneg hpos hresponse, limit_of_nonneg hresponse]
      congr 1
      omega
  · left
    rw [heq]
    refine ⟨rfl, fun t' ht' => ?_⟩
    obtain ⟨d, hd, hns⟩ := absTimeout_of_nonneg
      (show 0 ≤ max (T - timeUsed s.session t) 0 by omega) t
    show Near (absTimeout (max (T - timeUsed s.session t) 0) t) _ _
    rw [hd, receiveLimit_of_nonneg (by omega) hresponse]
    refine ⟨_, rfl, ?_⟩
    omega

/-- The deadline behind any number of parts. -/
theorem receiveParts_spec (hT : IsInt T) {parts : List (Timespec × Answers)}
    (hparts : ∀ part ∈ parts, part.2.append = 0 ∧ t₀.ns ≤ part.1.ns ∧
      part.1.ns < t₀.ns + 2147483648 * 1000000)
    (hmono : (now :: parts.map Prod.fst).Pairwise fun t t' => t.ns ≤ t'.ns)
    (h : Settled T R t₀ now s ∨ Open T R t₀ now s) :
    Settled T R t₀ ((parts.map Prod.fst).getLastD now) (receiveParts R s parts) ∨
      Open T R t₀ ((parts.map Prod.fst).getLastD now) (receiveParts R s parts) := by
  induction parts generalizing s now with
  | nil => exact h
  | cons part parts ih =>
    obtain ⟨ha, hle, helapsed⟩ := hparts part List.mem_cons_self
    obtain ⟨hnow, hmono⟩ := List.pairwise_cons.mp hmono
    have hstep : Settled T R t₀ part.1 (appendMessage R part.2 part.1 s) ∨
        Open T R t₀ part.1 (appendMessage R part.2 part.1 s) := by
      rcases h with hsettled | hopen
      · exact .inl (hsettled.part ha (hnow _ List.mem_cons_self))
      · exact hopen.part hT ha hle helapsed
    rw [List.map_cons, List.getLastD_cons]
    exact ih (fun part' hpart' => hparts part' (List.mem_cons_of_mem _ hpart')) hmono hstep

end Deadline

/-- Behind any number of parts of a message the poller has the earlier end of the two limits: of the
whole receive from its start and of the response from the last part. -/
theorem receive_deadline {receiveTimeout responseTimeout : Int} (hreceive : IsInt receiveTimeout)
    (hresponse : IsInt responseTimeout) (s : State) (start : Timespec)
    (parts : List (Timespec × Answers)) (hincomplete : ∀ part ∈ parts, part.2.append = 0)
    (hmono : (start :: parts.map Prod.fst).Pairwise fun t t' => t.ns ≤ t'.ns)
    (helapsed : ∀ part ∈ parts, part.1.ns < start.ns + 2147483648 * 1000000) :
    Near (receiveParts responseTimeout (startReceive receiveTimeout responseTimeout start s)
        parts).deadline
      (receiveLimit receiveTimeout responseTimeout start ((parts.map Prod.fst).getLastD start))
      ((parts.map Prod.fst).getLastD start) := by
  have hparts : ∀ part ∈ parts, part.2.append = 0 ∧ start.ns ≤ part.1.ns ∧
      part.1.ns < start.ns + 2147483648 * 1000000 := fun part hpart =>
    ⟨hincomplete part hpart, (List.pairwise_cons.mp hmono).1 _ (List.mem_map_of_mem hpart),
      helapsed part hpart⟩
  rcases receiveParts_spec hreceive hparts hmono
    (startReceive_spec hreceive hresponse start s) with hsettled | hopen
  · exact hsettled.near _ (Nat.le_refl _)
  · exact hopen.near

/-- Two parts, 1 s and 4 s behind a start at 2 s. -/
def twoParts : List (Timespec × Answers) :=
  [({ Timespec.zero with sec := 3 }, ⟨0, 0, 0, 0⟩), ({ Timespec.zero with sec := 6 }, ⟨0, 0, 0, 0⟩)]

theorem receive_deadline_twoParts : ∃ s : State,
    Near (receiveParts 3000 (startReceive 5000 3000 ⟨2, 0, by decide⟩ s) twoParts).deadline
      (receiveLimit 5000 3000 ⟨2, 0, by decide⟩
        ((twoParts.map Prod.fst).getLastD ⟨2, 0, by decide⟩))
      ((twoParts.map Prod.fst).getLastD ⟨2, 0, by decide⟩) :=
  ⟨⟨⟨-1, -1, -1⟩, .receiving, false, true, none⟩,
    receive_deadline (by decide) (by decide) _ _ twoParts (by decide) (by decide) (by decide)⟩

end WorkflowKernel.Communicator.Timeout
