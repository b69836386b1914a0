import Mathlib.Logic.Basic

/-!
# Points in time

`struct timespec` with the `tv_nsec` below a second that the kernel asks for, the comparison
`__timeout_cmp` and the sums that the poller forms.
-/

namespace WorkflowKernel.Poller.Table

structure Timespec where
  sec : Nat
  nsec : Nat
  nsec_lt : nsec < 1000000000
  deriving DecidableEq, Repr

namespace Timespec

/-- All in nanoseconds. -/
def ns (t : Timespec) : Nat := t.sec * 1000000000 + t.nsec

def zero : Timespec := ⟨0, 0, by decide⟩

/-- The sum with the carry of the source: one subtraction is enough. -/
def plus (t : Timespec) (sec nsec : Nat) (h : nsec < 1000000000) : Timespec :=
  if hcarry : 1000000000 ≤ t.nsec + nsec then
    ⟨t.sec + sec + 1, t.nsec + nsec - 1000000000, by have := t.nsec_lt; omega⟩
  else ⟨t.sec + sec, t.nsec + nsec, by omega⟩

/-- A time is its nanoseconds. -/
theorem ns_injective {t u : Timespec} (h : t.ns = u.ns) : t = u := by
  obtain ⟨s, n, hn⟩ := t
  obtain ⟨s', n', hn'⟩ := u
  simp only [ns] at h
  have hs : s = s' := by omega
  have hn : n = n' := by omega
  subst hs hn
  rfl

theorem ns_pos {t : Timespec} (h : t ≠ zero) : 0 < t.ns := by
  apply Nat.pos_of_ne_zero
  intro hzero
  exact h (ns_injective hzero)

theorem ne_zero {t : Timespec} (h : 0 < t.ns) : t ≠ zero := by
  rintro rfl
  exact absurd h (by decide)

/-- A timeout is not before the time it is taken at. -/
theorem le_plus (t : Timespec) (sec nsec : Nat) (h : nsec < 1000000000) :
    t.ns ≤ (t.plus sec nsec h).ns := by
  unfold plus ns
  split
  · simp only
    omega
  · simp only
    omega

end Timespec

/-- `__poller_node_set_timeout`. -/
def nodeSetTimeout (timeout : Nat) (now : Timespec) : Timespec :=
  now.plus (timeout / 1000) (timeout % 1000 * 1000000) (by omega)

/-- `__timeout_cmp`. -/
def timeoutCmp (t u : Timespec) : Int :=
  let ret : Int := t.sec - u.sec
  if ret = 0 then t.nsec - u.nsec else ret

/-- `__timeout_cmp` compares the nanoseconds: earlier, -/
theorem timeoutCmp_neg {t u : Timespec} : timeoutCmp t u < 0 ↔ t.ns < u.ns := by
  have ht := t.nsec_lt
  have hu := u.nsec_lt
  simp only [timeoutCmp, Timespec.ns]
  split
  · omega
  · omega

/-- not earlier, -/
theorem timeoutCmp_nonneg {t u : Timespec} : 0 ≤ timeoutCmp t u ↔ u.ns ≤ t.ns := by
  have hneg := timeoutCmp_neg (t := t) (u := u)
  omega

/-- not later. -/
theorem timeoutCmp_nonpos {t u : Timespec} : timeoutCmp t u ≤ 0 ↔ t.ns ≤ u.ns := by
  have ht := t.nsec_lt
  have hu := u.nsec_lt
  simp only [timeoutCmp, Timespec.ns]
  split
  · omega
  · omega

end WorkflowKernel.Poller.Table
