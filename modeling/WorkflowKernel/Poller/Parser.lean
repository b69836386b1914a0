import Mathlib.Data.List.Basic

/-!
# The parser behind `append`

`poller_message::append` and `create_message` are the user's. `MessageParser` is what
`__poller_append_message` relies on: a message object is known by the bytes it has been fed, and
`append` goes on over the buffer until these bytes decide.

## What is proved

- `MessageParser.append_eq`: the laws determine the outcome of a call.
- `MessageParser.append_of_decided`, `MessageParser.append_of_zero`: a buffer that is cut in two
  gives the outcome of the whole.
- `MessageParser.ofVerdict`: every classification of byte strings is the verdict of a parser.
-/

namespace WorkflowKernel.Poller

/-- `append` takes the bytes fed since `create_message` and the buffer, and gives its return value
and `*size`. `verdict` is what the bytes fed amount to: positive for a message, negative for a
malformed one. -/
structure MessageParser (β : Type) where
  append : List β → List β → Int × Nat
  verdict : List β → Int
  size_le : ∀ fed buf, (append fed buf).2 ≤ buf.length
  /-- Every byte is consumed unless the message ends or is malformed. -/
  consumes : ∀ fed buf, (append fed buf).1 = 0 → (append fed buf).2 = buf.length
  /-- A message takes at least one byte. -/
  takes : ∀ fed buf, 0 < (append fed buf).1 → 0 < (append fed buf).2
  /-- The outcome depends on the bytes fed. -/
  outcome : ∀ fed buf, fed = [] ∨ verdict fed = 0 →
    (append fed buf).1 = verdict (fed ++ buf.take (append fed buf).2)
  /-- Nothing is consumed after the byte that decides. -/
  undecided : ∀ fed buf, fed = [] ∨ verdict fed = 0 →
    ∀ k < (append fed buf).2, verdict (fed ++ buf.take k) = 0

namespace MessageParser

variable {β : Type} (P : MessageParser β)

/-- The bytes of a message object that may still be fed. -/
def Open (fed : List β) : Prop := fed = [] ∨ P.verdict fed = 0

variable {P} {fed buf more : List β}

/-- The outcome is the verdict at the first byte that decides, or at the end of the buffer. -/
theorem append_eq {n : Nat} (hopen : P.Open fed) (hn : n ≤ buf.length)
    (hbefore : ∀ k < n, P.verdict (fed ++ buf.take k) = 0)
    (hstop : P.verdict (fed ++ buf.take n) ≠ 0 ∨ n = buf.length) :
    P.append fed buf = (P.verdict (fed ++ buf.take n), n) := by
  have hsize : (P.append fed buf).2 = n := by
    have hle := P.size_le fed buf
    obtain hlt | heq | hgt := Nat.lt_trichotomy (P.append fed buf).2 n
    · have hzero := hbefore _ hlt
      rw [← P.outcome fed buf hopen] at hzero
      have hall := P.consumes fed buf hzero
      omega
    · exact heq
    · have hzero := P.undecided fed buf hopen n hgt
      obtain hne | hend := hstop
      · exact absurd hzero hne
      · omega
  apply Prod.ext
  · rw [P.outcome fed buf hopen, hsize]
  · exact hsize

/-- What follows the byte that decides is not looked at. -/
theorem append_of_decided (more : List β) (hopen : P.Open fed) (hne : (P.append fed buf).1 ≠ 0) :
    P.append fed (buf ++ more) = P.append fed buf := by
  have hle := P.size_le fed buf
  have hout := P.outcome fed buf hopen
  have htake : ∀ k ≤ (P.append fed buf).2, (buf ++ more).take k = buf.take k := by
    intro k hk
    apply List.take_append_of_le_length
    omega
  rw [append_eq (n := (P.append fed buf).2) hopen]
  · rw [htake _ (Nat.le_refl _), ← hout]
  · rw [List.length_append]
    omega
  · intro k hk
    rw [htake k (Nat.le_of_lt hk)]
    exact P.undecided fed buf hopen k hk
  · left
    rw [htake _ (Nat.le_refl _), ← hout]
    exact hne

/-- A buffer that decides nothing leaves the message open. -/
theorem open_of_zero (hopen : P.Open fed) (hzero : (P.append fed buf).1 = 0) :
    P.Open (fed ++ buf) := by
  right
  have hout := P.outcome fed buf hopen
  rw [hzero, P.consumes fed buf hzero, List.take_length] at hout
  exact hout.symm

/-- After a buffer that decides nothing, the next one goes on where it ended. -/
theorem append_of_zero (more : List β) (hopen : P.Open fed) (hzero : (P.append fed buf).1 = 0) :
    P.append fed (buf ++ more) =
      ((P.append (fed ++ buf) more).1, buf.length + (P.append (fed ++ buf) more).2) := by
  have hopen' := open_of_zero hopen hzero
  have hall := P.consumes fed buf hzero
  have hle := P.size_le (fed ++ buf) more
  have hout := P.outcome (fed ++ buf) more hopen'
  have htake : ∀ k, fed ++ (buf ++ more).take (buf.length + k) = fed ++ buf ++ more.take k := by
    intro k
    rw [List.take_length_add_append, List.append_assoc]
  rw [append_eq (n := buf.length + (P.append (fed ++ buf) more).2) hopen]
  · rw [htake, ← hout]
  · rw [List.length_append]
    omega
  · intro k hk
    by_cases hin : k < buf.length
    · rw [List.take_append_of_le_length (Nat.le_of_lt hin)]
      apply P.undecided fed buf hopen
      omega
    · obtain ⟨j, rfl⟩ := Nat.exists_eq_add_of_le (Nat.le_of_not_lt hin)
      rw [htake]
      apply P.undecided (fed ++ buf) more hopen'
      omega
  · rw [htake, ← hout, List.length_append]
    by_cases hdec : (P.append (fed ++ buf) more).1 = 0
    · right
      rw [P.consumes _ _ hdec]
    · exact .inl hdec

/-! ## Parsers from classifications -/

/-- The number of bytes of the buffer up to the one that decides. -/
def scan (verdict : List β → Int) (fed : List β) : List β → Nat
  | [] => 0
  | b :: buf => if verdict fed = 0 then scan verdict (fed ++ [b]) buf + 1 else 0

theorem scan_le (verdict : List β → Int) (fed buf : List β) :
    scan verdict fed buf ≤ buf.length := by
  induction buf generalizing fed with
  | nil => exact Nat.le_refl 0
  | cons b buf ih =>
    have hle := ih (fed ++ [b])
    simp only [scan, List.length_cons]
    split
    · omega
    · omega

theorem scan_undecided (verdict : List β → Int) (fed buf : List β) (k : Nat)
    (hk : k < scan verdict fed buf) : verdict (fed ++ buf.take k) = 0 := by
  induction buf generalizing fed k with
  | nil => exact absurd hk (Nat.not_lt_zero k)
  | cons b buf ih =>
    simp only [scan] at hk
    split at hk
    · next hzero =>
      cases k with
      | zero => simpa using hzero
      | succ k =>
        have hrec := ih (fed ++ [b]) k (by omega)
        simpa using hrec
    · omega

theorem scan_consumes (verdict : List β → Int) (fed buf : List β)
    (hzero : verdict (fed ++ buf.take (scan verdict fed buf)) = 0) :
    scan verdict fed buf = buf.length := by
  induction buf generalizing fed with
  | nil => rfl
  | cons b buf ih =>
    simp only [scan] at hzero ⊢
    split at hzero
    · next hmore =>
      rw [if_pos hmore, ih (fed ++ [b]) (by simpa using hzero), List.length_cons]
    · next hdec => exact absurd (by simpa using hzero) hdec

/-- The parser that goes on until the verdict is not 0. -/
def ofVerdict (verdict : List β → Int) (hnil : verdict [] ≤ 0) :
    MessageParser β where
  append fed buf :=
    if verdict fed ≤ 0 then
      (verdict (fed ++ buf.take (scan verdict fed buf)), scan verdict fed buf)
    else (-1, 0)
  verdict := verdict
  size_le fed buf := by
    split
    · exact scan_le verdict fed buf
    · exact Nat.zero_le _
  consumes fed buf hzero := by
    split at hzero
    · next hle =>
      rw [if_pos hle]
      exact scan_consumes verdict fed buf hzero
    · cases hzero
  takes fed buf hret := by
    split at hret
    · next hle =>
      rw [if_pos hle]
      apply Nat.pos_of_ne_zero
      intro hnone
      change scan verdict fed buf = 0 at hnone
      change 0 < verdict (fed ++ buf.take (scan verdict fed buf)) at hret
      rw [hnone, List.take_zero, List.append_nil] at hret
      omega
    · cases hret
  outcome fed buf hopen := by
    have hle : verdict fed ≤ 0 := by
      obtain rfl | hzero := hopen
      · exact hnil
      · omega
    simp only [if_pos hle]
  undecided fed buf hopen k hk := by
    split at hk
    · exact scan_undecided verdict fed buf k hk
    · omega

end MessageParser

end WorkflowKernel.Poller
