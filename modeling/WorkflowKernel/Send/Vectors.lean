import Mathlib.Data.List.Basic

/-!
# Vectors of bytes in memory

`struct iovec` and the loop that steps over the bytes a `writev` accepted. `send_message_sync` and
`__poller_handle_write` have that loop each, and differ in what they store in a vector that was sent
whole: `advance` takes it as `spent`.

## What is proved

- `denote_advance`: the vectors from the returned index on denote the bytes that were not accepted.
- `le_advance_of_empty`: empty vectors are stepped over although nothing was accepted.
-/

namespace WorkflowKernel.Send

variable {β : Type}

/-- `struct iovec`. -/
structure Iovec where
  base : Nat
  len : Nat
  deriving DecidableEq, Repr

/-- The bytes a vector points to. -/
def Iovec.bytes (mem : Nat → β) (v : Iovec) : List β :=
  (List.range v.len).map fun i => mem (v.base + i)

/-- The bytes that a row of vectors stands for. -/
def denote (mem : Nat → β) (vs : List Iovec) : List β := vs.flatMap (Iovec.bytes mem)

/-- The loop over the vectors that steps over `n` accepted bytes: the index of the first vector
with bytes left, and the vectors after it. -/
def advance (spent : Iovec → Iovec) : Nat → List Iovec → Nat × List Iovec
  | _, [] => (0, [])
  | n, v :: vs =>
    if v.len ≤ n then
      let r := advance spent (n - v.len) vs
      (r.1 + 1, spent v :: r.2)
    else (0, { base := v.base + n, len := v.len - n } :: vs)

@[simp] theorem Iovec.length_bytes (mem : Nat → β) (v : Iovec) :
    (v.bytes mem).length = v.len := by
  simp [Iovec.bytes]

@[simp] theorem denote_nil (mem : Nat → β) : denote mem [] = [] := rfl

@[simp] theorem denote_cons (mem : Nat → β) (v : Iovec) (vs : List Iovec) :
    denote mem (v :: vs) = v.bytes mem ++ denote mem vs := rfl

/-- Vectors are sent one behind the other. -/
@[simp] theorem denote_append (mem : Nat → β) (vs ws : List Iovec) :
    denote mem (vs ++ ws) = denote mem vs ++ denote mem ws :=
  List.flatMap_append

/-- A vector moved forward points to the rest of its bytes. -/
theorem Iovec.bytes_forward (mem : Nat → β) (v : Iovec) (n : Nat) :
    Iovec.bytes mem { base := v.base + n, len := v.len - n } = (v.bytes mem).drop n := by
  apply List.ext_getElem
  · simp
  · intro i h₁ h₂
    simp only [Iovec.bytes, List.getElem_map, List.getElem_range, List.getElem_drop]
    congr 1
    omega

variable (spent : Iovec → Iovec)

/-- No vector is lost, -/
theorem length_advance (n : Nat) (vs : List Iovec) : (advance spent n vs).2.length = vs.length := by
  induction vs generalizing n with
  | nil => rfl
  | cons v vs ih =>
    simp only [advance]
    split
    · simp [ih]
    · simp

/-- and no more are passed over than there are. -/
theorem advance_le (n : Nat) (vs : List Iovec) : (advance spent n vs).1 ≤ vs.length := by
  induction vs generalizing n with
  | nil => exact Nat.le_refl 0
  | cons v vs ih =>
    simp only [advance]
    split
    · have hle := ih (n - v.len)
      simp only [List.length_cons]
      omega
    · exact Nat.zero_le _

/-- What is left denotes what was not accepted. -/
theorem denote_advance (mem : Nat → β) (n : Nat) (vs : List Iovec) :
    denote mem ((advance spent n vs).2.drop (advance spent n vs).1) = (denote mem vs).drop n := by
  induction vs generalizing n with
  | nil => simp [advance]
  | cons v vs ih =>
    simp only [advance, denote_cons]
    split
    · next hall =>
      have hspent : (v.bytes mem).drop n = [] := List.drop_of_length_le (by simpa using hall)
      rw [List.drop_succ_cons, ih, List.drop_append, hspent, List.nil_append, Iovec.length_bytes]
    · next hpart =>
      have hlt : n ≤ v.len := by omega
      rw [List.drop_zero, denote_cons, Iovec.bytes_forward, List.drop_append_of_le_length]
      simpa using hlt

/-- Leading empty vectors are stepped over in any case. -/
theorem le_advance_of_empty (mem : Nat → β) (n k : Nat) (vs : List Iovec) (hk : k ≤ vs.length)
    (hempty : denote mem (vs.take k) = []) : k ≤ (advance spent n vs).1 := by
  induction vs generalizing n k with
  | nil => exact hk
  | cons v vs ih =>
    cases k with
    | zero => exact Nat.zero_le _
    | succ k =>
      simp only [List.take_succ_cons, denote_cons, List.append_eq_nil_iff] at hempty
      have hlen : v.len = 0 := by
        have := congrArg List.length hempty.1
        simpa using this
      simp only [advance, hlen, Nat.zero_le, if_true]
      have hle := ih (n - 0) k (by simpa using hk) hempty.2
      omega

end WorkflowKernel.Send
