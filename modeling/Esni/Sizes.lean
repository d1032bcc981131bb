import Esni.Items

/-!
# Sizes

What is kept in memory is measured in machine words of sixty-four bits. A program is built in one of
two ways: a sum of sizes that does not fit into a word ends the program, or it loses its high part.
A buffer has at most `Size.maxCapacity` bytes, and the program ends if it asks for more. Such an end
is a panic and not an error: no caller is told, and no result is given. Nothing that a program holds
in one piece is that long, but lengths that it is told, and sums of lengths, may be. How much memory
a system really has is left out: a request that is not too long for any buffer is granted.

## Main definitions

- `Build` — how a program is built
- `Panic` and `Failure` — why a program ends, and why an operation has no result
- `Size.ofNat` and `Size.total` — a number as a word, and the sum of sizes one after the other
- `Size.allocate` — the request for a buffer

## Main statements

- `Size.total_eq` — a chain of sums is the exact sum, counted as a word once
-/

namespace Esni

/-- How a program is built. -/
class Build where
  /-- Whether a sum that does not fit into a word ends the program. -/
  checksSums : Bool

/-- Programs are released without the checks. -/
instance Build.release : Build := ⟨false⟩

/-- Programs are tried out with the checks. -/
abbrev Build.debug : Build := ⟨true⟩

/-- Why a program ends. -/
inductive Panic where
  /-- A sum does not fit into a word. -/
  | overflow
  /-- A buffer would be longer than any buffer can be. -/
  | capacity
  deriving DecidableEq

/-- Why an operation has no result. -/
inductive Failure (ε : Type) where
  /-- The operation was refused. -/
  | fault (error : ε)
  /-- The program has ended. -/
  | panic (cause : Panic)
  deriving DecidableEq

/-- The same failure, with another account of the refusal. -/
def Failure.map {ε ε' : Type} (rename : ε → ε') : Failure ε → Failure ε'
  | fault error => fault (rename error)
  | panic cause => panic cause

/-- Whether a question was answered with yes. One that ended the program was not. -/
def affirmed : Except Panic Bool → Bool
  | .ok answer => answer
  | .error _ => false

theorem affirmed_eq_true_iff {answer : Except Panic Bool} :
    affirmed answer = true ↔ answer = .ok true := by
  cases answer <;> simp [affirmed]

namespace Size

/-- The number of values of a word. -/
def modulus : Nat := 18446744073709551616

/-- The length of the longest buffer. -/
def maxCapacity : Nat := 9223372036854775807

/-- Asks for a buffer that has room for the given number of bytes. -/
def allocate (size : Nat) : Except Panic Unit :=
  if size ≤ maxCapacity then .ok () else .error .capacity

theorem allocate_eq_ok_iff {size : Nat} : allocate size = .ok () ↔ size ≤ maxCapacity := by
  unfold allocate
  split <;> simp [*]

variable [Build] {α : Type}

/-- The word for a number. -/
def ofNat (n : Nat) : Except Panic Nat :=
  if n < modulus then .ok n
  else if Build.checksSums then .error .overflow
  else .ok (n % modulus)

/-- The sum of the sizes of items, one after the other. -/
def total (size : α → Nat) (items : List α) : Except Panic Nat :=
  items.foldlM (fun sum item => do ofNat (sum + (← ofNat (size item)))) 0

theorem ofNat_of_lt {n : Nat} (h : n < modulus) : ofNat n = .ok n := if_pos h

/-- A sum that does not fit ends a program that checks its sums. -/
theorem ofNat_of_checks {n : Nat} (hchecks : Build.checksSums = true) (h : modulus ≤ n) :
    ofNat n = .error .overflow := by
  rw [ofNat, if_neg (Nat.not_lt_of_le h), if_pos hchecks]

/-- A sum loses its high part in a program that does not check its sums. -/
theorem ofNat_of_wraps (hwraps : Build.checksSums = false) (n : Nat) :
    ofNat n = .ok (n % modulus) := by
  unfold ofNat
  split
  · rename_i h
    rw [Nat.mod_eq_of_lt h]
  · rw [if_neg (by simp [hwraps])]

theorem lt_of_ofNat {n word : Nat} (h : ofNat n = .ok word) : word < modulus := by
  unfold ofNat at h
  split at h
  · cases h
    assumption
  · split at h
    · cases h
    · cases h
      exact Nat.mod_lt n (by decide)

/-- What is added to a word may as well be added to the number that the word stands for. -/
theorem ofNat_bind_add (n other : Nat) :
    (do let word ← ofNat n; ofNat (word + other)) = ofNat (n + other) := by
  by_cases hn : n < modulus
  · rw [ofNat_of_lt hn]
    rfl
  have hsum : ¬n + other < modulus := by omega
  by_cases hchecks : Build.checksSums = true
  · rw [ofNat, if_neg hn, if_pos hchecks, ofNat, if_neg hsum, if_pos hchecks]
    rfl
  rw [ofNat, if_neg hn, if_neg hchecks]
  show ofNat (n % modulus + other) = _
  rw [ofNat, ofNat, if_neg hchecks, if_neg hsum, if_neg hchecks]
  split
  · rename_i hlt
    rw [← Nat.mod_add_mod, Nat.mod_eq_of_lt hlt]
  · rw [Nat.mod_add_mod]

theorem ofNat_bind_add_left (n other : Nat) :
    (do let word ← ofNat n; ofNat (other + word)) = ofNat (other + n) := by
  simp only [Nat.add_comm other, ofNat_bind_add]

/-- Only the exact sum decides whether a chain of sums comes to a result, and to which. -/
theorem total_eq (size : α → Nat) (items : List α) :
    total size items = ofNat (totalLength size items) := by
  have hfold : ∀ start < modulus,
      items.foldlM (fun sum item => do ofNat (sum + (← ofNat (size item)))) start =
        ofNat (start + totalLength size items) := by
    induction items with
    | nil =>
      intro start hstart
      exact (ofNat_of_lt hstart).symm
    | cons item items ih =>
      intro start hstart
      rw [List.foldlM_cons, ofNat_bind_add_left, totalLength_cons, ← Nat.add_assoc,
        ← ofNat_bind_add (start + size item)]
      cases hsum : ofNat (start + size item) with
      | error cause => rfl
      | ok sum => exact ih sum (lt_of_ofNat hsum)
  have hzero := hfold 0 (by decide)
  rwa [Nat.zero_add] at hzero

theorem total_of_lt {size : α → Nat} {items : List α} (h : totalLength size items < modulus) :
    total size items = .ok (totalLength size items) := by
  rw [total_eq, ofNat_of_lt h]

end Size

end Esni
