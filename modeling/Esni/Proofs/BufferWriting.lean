import Esni.Sizes
import Esni.Update

/-!
# Writing to a buffer

The lists of a record are written to the end of a buffer that may hold something already. A writer
goes step by step: a step appends bytes, or it refuses to go on. A refusal ends the writing, and
what was appended before it stays in the buffer. So where the checks of a writer stand decides
whether a list that is refused leaves the buffer as it was, or leaves a part of itself behind.

A writer may also ask for more room than a buffer has. Then the program ends, and nothing is known
of the buffer.

## Main definitions

- `BufferWriter` — steps that append to a buffer and may refuse to go on
- `BufferWriter.append` — the one step that changes the buffer
- `BufferWriter.reserve` and `BufferWriter.extend` — steps that need room in the buffer
- `BufferWriter.Extends` — the steps append some bytes as long as there is room for them
- `BufferWriter.settled` — what is left to see of a writing

## Main statements

- `BufferWriter.outcome_forM_of_appends` and `BufferWriter.outcome_forM_of_refused` — items one
  after the other, to the end or up to the first that is refused
- `BufferWriter.extends_forM` — items one after the other need room for all of them
-/

namespace Esni

/-- Steps that append to a buffer and may refuse to go on. -/
abbrev BufferWriter (ε : Type) := Update Bytes ε

namespace BufferWriter

open Update (outcome require)

variable {ε α : Type} {buffer : Bytes}

def append (bytes : Bytes) : BufferWriter ε Unit := modify (· ++ bytes)

theorem outcome_append (bytes : Bytes) :
    outcome (append bytes : BufferWriter ε Unit) buffer = (buffer ++ bytes, none) := rfl

theorem outcome_append_bind (bytes : Bytes) (next : BufferWriter ε Unit) :
    outcome (do append bytes; next) buffer = outcome next (buffer ++ bytes) := rfl

/-- A loop of checks is refused because of the first item that fails, and appends nothing. -/
theorem outcome_forM_require (holds : α → Bool) (refusal : α → ε) (items : List α)
    (buffer : Bytes) :
    outcome (items.forM fun item => require (holds item) (refusal item)) buffer =
      (buffer, (items.find? fun item => !holds item).map refusal) := by
  induction items with
  | nil => rfl
  | cons item items ih =>
    show outcome (do require (holds item) (refusal item); items.forM _) buffer = _
    rw [Update.outcome_require_bind, ih]
    cases h : holds item with
    | true => rw [if_pos rfl, List.find?_cons_of_neg (by simp [h])]
    | false =>
      rw [if_neg Bool.false_ne_true, List.find?_cons_of_pos (by simp [h])]
      rfl

/-- If no item is refused, all of them are appended in their order. -/
theorem outcome_forM_of_appends {step : α → BufferWriter ε Unit} {wire : α → Bytes}
    {items : List α}
    (h : ∀ item ∈ items, ∀ buffer, outcome (step item) buffer = (buffer ++ wire item, none))
    (buffer : Bytes) :
    outcome (items.forM step) buffer = (buffer ++ items.flatMap wire, none) := by
  induction items generalizing buffer with
  | nil =>
    show (buffer, none) = _
    rw [List.flatMap_nil, List.append_nil]
  | cons item items ih =>
    show outcome (do step item; items.forM step) buffer = _
    have hitems : ∀ other ∈ items, ∀ buffer,
        outcome (step other) buffer = (buffer ++ wire other, none) :=
      fun other hmem => h other (List.mem_cons_of_mem item hmem)
    rw [Update.outcome_bind_of_none (h item List.mem_cons_self buffer), ih hitems,
      List.flatMap_cons, List.append_assoc]

/-- The first item that is refused ends the writing behind the items before it. -/
theorem outcome_forM_of_refused {step : α → BufferWriter ε Unit} {wire : α → Bytes}
    {before : List α} {item : α} {refusal : ε}
    (hbefore : ∀ other ∈ before, ∀ buffer,
      outcome (step other) buffer = (buffer ++ wire other, none))
    (hitem : ∀ buffer, outcome (step item) buffer = (buffer, some refusal))
    (after : List α) (buffer : Bytes) :
    outcome ((before ++ item :: after).forM step) buffer =
      (buffer ++ before.flatMap wire, some refusal) := by
  -- The steps for `after` are there too, but the refusal comes first.
  have hsplit : (before ++ item :: after).forM step =
      (do before.forM step; step item; after.forM step) := List.forM_append
  rw [hsplit, Update.outcome_bind_of_none (outcome_forM_of_appends hbefore buffer)]
  exact Update.outcome_bind_of_some (hitem _)

/-! ### Room in the buffer -/

/-- Makes room for so many bytes more. -/
def reserve (count : Nat) : BufferWriter (Failure ε) Unit := do
  let buffer ← get
  require (buffer.length + count ≤ Size.maxCapacity) (.panic .capacity)

/-- Appends bytes, for which there has to be room. -/
def extend (bytes : Bytes) : BufferWriter (Failure ε) Unit := do
  reserve bytes.length
  append bytes

/-- The steps append the bytes to a buffer that has room for them, and end the program on a buffer
that has not. -/
structure Extends (steps : BufferWriter (Failure ε) Unit) (bytes : Bytes) : Prop where
  of_room : ∀ buffer : Bytes, buffer.length + bytes.length ≤ Size.maxCapacity →
    outcome steps buffer = (buffer ++ bytes, none)
  of_no_room : ∀ buffer : Bytes, buffer.length ≤ Size.maxCapacity →
    Size.maxCapacity < buffer.length + bytes.length →
    ∃ left, outcome steps buffer = (left, some (.panic .capacity))

theorem outcome_reserve_bind (count : Nat) (next : BufferWriter (Failure ε) Unit)
    (buffer : Bytes) :
    outcome (do reserve count; next) buffer =
      if buffer.length + count ≤ Size.maxCapacity then outcome next buffer
      else (buffer, some (.panic .capacity)) := by
  show outcome (do require (buffer.length + count ≤ Size.maxCapacity) _; next) buffer = _
  rw [Update.outcome_require_bind]
  simp only [decide_eq_true_eq]

theorem extends_extend (bytes : Bytes) :
    Extends (extend bytes : BufferWriter (Failure ε) Unit) bytes where
  of_room buffer h := by
    rw [extend, outcome_reserve_bind, if_pos h, outcome_append]
  of_no_room buffer _ h := by
    rw [extend, outcome_reserve_bind, if_neg (Nat.not_le_of_lt h)]
    exact ⟨buffer, rfl⟩

/-- Steps one behind the other need room for the bytes of both. -/
theorem Extends.bind {first next : BufferWriter (Failure ε) Unit} {bytes bytes' : Bytes}
    (hfirst : Extends first bytes) (hnext : Extends next bytes') :
    Extends (do first; next) (bytes ++ bytes') where
  of_room buffer h := by
    rw [List.length_append, ← Nat.add_assoc, ← List.length_append] at h
    have hroom : buffer.length + bytes.length ≤ Size.maxCapacity := by
      rw [List.length_append] at h
      omega
    rw [Update.outcome_bind_of_none (hfirst.of_room buffer hroom), hnext.of_room _ h,
      List.append_assoc]
  of_no_room buffer hbuffer h := by
    rw [List.length_append, ← Nat.add_assoc, ← List.length_append] at h
    by_cases hroom : buffer.length + bytes.length ≤ Size.maxCapacity
    · rw [Update.outcome_bind_of_none (hfirst.of_room buffer hroom)]
      exact hnext.of_no_room _ (by rwa [List.length_append]) h
    · obtain ⟨left, hleft⟩ := hfirst.of_no_room buffer hbuffer (Nat.lt_of_not_le hroom)
      exact ⟨left, Update.outcome_bind_of_some hleft⟩

theorem extends_forM {step : α → BufferWriter (Failure ε) Unit} {wire : α → Bytes}
    (h : ∀ item, Extends (step item) (wire item)) (items : List α) :
    Extends (items.forM step) (items.flatMap wire) := by
  induction items with
  | nil =>
    constructor
    · intro buffer _
      rw [List.flatMap_nil, List.append_nil]
      rfl
    · intro buffer hbuffer hlong
      exact absurd hbuffer (Nat.not_le_of_lt hlong)
  | cons item items ih => exact (h item).bind ih

/-- What is left to see of a writing: the buffer and the refusal, unless the program has ended. -/
def settled : Bytes × Option (Failure ε) → Except Panic (Bytes × Option ε)
  | (written, none) => .ok (written, none)
  | (written, some (.fault refusal)) => .ok (written, some refusal)
  | (_, some (.panic cause)) => .error cause

end BufferWriter

end Esni
