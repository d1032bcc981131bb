import Esni.Proofs.BufferWriting
import Esni.Proofs.ExtensionCodec
import Esni.Extension.Kinds

/-!
# Writing extension lists

A list is looked through twice before it is written: its extensions report how long they are
together, and those that take the rest of a list have to stand at its end. Only then the list is
appended, its length first and then one extension after the other. Since both checks come before
the first byte, a list that is refused leaves the buffer as it was.

The sum of the reports may not fit into a word, and there may be no room in the buffer for what is
reported or for what is really written. Then no list is refused: the program ends, or it takes what
is left of the sum for the length.

## Main definitions

- `ExtensionList.write` — the steps that write a list
- `ExtensionList.FirstMisplaced` — the first extension that takes the rest and is not the last one
- `ExtensionList.AllOrNothing` — what becomes of a list that is told to have some length

## Main statements

- `ExtensionList.settled_outcome_write` — the steps come to what the encoder gives
- `ExtensionList.encodeTo_allOrNothing` — what a list does to the buffer
-/

namespace Esni

open BufferWriter (extend reserve settled Extends)
open Update (attempt require outcome)

/-- The steps that write an extension: its identifier and its payload. -/
def Extension.write (extension : Extension) :
    BufferWriter (Failure ExtensionEncodeError) Unit := do
  extend (Bytes.ofUInt16 extension.type.code)
  extend extension.payload

theorem Extension.extends_write (extension : Extension) :
    Extends extension.write extension.wire :=
  (BufferWriter.extends_extend _).bind (BufferWriter.extends_extend _)

namespace ExtensionList

variable {list : ExtensionList} {extension : Extension}

/-- The check of the length that the extensions report together. -/
def checkLength (length : Nat) : BufferWriter (Failure ExtensionEncodeError) Unit :=
  require (length ≤ maxLength) (.fault (.listTooLong length))

/-- The check of one extension after the other, up to the last, which may take the rest. -/
def checkOrder (list : ExtensionList) : BufferWriter (Failure ExtensionEncodeError) Unit :=
  list.dropLast.forM fun extension =>
    require (!extension.consumesRest) (.fault (.unboundedNotLast extension.type))

/-- The steps that append a list, once it is checked. -/
def writeChecked (list : ExtensionList) (length : Nat) :
    BufferWriter (Failure ExtensionEncodeError) Unit := do
  extend (Bytes.ofNat 2 length)
  list.forM Extension.write

/-- The steps that write a list. -/
def write [Build] (list : ExtensionList) : BufferWriter (Failure ExtensionEncodeError) Unit := do
  let length ← attempt ((encodedLength list).mapError .panic)
  checkLength length
  checkOrder list
  reserve (2 + length)
  writeChecked list length

/-- The extension takes the rest and something follows it, while no extension before it takes the
rest. -/
def FirstMisplaced (list : ExtensionList) (extension : Extension) : Prop :=
  ∃ before after, list = before ++ extension :: after ∧ after ≠ [] ∧
    (∀ other ∈ before, other.consumesRest = false) ∧ extension.consumesRest = true

theorem firstMisplaced_iff :
    FirstMisplaced list extension ↔ list.dropLast.find? (·.consumesRest) = some extension := by
  rw [List.find?_eq_some_iff_append]
  constructor
  · rintro ⟨before, after, rfl, hafter, hbefore, htakes⟩
    -- Something follows the extension, so dropping the last one drops it from there.
    refine ⟨htakes, before, after.dropLast, ?_, ?_⟩
    · rw [List.dropLast_append_of_ne_nil (List.cons_ne_nil _ _),
        List.dropLast_cons_of_ne_nil hafter]
    · intro other hmem
      rw [hbefore other hmem]
      rfl
  · rintro ⟨htakes, before, after, hsplit, hbefore⟩
    have hne : list ≠ [] := by
      rintro rfl
      simp at hsplit
    refine ⟨before, after ++ [list.getLast hne], ?_, by simp, ?_, htakes⟩
    · rw [← List.cons_append, ← List.append_assoc, ← hsplit, List.dropLast_append_getLast]
    · intro other hmem
      simpa using hbefore other hmem

theorem forall_not_firstMisplaced_iff :
    (∀ extension, ¬FirstMisplaced list extension) ↔
      list.dropLast.find? (·.consumesRest) = none := by
  rw [Option.eq_none_iff_forall_ne_some]
  simp only [firstMisplaced_iff]

/-- The loop over the extensions finds the first one that is misplaced, and appends nothing. -/
theorem outcome_checkOrder (list : ExtensionList) (buffer : Bytes) :
    outcome (checkOrder list) buffer =
      (buffer, (list.dropLast.find? (·.consumesRest)).map
        fun extension => .fault (.unboundedNotLast extension.type)) := by
  rw [checkOrder, BufferWriter.outcome_forM_require]
  simp only [Bool.not_not]

theorem extends_writeChecked (list : ExtensionList) (length : Nat) :
    Extends (writeChecked list length) (Bytes.ofNat 2 length ++ list.flatMap Extension.wire) :=
  (BufferWriter.extends_extend _).bind (BufferWriter.extends_forM Extension.extends_write list)

/-- Once there is room for what is reported, only what is really written decides. -/
theorem settled_outcome_writeChecked {length : Nat} {buffer : Bytes}
    (hroom : buffer.length + (2 + length) ≤ Size.maxCapacity) :
    settled (outcome (writeChecked list length) buffer) =
      if buffer.length + (2 + (list.flatMap Extension.wire).length) ≤ Size.maxCapacity then
        .ok (buffer ++ (Bytes.ofNat 2 length ++ list.flatMap Extension.wire), none)
      else .error .capacity := by
  have hextends := extends_writeChecked list length
  have hbytes : (Bytes.ofNat 2 length ++ list.flatMap Extension.wire).length =
      2 + (list.flatMap Extension.wire).length := by
    rw [List.length_append, Bytes.length_ofNat]
  split
  · rename_i hwritten
    rw [hextends.of_room buffer (by rwa [hbytes])]
    rfl
  · rename_i hwritten
    obtain ⟨left, hleft⟩ := hextends.of_no_room buffer (by omega) (by omega)
    rw [hleft]
    rfl

section Outcomes

variable [Build] {length : Nat} {buffer : Bytes}

theorem encodeTo_of_tooLong (hreported : encodedLength list = .ok length) (h : 65535 < length) :
    encodeTo list buffer = .ok (buffer, some (.listTooLong length)) := by
  rw [encodeTo, encode_of_encodedLength hreported, maxLength, if_pos h]

theorem encodeTo_of_misplaced (hreported : encodedLength list = .ok length) (h : length ≤ 65535)
    (hfind : list.dropLast.find? (·.consumesRest) = some extension) :
    encodeTo list buffer = .ok (buffer, some (.unboundedNotLast extension.type)) := by
  rw [encodeTo, encode_of_encodedLength hreported, maxLength, if_neg (Nat.not_lt_of_le h), hfind]

theorem encodeTo_of_ordered (hreported : encodedLength list = .ok length) (h : length ≤ 65535)
    (hfind : list.dropLast.find? (·.consumesRest) = none) :
    encodeTo list buffer =
      if buffer.length + (2 + length) ≤ Size.maxCapacity ∧
          buffer.length + (2 + (list.flatMap Extension.wire).length) ≤ Size.maxCapacity then
        .ok (buffer ++ (Bytes.ofNat 2 length ++ list.flatMap Extension.wire), none)
      else .error .capacity := by
  rw [encodeTo, encode_of_encodedLength hreported, maxLength, if_neg (Nat.not_lt_of_le h), hfind]
  dsimp only
  by_cases hroom : buffer.length + (2 + length) ≤ Size.maxCapacity ∧
      buffer.length + (2 + (list.flatMap Extension.wire).length) ≤ Size.maxCapacity
  · rw [if_pos hroom, if_pos hroom]
  · rw [if_neg hroom, if_neg hroom]

/-- A sum that ends the program ends it before anything is written. -/
theorem encodeTo_of_overflow {cause : Panic} (h : encodedLength list = .error cause) :
    encodeTo list buffer = .error cause := by
  rw [encodeTo, encode, h]
  rfl

/-- The steps come to what the encoder gives. -/
theorem settled_outcome_write (list : ExtensionList) (buffer : Bytes) :
    settled (outcome (write list) buffer) = encodeTo list buffer := by
  cases hreported : encodedLength list with
  | error cause =>
    rw [encodeTo_of_overflow hreported, write, hreported, mapError_error,
      Update.outcome_attempt_bind_of_error rfl]
    rfl
  | ok length =>
    -- Both checks leave the buffer alone, so whatever follows them starts from it as it was.
    have horder := outcome_checkOrder list buffer
    rw [write, hreported, mapError_ok, Update.outcome_attempt_bind_of_ok rfl, checkLength,
      Update.outcome_require_bind]
    by_cases h : length ≤ maxLength
    · rw [if_pos (decide_eq_true h)]
      cases hfind : list.dropLast.find? (·.consumesRest) with
      | some extension =>
        rw [hfind] at horder
        rw [Update.outcome_bind_of_some horder, encodeTo_of_misplaced hreported h hfind]
        rfl
      | none =>
        rw [hfind] at horder
        rw [Update.outcome_bind_of_none horder, BufferWriter.outcome_reserve_bind,
          encodeTo_of_ordered hreported h hfind]
        by_cases hroom : buffer.length + (2 + length) ≤ Size.maxCapacity
        · rw [if_pos hroom, settled_outcome_writeChecked hroom]
          simp only [hroom, true_and]
        · rw [if_neg hroom, if_neg fun h => hroom h.1]
          rfl
    · rw [if_neg (by simpa using h), encodeTo_of_tooLong hreported (Nat.lt_of_not_le h)]
      rfl

/-- What becomes of a list whose extensions are told to take `length` bytes. A length that its field
cannot tell is reported first, whatever the order of the extensions. A list that is short enough is
refused because of the first extension that takes the rest and is not the last one. Both leave the
buffer as it was. Any other list is appended: the length in two bytes, and the identifier and the
payload of each extension. The program ends if there is no room for what is reported or for what is
written. -/
structure AllOrNothing (list : ExtensionList) (buffer : Bytes) (length : Nat) : Prop where
  tooLong : 65535 < length → encodeTo list buffer = .ok (buffer, some (.listTooLong length))
  misplaced : length ≤ 65535 → ∀ extension, FirstMisplaced list extension →
    encodeTo list buffer = .ok (buffer, some (.unboundedNotLast extension.type))
  appended : length ≤ 65535 → (∀ extension, ¬FirstMisplaced list extension) →
    buffer.length + (2 + length) ≤ Size.maxCapacity →
    buffer.length + (2 + (list.flatMap Extension.wire).length) ≤ Size.maxCapacity →
    ∃ field : Octets 2, Bytes.toNat field.val = length ∧
      encodeTo list buffer = .ok (buffer ++ (field.val ++ list.flatMap fun extension =>
        Bytes.ofUInt16 extension.type.code ++ extension.payload), none)
  no_room : length ≤ 65535 → (∀ extension, ¬FirstMisplaced list extension) →
    Size.maxCapacity < buffer.length + (2 + length) ∨
      Size.maxCapacity < buffer.length + (2 + (list.flatMap Extension.wire).length) →
    encodeTo list buffer = .error .capacity

theorem allOrNothing (hreported : encodedLength list = .ok length) (buffer : Bytes) :
    AllOrNothing list buffer length where
  tooLong := encodeTo_of_tooLong hreported
  misplaced hshort extension hmisplaced :=
    encodeTo_of_misplaced hreported hshort (firstMisplaced_iff.1 hmisplaced)
  appended hshort hordered hreserve hwritten := by
    refine ⟨⟨Bytes.ofNat 2 length, Bytes.length_ofNat _ _⟩, ?_, ?_⟩
    · exact Bytes.toNat_ofNat_of_lt (Nat.lt_succ_of_le hshort)
    · rw [encodeTo_of_ordered hreported hshort (forall_not_firstMisplaced_iff.1 hordered),
        if_pos ⟨hreserve, hwritten⟩]
      rfl
  no_room hshort hordered hlong := by
    rw [encodeTo_of_ordered hreported hshort (forall_not_firstMisplaced_iff.1 hordered)]
    refine if_neg fun hroom => ?_
    omega

/-- A list that was appended has the length that its extensions report, if they write as much. -/
theorem encodedLength_of_encodeTo {written : Bytes}
    (htruthful : ∀ extension ∈ list, extension.payload.length = extension.payloadLength.toNat)
    (h : encodeTo list buffer = .ok (written, none)) :
    encodedLength list = .ok (reportedLength list) := by
  obtain ⟨bytes, hencode, _⟩ := encodeTo_eq_ok_iff.1 h
  have hshort := (framed_of_encode htruthful hencode).1
  exact encodedLength_of_lt (Nat.lt_of_le_of_lt hshort (by decide))

end Outcomes

/-- Raw data that with its identifier is one byte longer than a list may be. -/
def overlong : Extension := .of { Raw.fresh with bytes := List.replicate 65534 0 }

theorem payloadLength_overlong : overlong.payloadLength = 65534 := by
  show UInt64.ofNat (List.replicate 65534 (0 : UInt8)).length = 65534
  rw [List.length_replicate]
  rfl

end ExtensionList

end Esni
