import Esni.Proofs.ConfinedReading
import Esni.Proofs.ExtensionCodec
import Esni.Proofs.RecordSections

/-!
# The sections of a record do not look ahead

No section of a record looks at data behind its own end, whatever the registered decoders do: each
is read in a frame or has a fixed length, and a list is cut out of the data before its items are
read. So all faults of a record but those of too short data are settled by the bytes up to the
section with the fault.

## Main definitions

- `DecodeError.Short` and `DecodeError.Settled` — faults of too short data, and the other faults
  that sections can have
- `Record.decodeWhole` — all sections behind the checksum, and what follows them

## Main statements

- `Record.confined_decodeWhole` — the sections as a confined reader
- `Record.decode_sealed` — a record is its sections with nothing behind them
- `Record.fault_of_decode_error` — what can be wrong with sealed data
-/

namespace Esni

/-- The data ends before the record does. -/
inductive DecodeError.Short : DecodeError → Prop where
  | unexpectedEnd (part : RecordSection) : Short (.unexpectedEnd part)
  | cipherSuites : Short (.cipherSuites .truncatedData)
  | extensions : Short (.extensions .unexpectedEnd)

/-- A section of the record is there, and it is faulty. -/
inductive DecodeError.Settled : DecodeError → Prop where
  | emptyPublicName : Settled .emptyPublicName
  | invalidPublicName : Settled .invalidPublicName
  | emptyKeyShareList : Settled .emptyKeyShareList
  | keyShares (error : KeyShareError) : Settled (.keyShares error)
  | cipherSuitesLength (length : Nat) : Settled (.cipherSuites (.invalidListLength length))
  | invalidTimestamp (part : RecordSection) (value : Nat) : Settled (.invalidTimestamp part value)
  | unsupportedType (type : ExtensionType) : Settled (.extensions (.unsupportedType type))
  | faultyPayload (type : ExtensionType) (error : PayloadError) :
    Settled (.extensions (.faultyPayload type error))
  | overlongPayload (type : ExtensionType) : Settled (.extensions (.overlongPayload type))

theorem DecodeError.Settled.not_short {fault : DecodeError} (h : fault.Settled) : ¬fault.Short := by
  intro hshort
  cases h <;> cases hshort

theorem CipherSuites.confined_decode :
    Confined (· = .truncatedData) (fun fault => ∃ length, fault = .invalidListLength length)
      decode := by
  unfold decode
  refine Confined.bind (.cutNat 2 _) fun length => ?_
  dsimp only
  by_cases hodd : length % 2 = 1
  · simp only [if_pos hodd]
    exact .error ⟨length, rfl⟩
  · simp only [if_neg hodd]
    refine Confined.bind (.cut length _) fun body => ?_
    dsimp only
    refine Confined.check (fun fault hfault => ?_) fun suites => .pure suites
    -- Inside a frame of even length there is nothing but suites.
    have hbody : body.val.length % 2 = 0 := by
      rw [body.property]
      omega
    rw [readAll_of_even hbody] at hfault
    cases hfault

namespace ExtensionList

variable {registry : Registry}

theorem confined_cutBody {Settled : ExtensionDecodeError → Prop} :
    Confined (· = .unexpectedEnd) Settled cutBody := by
  unfold cutBody
  refine Confined.bind (.cutNat 2 _) fun length => ?_
  exact Confined.bind (.cut length _) fun body => .pure body.val

/-- A list that is cut short is found to be so before any of its extensions is looked at. -/
theorem decode_take_framed {body : Bytes} (hbody : body.length < 256 ^ 2) {n : Nat}
    (hn : n < (Bytes.framed 2 body).length) :
    decode registry ((Bytes.framed 2 body).take n) = .error .unexpectedEnd := by
  have hcut : cutBody (Bytes.framed 2 body ++ []) = .ok (body, []) := by
    rw [cutBody, Bytes.cutNat?_framed hbody, orFault_some, ok_bind]
    dsimp only
    rw [Bytes.cut?_append rfl]
    rfl
  rw [List.append_nil] at hcut
  have hconfined : Confined (· = .unexpectedEnd) (fun _ => True) cutBody := confined_cutBody
  rw [decode, hconfined.read_take hcut hn, error_bind]

/-- The list is cut out of the data before its extensions are read, so no decoder sees what is
behind it. -/
theorem confined_decode :
    Confined (· = .unexpectedEnd) (fun fault => fault ≠ .unexpectedEnd) (decode registry) := by
  unfold decode
  refine Confined.bind confined_cutBody fun body => ?_
  exact Confined.check (fun fault _ => em (fault = .unexpectedEnd)) fun decoded => .pure _

end ExtensionList

namespace Record

theorem confined_decodeName (version : Version) :
    Confined (· = .unexpectedEnd .publicName) DecodeError.Settled (decodeName version) := by
  unfold decodeName
  by_cases hversion : version.hasPublicName = true
  · simp only [if_pos hversion]
    refine Confined.bind (.cutNat 1 _) fun length => ?_
    dsimp only
    by_cases hempty : length = 0
    · simp only [if_pos hempty]
      exact .error .emptyPublicName
    · simp only [if_neg hempty]
      refine Confined.bind (.cut length _) fun name => ?_
      dsimp only
      refine Confined.check (fun fault hfault => .inr ?_) fun text => .pure (some text)
      rw [← (orFault_eq_error_iff.1 hfault).2]
      exact .invalidPublicName
  · simp only [if_neg hversion]
    exact .pure none

theorem confined_decodeKeys :
    Confined (· = .unexpectedEnd .keyShareList) DecodeError.Settled decodeKeys := by
  unfold decodeKeys
  refine Confined.bind (.cutNat 2 _) fun length => ?_
  dsimp only
  by_cases hempty : length = 0
  · simp only [if_pos hempty]
    exact .error .emptyKeyShareList
  · simp only [if_neg hempty]
    refine Confined.bind (.cut length _) fun entries => ?_
    dsimp only
    refine Confined.check (fun fault hfault => .inr ?_) fun keys => .pure keys
    cases hkeys : KeyShareList.decode entries.val with
    | ok keys => rw [hkeys] at hfault; cases hfault
    | error error => rw [hkeys] at hfault; cases hfault; exact .keyShares error

theorem confined_decodeTime (part : RecordSection) :
    Confined (· = .unexpectedEnd part) DecodeError.Settled (decodeTime part) := by
  unfold decodeTime
  refine Confined.bind (.cutNat 8 _) fun value => ?_
  dsimp only
  refine Confined.check (fun fault hfault => .inr ?_) fun moment => .pure moment
  rw [← (orFault_eq_error_iff.1 hfault).2]
  exact .invalidTimestamp part value

theorem confined_decodeSuites :
    Confined (· = .cipherSuites .truncatedData) DecodeError.Settled
      fun data => (CipherSuites.decode data).mapError DecodeError.cipherSuites := by
  refine CipherSuites.confined_decode.mapError ?_ ?_
  · rintro _ rfl
    rfl
  · rintro _ ⟨length, rfl⟩
    exact .cipherSuitesLength length

theorem confined_decodeExtensions (registry : Registry) :
    Confined (· = .extensions .unexpectedEnd) DecodeError.Settled
      fun data => (ExtensionList.decode registry data).mapError DecodeError.extensions := by
  refine ExtensionList.confined_decode.mapError ?_ ?_
  · rintro _ rfl
    rfl
  · intro fault hfault
    cases fault with
    | unexpectedEnd => exact absurd rfl hfault
    | unsupportedType type => exact .unsupportedType type
    | faultyPayload type error => exact .faultyPayload type error
    | overlongPayload type => exact .overlongPayload type

theorem confined_decodeBody (version : Version) :
    Confined DecodeError.Short DecodeError.Settled (decodeBody version) := by
  have hshort {part : RecordSection} (fault : DecodeError) (h : fault = .unexpectedEnd part) :
      fault.Short := h ▸ .unexpectedEnd part
  unfold decodeBody
  refine Confined.bind ((confined_decodeName version).mono hshort) fun name => ?_
  refine Confined.bind (confined_decodeKeys.mono hshort) fun keys => ?_
  refine Confined.bind (confined_decodeSuites.mono ?_) fun suites => ?_
  · rintro _ rfl
    exact .cipherSuites
  refine Confined.bind ((Confined.cutUInt16 _).mono hshort) fun padded => ?_
  refine Confined.bind ((confined_decodeTime .notBefore).mono hshort) fun notBefore => ?_
  refine Confined.bind ((confined_decodeTime .notAfter).mono hshort) fun notAfter => ?_
  exact .pure _

/-- All sections behind the checksum as a record, and what follows them. -/
def decodeWhole (registry : Registry) (version : Version) (data : Bytes) :
    Except DecodeError (Record × Bytes) := do
  let (record, data) ← decodeBody version data
  let (extensions, data) ← (ExtensionList.decode registry data).mapError .extensions
  return ({ record with extensions }, data)

theorem confined_decodeWhole (registry : Registry) (version : Version) :
    Confined DecodeError.Short DecodeError.Settled (decodeWhole registry version) := by
  unfold decodeWhole
  refine Confined.bind (confined_decodeBody version) fun record => ?_
  refine Confined.bind ((confined_decodeExtensions registry).mono ?_) fun extensions => .pure _
  rintro _ rfl
  exact .extensions

section Sealed

variable {registry : Registry} {version : UInt16} {record : Record} {body rest : Bytes}
  {fault : DecodeError}

/-- Sealed data is read as its sections, with nothing behind them. -/
theorem decode_sealed (registry : Registry) (version : UInt16) (body : Bytes) :
    decode registry (sealed version body) = (do
      let (record, rest) ← decodeWhole registry ⟨version⟩ body
      if rest = [] then return record else .error (.trailingData rest.length)) := by
  rw [decode, decodeSections_sealed, decodeWhole]
  simp only [bind_assoc, pure_bind]

theorem decode_sealed_of_ok (h : decodeWhole registry ⟨version⟩ body = .ok (record, rest)) :
    decode registry (sealed version body) =
      if rest = [] then .ok record else .error (.trailingData rest.length) := by
  rw [decode_sealed, h, ok_bind]
  rfl

theorem decode_sealed_of_error (h : decodeWhole registry ⟨version⟩ body = .error fault) :
    decode registry (sealed version body) = .error fault := by
  rw [decode_sealed, h, error_bind]

theorem decodeWhole_of_decode_ok (h : decode registry (sealed version body) = .ok record) :
    decodeWhole registry ⟨version⟩ body = .ok (record, []) := by
  rw [decode_sealed, bind_eq_ok_iff] at h
  obtain ⟨⟨whole, rest⟩, hwhole, h⟩ := h
  dsimp only at h
  split at h
  · rename_i hrest
    cases h
    rw [hwhole, hrest]
  · cases h

/-- A fault of sealed data is trailing data or a fault of a section. -/
theorem fault_of_decode_error (h : decode registry (sealed version body) = .error fault) :
    (∃ record rest, decodeWhole registry ⟨version⟩ body = .ok (record, rest) ∧
        fault = .trailingData rest.length) ∨
      decodeWhole registry ⟨version⟩ body = .error fault ∧ (fault.Short ∨ fault.Settled) := by
  cases hwhole : decodeWhole registry ⟨version⟩ body with
  | ok found =>
    obtain ⟨record, rest⟩ := found
    rw [decode_sealed_of_ok hwhole] at h
    split at h
    · cases h
    · cases h
      exact .inl ⟨record, rest, rfl, rfl⟩
  | error found =>
    rw [decode_sealed_of_error hwhole] at h
    cases h
    have hkind := (confined_decodeWhole registry ⟨version⟩).short_or_settled hwhole
    exact .inr ⟨rfl, hkind.imp_right And.left⟩

end Sealed

end Record

end Esni
