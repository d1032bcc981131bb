import Esni.Proofs.RoundTrip

/-!
# The outcome of writing a record

The fields of a record tell whether it can be written: each section has limits of its own, and the
first section that breaks one is reported. A record that keeps them all is written, and then no
length field has wrapped around: each tells the length of what stands behind it.

Before any of this the encoder asks for a buffer, of a length that the extensions have a say in. A
buffer that is too long ends the program, whichever limits the record breaks. The sum itself may not
fit into a word. Then a program that checks its sums ends as well, and one that does not goes on
with what is left of the sum.

One of the faults that the encoder can name never occurs. A key that does not fit its own length
field is longer than the field of the whole list can tell, and the whole list is checked first.

## Main definitions

- `Record.encodeFault?` — the first limit that the record breaks
- `Bytes.Prefixed` — bytes behind a field that tells their length
- `Record.LaidOut` — the sections of an encoding and their lengths
- `Record.Answered` — what the encoder answers once it has its buffer

## Main statements

- `Record.encode_eq` — the fault or the bytes that the encoder gives
- `Record.encode_outcome` — the limits, and what a written record looks like
-/

namespace Esni

/-- The data is `content` behind a field of `width` bytes that tells the length of it. -/
def Bytes.Prefixed (width : Nat) (content data : Bytes) : Prop :=
  ∃ field : Octets width, Bytes.toNat field.val = content.length ∧ data = field.val ++ content

/-- A frame tells the length of its contents, if that has no more digits than the field. -/
theorem Bytes.prefixed_framed {width : Nat} {content : Bytes} (h : content.length < 256 ^ width) :
    Prefixed width content (framed width content) :=
  ⟨⟨ofNat width content.length, length_ofNat _ _⟩, toNat_ofNat_of_lt h, rfl⟩

namespace Record

variable {record : Record} {bytes : Bytes}

/-- The bytes of the public name, none if the record has no name. -/
def nameBytes (record : Record) : Bytes := (record.publicName.getD "").toUTF8.data.toList

/-- The first limit that the record breaks in front of the extensions, in the order in which its
sections are written. -/
def frontFault? (record : Record) : Option EncodeError :=
  if 0xff02 ≤ record.version.code ∧ (record.publicName = none ∨ record.publicName = some "") then
    some .missingPublicName
  else if 0xff02 ≤ record.version.code ∧ 255 < record.nameLength then
    some (.publicNameTooLong record.nameLength)
  else if record.keys.entries = [] then some .emptyKeyShareList
  else if 65535 < record.keys.encodedLength then
    some (.keyShareListTooLong record.keys.encodedLength)
  else if 32767 < record.cipherSuites.length then
    some (.cipherSuites (.tooManySuites record.cipherSuites.length))
  else none

/-- The first limit that the record breaks. The extensions come last, and are told to take
`reported` bytes together. -/
def encodeFault? (record : Record) (reported : Nat) : Option EncodeError :=
  record.frontFault?.or
    (if 65535 < reported then some (.extensions (.listTooLong reported))
    else (record.extensions.dropLast.find? (·.consumesRest)).map fun extension =>
      .extensions (.unboundedNotLast extension.type))

/-- The section of the public name, which is empty where the version has none. -/
def nameSection (record : Record) : Bytes :=
  if 0xff02 ≤ record.version.code then Bytes.framed 1 record.nameBytes else []

/-- The bytes in front of the extensions, whether the fields keep their limits or not. -/
def wireFront (record : Record) : Bytes :=
  record.bodyFront record.nameSection (Bytes.framed 2 (record.keys.entries.flatMap KeyShare.wire))
    (Bytes.framed 2 (record.cipherSuites.flatMap CipherSuites.wire))

/-- The bytes that the fields of the record make, with the reported length in front of the
extensions. -/
def wireBody (record : Record) (reported : Nat) : Bytes :=
  record.wireFront ++ (Bytes.ofNat 2 reported ++ record.extensions.flatMap Extension.wire)

/-- The number of bytes that the record takes, with what its extensions really write. -/
def writtenLength (record : Record) : Nat :=
  6 + (if 0xff02 ≤ record.version.code then 1 + record.nameLength else 0) +
    2 + record.keys.encodedLength + 2 + 2 * record.cipherSuites.length + 2 + 16 +
    2 + (record.extensions.flatMap Extension.wire).length

theorem length_nameBytes (record : Record) : record.nameBytes.length = record.nameLength := rfl

theorem nameBytes_eq_nil_iff :
    record.nameBytes = [] ↔ record.publicName = none ∨ record.publicName = some "" := by
  rw [← List.length_eq_zero_iff, length_nameBytes, nameLength, String.utf8ByteSize_eq_zero_iff]
  cases record.publicName with
  | none => simp
  | some name => simp

theorem encodeName_eq (record : Record) :
    encodeName record.version record.publicName =
      if 0xff02 ≤ record.version.code ∧
          (record.publicName = none ∨ record.publicName = some "") then
        .error .missingPublicName
      else if 0xff02 ≤ record.version.code ∧ 255 < record.nameLength then
        .error (.publicNameTooLong record.nameLength)
      else .ok record.nameSection := by
  have hcode : record.version.hasPublicName = decide (0xff02 ≤ record.version.code) := rfl
  by_cases hversion : 0xff02 ≤ record.version.code
  · simp only [hversion, true_and, nameSection, if_true, encodeName, hcode, decide_true,
      ← nameBytes_eq_nil_iff]
    show (if record.nameBytes = [] then _ else _) = _
    by_cases hempty : record.nameBytes = []
    · rw [if_pos hempty, if_pos hempty]
    · rw [if_neg hempty, if_neg hempty]
      rfl
  · rw [encodeName, if_neg fun h => hversion (of_decide_eq_true (hcode.symm.trans h)),
      if_neg fun h => hversion h.1, if_neg fun h => hversion h.1, nameSection, if_neg hversion]

theorem length_nameSection (record : Record) : record.nameSection.length =
    if 0xff02 ≤ record.version.code then 1 + record.nameLength else 0 := by
  rw [nameSection]
  split
  · rw [Bytes.length_framed, length_nameBytes]
  · rfl

theorem eq_nameSection_of_encodeName {name : Bytes}
    (h : encodeName record.version record.publicName = .ok name) : name = record.nameSection := by
  rw [encodeName_eq] at h
  split_ifs at h
  exact (Except.ok.inj h).symm

theorem encodeKeys_eq (keys : KeyShareList) :
    encodeKeys keys =
      if keys.entries = [] then .error .emptyKeyShareList
      else if 65535 < keys.encodedLength then .error (.keyShareListTooLong keys.encodedLength)
      else .ok (Bytes.framed 2 (keys.entries.flatMap KeyShare.wire)) := by
  have hempty : keys.isEmpty = true ↔ keys.entries = [] := List.isEmpty_iff
  rw [encodeKeys, maxKeysLength]
  by_cases hnone : keys.entries = []
  · rw [if_pos (hempty.2 hnone), if_pos hnone]
  rw [if_neg fun h => hnone (hempty.1 h), if_neg hnone]
  by_cases hlong : 65535 < keys.encodedLength
  · rw [if_pos hlong, if_pos hlong]
  rw [if_neg hlong, if_neg hlong]
  -- The length of the whole list bounds every key, so no key can be refused any more.
  have hfits := KeyShareList.fits_of_encodedLength_le (Nat.le_of_not_lt hlong)
  rw [KeyShareList.encode_eq_ok_iff.2 ⟨hfits, rfl⟩, mapError_ok, ok_bind, Bytes.framed,
    KeyShareList.length_flatMap_wire]
  rfl

theorem length_wireFront (record : Record) :
    headerLength + record.wireFront.length +
        (2 + (record.extensions.flatMap Extension.wire).length) = record.writtenLength := by
  rw [wireFront, length_bodyFront, length_nameSection, Bytes.length_framed, Bytes.length_framed,
    record.keys.length_flatMap_wire, CipherSuites.length_flatMap_wire, writtenLength, headerLength]
  omega

theorem length_sealed_wireBody (record : Record) (reported : Nat) :
    (sealed record.version.code (record.wireBody reported)).length = record.writtenLength := by
  rw [← length_wireFront, length_sealed, wireBody, List.length_append, List.length_append,
    Bytes.length_ofNat, headerLength, Nat.add_assoc]

/-- The first limit that is broken in front of the extensions is reported. -/
theorem encodeFront_eq (record : Record) :
    record.encodeFront = match record.frontFault? with
      | some fault => .error fault
      | none => .ok record.wireFront := by
  rw [encodeFront, encodeName_eq, encodeKeys_eq, CipherSuites.encode_eq]
  unfold frontFault?
  -- The limits are set aside in their order. What comes behind the first broken one is not written.
  by_cases hmissing :
      0xff02 ≤ record.version.code ∧ (record.publicName = none ∨ record.publicName = some "")
  · rw [if_pos hmissing, if_pos hmissing]
    rfl
  rw [if_neg hmissing, if_neg hmissing]
  by_cases hname : 0xff02 ≤ record.version.code ∧ 255 < record.nameLength
  · rw [if_pos hname, if_pos hname]
    rfl
  rw [if_neg hname, if_neg hname]
  by_cases hempty : record.keys.entries = []
  · rw [if_pos hempty, if_pos hempty]
    rfl
  rw [if_neg hempty, if_neg hempty]
  by_cases hkeys : 65535 < record.keys.encodedLength
  · rw [if_pos hkeys, if_pos hkeys]
    rfl
  rw [if_neg hkeys, if_neg hkeys]
  by_cases hsuites : 32767 < record.cipherSuites.length
  · rw [if_pos hsuites, if_pos hsuites]
    rfl
  · rw [if_neg hsuites, if_neg hsuites]
    rfl

theorem frontFault?_of_encodeFront {front : Bytes} (h : encodeFront record = .ok front) :
    record.frontFault? = none := by
  rw [encodeFront_eq] at h
  cases hfault : record.frontFault? with
  | some fault =>
    rw [hfault] at h
    cases h
  | none => rfl

theorem eq_wireFront_of_encodeFront {front : Bytes} (h : encodeFront record = .ok front) :
    front = record.wireFront := by
  have hfront := record.encodeFront_eq
  rw [frontFault?_of_encodeFront h, h] at hfront
  exact Except.ok.inj hfront

/-- The encoder reports the first limit that is broken, and else gives the bytes of the fields, as
long as there is room for them. -/
theorem encode_eq [Build] {reported : Nat} (hallocation : record.allocation = .ok ())
    (hreported : ExtensionList.encodedLength record.extensions = .ok reported) :
    record.encode = match record.encodeFault? reported with
      | some fault => .error (.fault fault)
      | none =>
        if record.writtenLength ≤ Size.maxCapacity then
          .ok (sealed record.version.code (record.wireBody reported))
        else .error (.panic .capacity) := by
  have hfront := record.encodeFront_eq
  rw [encode, encodeBody_of_allocation hallocation, encodeFault?]
  cases hfault : record.frontFault? with
  | some fault =>
    rw [hfault] at hfront
    rw [hfront]
    rfl
  | none =>
    rw [hfault] at hfront
    rw [hfront, mapError_ok, ok_bind, Option.none_or,
      ExtensionList.encode_of_encodedLength hreported, ExtensionList.maxLength, length_wireFront]
    by_cases hextensions : 65535 < reported
    · rw [if_pos hextensions, if_pos hextensions]
      rfl
    rw [if_neg hextensions, if_neg hextensions]
    cases record.extensions.dropLast.find? (·.consumesRest) with
    | some extension => rfl
    | none =>
      dsimp only
      -- Once the limits are kept there is room for a list of the reported length.
      have hreserve := room_of_encodeFront hfront
      rw [ExtensionList.maxLength] at hreserve
      by_cases hroom : record.writtenLength ≤ Size.maxCapacity
      · rw [if_pos ⟨by omega, hroom⟩]
        exact (if_pos hroom).symm
      · rw [if_neg fun h => hroom h.2]
        exact (if_neg hroom).symm

/-- No record is refused for a single key. -/
theorem encodeFault?_ne_keyShares (record : Record) (reported : Nat) (error : KeyShareError) :
    record.encodeFault? reported ≠ some (.keyShares error) := by
  unfold encodeFault? frontFault?
  split_ifs <;> simp

/-- The limits that a record without a fault keeps. -/
structure WithinLimits (record : Record) (reported : Nat) : Prop where
  name : 0xff02 ≤ record.version.code → record.nameLength < 256
  keys : record.keys.encodedLength < 65536
  suites : record.cipherSuites.length < 32768
  extensions : reported < 65536

theorem withinLimits_of_encodeFault? {reported : Nat} (h : record.encodeFault? reported = none) :
    record.WithinLimits reported := by
  obtain ⟨hfront, hextensions⟩ := Option.or_eq_none_iff.1 h
  unfold frontFault? at hfront
  split_ifs at hfront with hmissing hname hempty hkeys hsuites
  split_ifs at hextensions with hlong
  refine ⟨fun hversion => ?_, by omega, by omega, by omega⟩
  by_contra hlong
  exact hname ⟨hversion, by omega⟩

/-- Every extension writes as many bytes as it reports. -/
def Truthful (record : Record) : Prop :=
  ∀ extension ∈ record.extensions, extension.payload.length = extension.payloadLength.toNat

/-- The bytes are the sections of the record one after the other, and every length field in them
tells the length of what stands behind it. -/
structure LaidOut (record : Record) (bytes : Bytes) : Prop where
  length_eq : bytes.length =
    6 + (if 0xff02 ≤ record.version.code then 1 + record.nameLength else 0) +
      2 + record.keys.encodedLength + 2 + 2 * record.cipherSuites.length + 2 + 16 +
      2 + ExtensionList.reportedLength record.extensions
  sections : ∃ (checksum : Checksum) (name keys suites extensions : Bytes),
    bytes = Bytes.ofUInt16 record.version.code ++ checksum.val ++
        (record.bodyFront name keys suites ++ extensions) ∧
      (if 0xff02 ≤ record.version.code then Bytes.Prefixed 1 record.nameBytes name
        else name = []) ∧
      Bytes.Prefixed 2 (record.keys.entries.flatMap KeyShare.wire) keys ∧
      Bytes.Prefixed 2 (record.cipherSuites.flatMap CipherSuites.wire) suites ∧
      Bytes.Prefixed 2 (record.extensions.flatMap Extension.wire) extensions
  keys : ∀ entry ∈ record.keys.entries, ∃ key, Bytes.Prefixed 2 entry.key key ∧
    entry.wire = Bytes.ofUInt16 entry.group.code ++ key

theorem laidOut_sealed
    (hlimits : record.WithinLimits (ExtensionList.reportedLength record.extensions))
    (htruthful : record.Truthful) :
    record.LaidOut (sealed record.version.code
      (record.wireBody (ExtensionList.reportedLength record.extensions))) := by
  obtain ⟨hname, hkeys, hsuites, hextensions⟩ := hlimits
  have hextensionsLength := ExtensionList.length_flatMap_wire htruthful
  refine ⟨?_, ?_, ?_⟩
  · rw [length_sealed_wireBody, writtenLength, hextensionsLength]
  · refine ⟨Checksum.of record.version.code (record.wireBody _), record.nameSection, _, _, _, rfl,
      ?_, Bytes.prefixed_framed ?_, Bytes.prefixed_framed ?_, ?_⟩
    · rw [nameSection]
      split
      · exact Bytes.prefixed_framed (hname ‹_›)
      · rfl
    · rw [record.keys.length_flatMap_wire]
      exact hkeys
    · rw [CipherSuites.length_flatMap_wire]
      omega
    · rw [← hextensionsLength]
      apply Bytes.prefixed_framed
      omega
  · intro entry hmem
    have hfits := KeyShareList.fits_of_encodedLength_le (Nat.le_of_lt_succ hkeys) entry hmem
    refine ⟨_, Bytes.prefixed_framed (KeyShare.fits_iff.1 hfits), ?_⟩
    rw [KeyShare.wire, Bytes.framed, List.append_assoc]

theorem writtenLength_le_fullLength (htruthful : record.Truthful) :
    record.writtenLength ≤ record.fullLength := by
  rw [writtenLength, fullLength, ExtensionList.length_flatMap_wire htruthful, headerLength]
  split <;> omega

section Outcome

variable [Build]

/-- What the encoder answers once it has its buffer, if the extensions are told to take `reported`
bytes: the first limit that is broken, or bytes that are as many as the record takes. Where the
extensions write as much as they report, these are the sections behind their true lengths. The
program ends if there is no room for that many bytes. -/
def Answered (record : Record) (reported : Nat) : Prop :=
  match record.encodeFault? reported with
  | some fault => record.encode = .error (.fault fault)
  | none =>
    if record.writtenLength ≤ Size.maxCapacity then
      ∃ bytes, record.encode = .ok bytes ∧ bytes.length = record.writtenLength ∧
        (record.Truthful → record.LaidOut bytes)
    else record.encode = .error (.panic .capacity)

theorem answered_of_allocation {reported : Nat} (hallocation : record.allocation = .ok ())
    (hreported : ExtensionList.encodedLength record.extensions = .ok reported) :
    record.Answered reported := by
  rw [Answered, encode_eq hallocation hreported]
  cases hfault : record.encodeFault? reported with
  | some fault => rfl
  | none =>
    dsimp only
    by_cases hroom : record.writtenLength ≤ Size.maxCapacity
    · rw [if_pos hroom, if_pos hroom]
      refine ⟨_, rfl, length_sealed_wireBody record reported, fun htruthful => ?_⟩
      -- What is written has room in a buffer, so the sum of the reports has lost nothing.
      have hwire := ExtensionList.length_flatMap_wire htruthful
      have hfits : ExtensionList.reportedLength record.extensions < Size.modulus := by
        rw [writtenLength, hwire, Size.maxCapacity] at hroom
        rw [Size.modulus]
        omega
      rw [ExtensionList.encodedLength_of_lt hfits, Except.ok.injEq] at hreported
      subst hreported
      exact laidOut_sealed (withinLimits_of_encodeFault? hfault) htruthful
    · rw [if_neg hroom, if_neg hroom]

theorem encode_ne_keyShares (record : Record) (error : KeyShareError) :
    record.encode ≠ .error (.fault (.keyShares error)) := by
  intro h
  cases hallocation : record.allocation with
  | error cause =>
    rw [encode_of_allocation hallocation] at h
    cases h
  | ok _ =>
    obtain ⟨reported, hreported⟩ := exists_reported_of_allocation hallocation
    rw [encode_eq hallocation hreported] at h
    cases hfault : record.encodeFault? reported with
    | some fault =>
      rw [hfault] at h
      cases h
      exact encodeFault?_ne_keyShares record reported error hfault
    | none =>
      rw [hfault] at h
      dsimp only at h
      split at h <;> cases h

end Outcome

/-- The sample with a version that has a public name, one that takes more bytes than characters. -/
def named : Record := { sample with version := ⟨0xff03⟩, publicName := some "bücher.example" }

/-- The encoding of the named sample behind its checksum. -/
def namedBody : Bytes :=
  [15, 98, 195, 188, 99, 104, 101, 114, 46, 101, 120, 97, 109, 112, 108, 101] ++ sampleBody

theorem encode_named : named.encode = .ok (sealed 0xff03 namedBody) := rfl

theorem truthful_named : named.Truthful := by
  unfold Truthful
  decide

/-- The named sample with one extension, which writes nothing and reports any length. -/
def boastful (reported : UInt64) : Record :=
  { named with extensions := [.boast reported] }

end Record

end Esni
