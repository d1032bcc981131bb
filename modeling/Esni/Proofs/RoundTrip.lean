import Esni.Proofs.ExtensionKinds
import Esni.Proofs.RecordWriting
import Esni.Record.Describe

/-!
# Records and their encodings

A record and its encoding determine each other up to what is not written. What was written is read
back as the normal form of the record, if the registry reads back its extensions. What was read is
written as the bytes that it was read from, if the registry is exact: no field has a second
spelling that is accepted.

## Main definitions

- `Record.look` — what equality and the encoder see of a record
- `Record.WrittenAlike` — two records that have the same encoding and checksum, or the same faults
- `Record.RoundTrips` — the record comes back from its encoding
- `Record.SpelledBy` — what a record is written as, and how it is described

## Main statements

- `Record.roundTrip_of_faithful` — encodings of records with faithful extensions
- `Record.canonical_of_exact` — the byte strings that an exact registry accepts
-/

namespace Esni

/-- The hexadecimal digits of bytes, two for each byte. -/
def Bytes.digits (data : Bytes) : String :=
  String.ofList (data.flatMap fun byte =>
    [Nat.digitChar (byte.toNat / 16), Nat.digitChar (byte.toNat % 16)])

namespace Record

variable {registry : Registry} {record : Record} {data bytes body : Bytes}

/-- What equality sees of a record. -/
def face (record : Record) : Record × List (ExtensionType × UInt64 × Bytes) :=
  ({ record with extensions := [] }, record.extensions.map Extension.face)

/-- What the encoder sees of a record. -/
def look (record : Record) : Record × List ((ExtensionType × UInt64 × Bytes) × Bool) :=
  ({ record with extensions := [] }, record.extensions.map Extension.look)

theorem beq_iff_compare {a b : Record} : (a == b) = true ↔ a.compare b = .ok true :=
  affirmed_eq_true_iff

theorem beq_iff {a b : Record} :
    (a == b) = true ↔ a.face = b.face ∧ ∀ extension ∈ a.extensions, extension.Comparable := by
  rw [beq_iff_compare, compare]
  split
  · rename_i hfields
    rw [ExtensionList.compare_eq_true_iff, ExtensionList.beq_iff]
    simp [face, hfields]
  · rename_i hfields
    refine iff_of_false (by simp) fun h => hfields ?_
    simpa [face] using congrArg Prod.fst h.1

theorem face_eq_of_look {a b : Record} (h : a.look = b.look) : a.face = b.face :=
  Prod.ext (congrArg (fun look => look.1) h)
    (ExtensionList.face_of_look (congrArg (fun look => look.2) h))

/-- Records that look the same to the encoder are written the same, faults included. -/
theorem encodeBody_congr [Build] {a b : Record} (h : a.look = b.look) :
    a.version = b.version ∧ encodeBody a = encodeBody b := by
  obtain ⟨version, publicName, keys, cipherSuites, padded, notBefore, notAfter, extensions⟩ := a
  obtain ⟨version', publicName', keys', cipherSuites', padded', notBefore', notAfter',
    extensions'⟩ := b
  simp only [look, Prod.mk.injEq, Record.mk.injEq, and_true] at h
  obtain ⟨⟨rfl, rfl, rfl, rfl, rfl, rfl, rfl⟩, hextensions⟩ := h
  have hreported := ExtensionList.encodedLength_congr (ExtensionList.face_of_look hextensions)
  refine ⟨rfl, ?_⟩
  simp only [encodeBody, allocation, lengthHint, nameLength, encodeFront, hreported,
    ExtensionList.encode_congr hextensions]

/-- What is not written makes no difference to the sections in front of the extensions. -/
theorem encodeFront_normal (record : Record) : encodeFront record.normal = encodeFront record := by
  have hname : encodeName record.version record.normal.publicName =
      encodeName record.version record.publicName := by
    unfold encodeName normal
    by_cases hversion : record.version.hasPublicName = true
    · rw [if_pos hversion, if_pos hversion]
      simp only [if_pos hversion]
    · rw [if_neg hversion, if_neg hversion]
  show encodeName record.version record.normal.publicName >>= _ = _
  rw [hname]
  rfl

/-- The name of the normal form is short if the section of the name can be written. -/
theorem nameLength_normal_le {name : Bytes}
    (h : encodeName record.version record.publicName = .ok name) :
    record.normal.nameLength ≤ 255 := by
  by_cases hversion : record.version.hasPublicName = true
  · have hname : record.normal.publicName = record.publicName := if_pos hversion
    rw [nameLength, hname]
    exact (name_le_of_encodeName h).2 hversion
  · have hname : record.normal.publicName = none := if_neg hversion
    rw [nameLength, hname]
    decide

section Writing

variable [Build]

/-- The normal form of a record that was written is written as the same bytes. It asks for no more
room than the record itself. -/
theorem encodeBody_normal (h : encodeBody record = .ok body) :
    encodeBody record.normal = .ok body := by
  obtain ⟨_, front, extensions, hfront, hextensions, rfl⟩ := encodeBody_eq_ok_iff.1 h
  obtain ⟨name, _, _, hname, _⟩ := encodeFront_eq_ok_iff.1 hfront
  obtain ⟨length, hlength, hshort, _⟩ := ExtensionList.encode_eq_ok_iff.1 hextensions
  have hnormal : encodeFront record.normal = .ok front := record.encodeFront_normal.trans hfront
  exact encodeBody_eq_ok_iff.2 ⟨allocation_of_sections (nameLength_normal_le hname) hnormal hlength
    hshort, front, extensions, hnormal, hextensions, rfl⟩

/-- Neither the encoding nor the checksum tells the records apart, and neither do their faults. -/
def WrittenAlike (a b : Record) : Prop := a.encode = b.encode ∧ a.checksum = b.checksum

/-- The version and the body are all that the encoding and the checksum are made from. -/
theorem writtenAlike_of_encodeBody {a b : Record} (hversion : a.version = b.version)
    (hbody : encodeBody a = encodeBody b) : WrittenAlike a b := by
  constructor
  · rw [encode, encode, hversion, hbody]
  · rw [checksum, checksum, hversion, hbody]

theorem writtenAlike_of_look {a b : Record} (h : a.look = b.look) : WrittenAlike a b := by
  obtain ⟨hversion, hbody⟩ := encodeBody_congr h
  exact writtenAlike_of_encodeBody hversion hbody

theorem writtenAlike_normal (h : encodeBody record = .ok body) :
    WrittenAlike record.normal record :=
  writtenAlike_of_encodeBody rfl ((encodeBody_normal h).trans h.symm)

theorem encodeBody_unique {a b : Record} {body' : Bytes} (h : (a == b) = true)
    (ha : encodeBody a = .ok body) (hb : encodeBody b = .ok body') :
    a.version = b.version ∧ body = body' := by
  obtain ⟨_, front, extensions, hfront, hextensions, rfl⟩ := encodeBody_eq_ok_iff.1 ha
  obtain ⟨_, front', extensions', hfront', hextensions', rfl⟩ := encodeBody_eq_ok_iff.1 hb
  have hface := (beq_iff.1 h).1
  simp only [face, Prod.mk.injEq, Record.mk.injEq, and_true] at hface
  obtain ⟨⟨hversion, hpublic, hshares, hlist, hpadded, hbefore, hafter⟩, hfaces⟩ := hface
  have hfronts : encodeFront a = encodeFront b := by
    simp only [encodeFront, hversion, hpublic, hshares, hlist, hpadded, hbefore, hafter]
  rw [hfronts, hfront', Except.ok.injEq] at hfront
  rw [hfront, ExtensionList.encode_unique hfaces hextensions hextensions']
  exact ⟨hversion, rfl⟩

end Writing

/-- Sections that were written are read back, so only what follows them decides the outcome. -/
theorem decode_sealed_front {front : Bytes} (h : encodeFront record = .ok front)
    (registry : Registry) (wire : Bytes) :
    decode registry (sealed record.version.code (front ++ wire)) = (do
      let (extensions, rest) ← (ExtensionList.decode registry wire).mapError .extensions
      if rest = [] then return { record.normal with extensions }
      else .error (.trailingData rest.length)) := by
  obtain ⟨name, keys, suites, hname, hkeys, hsuites, rfl⟩ := encodeFront_eq_ok_iff.1 h
  rw [decode, decodeSections_sealed, decodeBody_append hname hkeys hsuites, ok_bind]

/-- Data that is accepted is sealed, and its sections are those that the record is written with, but
for the extensions, of which is known only that they are read from all that is left. The name is
short whether the record has one or not. -/
theorem exists_sections_of_decode (h : decode registry data = .ok record) :
    ∃ front wire, encodeFront record = .ok front ∧ record.nameLength ≤ 255 ∧
      ExtensionList.decode registry wire = .ok (record.extensions, []) ∧
      data = sealed record.version.code (front ++ wire) := by
  rw [decode, bind_eq_ok_iff] at h
  obtain ⟨⟨front, wire⟩, hsections, h⟩ := h
  rw [bind_eq_ok_iff] at h
  obtain ⟨⟨extensions, left⟩, hextensions, h⟩ := h
  dsimp only at h
  split at h
  · rename_i hleft
    cases h
    obtain ⟨version, body, rfl, hbody⟩ := exists_of_decodeSections hsections
    obtain ⟨hversion, hnormal, name, keys, suites, hname, hkeys, hsuites, rfl⟩ :=
      exists_of_decodeBody hbody
    rw [hleft, mapError_eq_ok_iff] at hextensions
    refine ⟨front.bodyFront name keys suites, wire,
      encodeFront_eq_ok_iff.2 ⟨name, keys, suites, hname, hkeys, hsuites, rfl⟩, ?_, hextensions, ?_⟩
    · have hshort := nameLength_normal_le hname
      rwa [hnormal] at hshort
    · rw [hversion]
  · cases h

section RoundTrips

variable [Build]

/-- An encoding is read back as a record that looks like the normal form of the one written. -/
theorem exists_decode_of_encode
    (hfaithful : ∀ extension ∈ record.extensions, extension.Faithful registry)
    (h : record.encode = .ok bytes) :
    ∃ decoded, decode registry bytes = .ok decoded ∧ decoded.look = record.normal.look ∧
      ∀ extension ∈ decoded.extensions, extension.Comparable := by
  obtain ⟨body, hbody, rfl⟩ := encode_eq_ok_iff.1 h
  obtain ⟨_, front, extensions, hfront, hextensions, rfl⟩ := encodeBody_eq_ok_iff.1 hbody
  obtain ⟨decoded, hdecoded, hlooks⟩ :=
    ExtensionList.decode_encode_append hfaithful hextensions []
  rw [List.append_nil] at hdecoded
  refine ⟨{ record.normal with extensions := decoded }, ?_, Prod.ext rfl hlooks,
    ExtensionList.comparable_of_decode hdecoded⟩
  rw [decode_sealed_front hfront, hdecoded, mapError_ok, ok_bind]
  exact if_pos rfl

/-- Data that an exact registry accepts is the sealed body of the record. -/
theorem exists_sealed_of_decode (hexact : registry.Exact) (h : decode registry data = .ok record) :
    ∃ body, encodeBody record = .ok body ∧ data = sealed record.version.code body := by
  obtain ⟨front, wire, hfront, hname, hlist, rfl⟩ := exists_sections_of_decode h
  obtain ⟨extensions, hextensions, rfl⟩ :=
    ExtensionList.encode_of_decode hexact hlist (room_of_encodeFront hfront)
  obtain ⟨length, hlength, hshort, _⟩ := ExtensionList.encode_eq_ok_iff.1 hextensions
  rw [List.append_nil]
  exact ⟨_, encodeBody_eq_ok_iff.2 ⟨allocation_of_sections hname hfront hlength hshort, front,
    extensions, hfront, hextensions, rfl⟩, rfl⟩

/-- The payloads of a record that was written have room in a buffer. -/
theorem length_payload_le_of_encode (h : record.encode = .ok bytes) :
    ∀ extension ∈ record.extensions, extension.payload.length ≤ Size.maxCapacity := by
  obtain ⟨body, hbody, rfl⟩ := encode_eq_ok_iff.1 h
  obtain ⟨_, _, _, _, hextensions, rfl⟩ := encodeBody_eq_ok_iff.1 hbody
  exact ExtensionList.length_payload_le_of_encode hextensions

/-- The record comes back from its encoding: the bytes are read as a record that equals its normal
form, is written as the same bytes again and has the same checksum. It equals the record itself
exactly if the record is in normal form. -/
def RoundTrips (registry : Registry) (record : Record) (bytes : Bytes) : Prop :=
  ∃ decoded, decode registry bytes = .ok decoded ∧ (decoded == record.normal) = true ∧
    decoded.encode = .ok bytes ∧ decoded.checksum = record.checksum ∧
    ((decoded == record) = true ↔ (record == record.normal) = true)

theorem roundTrips_of_encode
    (hfaithful : ∀ extension ∈ record.extensions, extension.Faithful registry)
    (h : record.encode = .ok bytes) : RoundTrips registry record bytes := by
  obtain ⟨decoded, hdecode, hlook, hcomparable⟩ := exists_decode_of_encode hfaithful h
  have hface := face_eq_of_look hlook
  obtain ⟨body, hbody, _⟩ := encode_eq_ok_iff.1 h
  obtain ⟨hencode, hchecksum⟩ := writtenAlike_of_look hlook
  obtain ⟨hencode', hchecksum'⟩ := writtenAlike_normal hbody
  have hcomparable' : ∀ extension ∈ record.extensions, extension.Comparable := by
    intro extension hmem
    have hpayload := length_payload_le_of_encode h extension hmem
    rwa [(hfaithful extension hmem).length_payload] at hpayload
  refine ⟨decoded, hdecode, beq_iff.2 ⟨hface, hcomparable⟩, ?_, ?_, ?_⟩
  · rw [hencode, hencode', h]
  · rw [hchecksum, hchecksum']
  · rw [beq_iff, beq_iff, hface, and_iff_left hcomparable, and_iff_left hcomparable']
    exact eq_comm

/-- What was written is read back, as long as the registry reads back the extensions. The standard
registry does so for address sets, and the extended one for all plain extensions. -/
theorem roundTrip_of_faithful (h : record.encode = .ok bytes) :
    (∀ registry : Registry, (∀ extension ∈ record.extensions, extension.Faithful registry) →
      RoundTrips registry record bytes) ∧
    ((∀ extension ∈ record.extensions, ∃ set : AddressSet, extension = .of set) →
      RoundTrips .standard record bytes) ∧
    ((∀ extension ∈ record.extensions, extension.Plain) →
      RoundTrips .extendedExact record bytes) := by
  have hroom := length_payload_le_of_encode h
  refine ⟨fun registry hfaithful => roundTrips_of_encode hfaithful h, ?_, ?_⟩
  · intro hsets
    apply roundTrips_of_encode _ h
    intro extension hmem
    obtain ⟨set, rfl⟩ := hsets extension hmem
    exact AddressSet.faithful rfl (hroom _ hmem)
  · intro hplain
    exact roundTrips_of_encode
      (fun extension hmem => (hplain extension hmem).faithful (hroom extension hmem)) h

end RoundTrips

/-- A record that is not in normal form: its version has no public name, and it ends in a leap
second. The raw data at its end takes the rest. -/
def sample : Record where
  version := ⟨0xff01⟩
  publicName := some "example"
  keys := ⟨[⟨⟨0x001d⟩, [1, 2, 3]⟩], by simp⟩
  cipherSuites := [⟨0x1301⟩]
  paddedLength := 260
  notBefore := .startOf (-1) (by decide)
  notAfter := ⟨59, 1500000000, by decide, by decide⟩
  extensions := [.of (Marker.mk 7), .of { Raw.fresh with bytes := [8, 9] }]

/-- The encoding of the sample behind its checksum. -/
def sampleBody : Bytes :=
  [0, 7, 0, 0x1d, 0, 3, 1, 2, 3, 0, 2, 0x13, 1, 1, 4, 255, 255, 255, 255, 255, 255, 255, 255,
    0, 0, 0, 0, 0, 0, 0, 59, 0, 8, 0, 0x42, 0, 7, 9, 0x99, 8, 9]

/-- Behind the other sections of the sample may stand any extensions. -/
theorem decode_sampleFront (registry : Registry) (wire : Bytes) :
    decode registry (sealed 0xff01 (sampleBody.take 31 ++ wire)) = (do
      let (extensions, rest) ← (ExtensionList.decode registry wire).mapError .extensions
      if rest = [] then return { sample.normal with extensions }
      else .error (.trailingData rest.length)) := by
  have hfront : encodeFront sample = .ok (sampleBody.take 31) := rfl
  exact decode_sealed_front hfront registry wire

theorem encode_sample : sample.encode = .ok (sealed 0xff01 sampleBody) := rfl

theorem plain_sample : ∀ extension ∈ sample.extensions, extension.Plain := by
  intro extension hmem
  simp only [sample, List.mem_cons, List.not_mem_nil, or_false] at hmem
  rcases hmem with rfl | rfl
  · exact .marker _
  · exact .raw _

theorem faithful_sample :
    ∀ extension ∈ sample.extensions, extension.Faithful .extendedExact := fun extension hmem =>
  (plain_sample extension hmem).faithful (length_payload_le_of_encode encode_sample extension hmem)

theorem roundTrip_of_faithful_sample :
    sample.encode = .ok (sealed 0xff01 sampleBody) ∧
      RoundTrips .extendedExact sample (sealed 0xff01 sampleBody) :=
  ⟨encode_sample, (roundTrip_of_faithful encode_sample).2.2 plain_sample⟩

/-- The fields behind the checksum as a description shows them, each behind its name. The public
name is one of them where the version has one. -/
def shownFields (names : Registry) (record : Record) : List String :=
  (if record.version.hasPublicName then ["PublicName:" ++ record.publicName.getD ""] else []) ++
    ["Keys:" ++ record.keys.text,
      "CipherSuites:" ++ CipherSuites.text record.cipherSuites,
      "PaddedLength:" ++ toString record.paddedLength.toNat,
      "NotBefore:" ++ record.notBefore.text,
      "NotAfter:" ++ record.notAfter.text,
      "Extensions:" ++ ExtensionList.textWith names record.extensions]

section Spelling

variable [Build]

/-- A description shows every field. -/
theorem describeWith_eq (names : Registry) {checksum : String}
    (h : record.checksumText = .ok checksum) :
    record.describeWith names = .ok ("\x7b" ++ ", ".intercalate
      (["Version:" ++ record.version.text, "Checksum:" ++ checksum] ++ record.shownFields names) ++
        "\x7d") := by
  rw [describeWith, h, ok_bind]
  refine congrArg Except.ok (String.toList_inj.1 ?_)
  unfold shownFields nameText
  split <;> simp

/-- The data is what the record is written as, and the four bytes behind the version are its
checksum, also where the record is described, with two digits for each byte. -/
structure SpelledBy (record : Record) (data : Bytes) : Prop where
  encode_eq : record.encode = .ok data
  checksum_eq : ∃ checksum, record.checksum = .ok checksum ∧ checksum.val = (data.drop 2).take 4
  describeWith_eq : ∀ names : Registry, record.describeWith names =
    .ok ("\x7b" ++ ", ".intercalate
      (["Version:" ++ record.version.text,
        "Checksum:" ++ Bytes.digits ((data.drop 2).take 4)] ++ record.shownFields names) ++ "\x7d")

theorem spelledBy_sealed (h : encodeBody record = .ok body) :
    record.SpelledBy (sealed record.version.code body) := by
  have hencode : record.encode = .ok (sealed record.version.code body) :=
    encode_eq_ok_iff.2 ⟨body, h, rfl⟩
  have hchecksum := checksum_of_encodeBody h
  unfold sealed at *
  -- Nothing depends on how the checksum is computed.
  generalize Checksum.of record.version.code body = sum at *
  have htaken : ((Bytes.ofUInt16 record.version.code ++ sum.val ++ body).drop 2).take 4 =
      sum.val := by
    rw [List.append_assoc, List.drop_left' (Bytes.length_ofUInt16 _), List.take_left' sum.property]
  have htext : record.checksumText = .ok (Hex.text sum.val) := by
    rw [checksumText, hchecksum]
  refine ⟨hencode, ⟨sum, hchecksum, htaken.symm⟩, fun names => ?_⟩
  rw [htaken]
  exact describeWith_eq names htext

/-- An exact registry accepts no second spelling of a record: what it reads is written as the data
that it was read from, so equal records come from the same data. The standard registry is exact,
and so is the extended one. -/
theorem canonical_of_exact :
    (∀ registry : Registry, registry.Exact → ∀ data record, decode registry data = .ok record →
      record.SpelledBy data) ∧
    (∀ registry : Registry, registry.Exact → ∀ data data' record record',
      decode registry data = .ok record → decode registry data' = .ok record' →
        (record == record') = true → data = data') ∧
    Registry.standard.Exact ∧ Registry.extendedExact.Exact := by
  refine ⟨?_, ?_, Registry.exact_standard, Registry.exact_extendedExact⟩
  · intro registry hexact data record hdecode
    obtain ⟨body, hbody, rfl⟩ := exists_sealed_of_decode hexact hdecode
    exact spelledBy_sealed hbody
  · intro registry hexact data data' record record' hdecode hdecode' hequal
    obtain ⟨body, hbody, rfl⟩ := exists_sealed_of_decode hexact hdecode
    obtain ⟨body', hbody', rfl⟩ := exists_sealed_of_decode hexact hdecode'
    obtain ⟨hversion, hbodies⟩ := encodeBody_unique hequal hbody hbody'
    rw [hversion, hbodies]

end Spelling

theorem canonical_of_exact_sample :
    ∃ record, decode .extendedExact (sealed 0xff01 sampleBody) = .ok record ∧
      record.SpelledBy (sealed 0xff01 sampleBody) := by
  obtain ⟨record, hdecode, _⟩ := exists_decode_of_encode faithful_sample encode_sample
  exact ⟨record, hdecode,
    canonical_of_exact.1 .extendedExact Registry.exact_extendedExact _ record hdecode⟩

end Record

end Esni
