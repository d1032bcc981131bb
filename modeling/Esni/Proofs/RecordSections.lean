import Esni.Record.Decode
import Esni.Proofs.CipherSuiteCodec
import Esni.Proofs.KeyShareCodec
import Esni.Proofs.TimestampCodec

/-!
# The sections of a record

Each section before the extensions is written and read by itself. For each of them three things
are stated: what a frame with arbitrary contents is read as, that a section that was written is
read back whatever follows it, and that a section that was read is written as the bytes that it
was read from. The last two are then put together for the whole body of a record.

## Main statements

- `Record.decodeName_framed`, `Record.decodeKeys_framed` and `Record.decodeTime_numeral` — the
  outcome of reading a frame
- `Record.decodeBody_append` and `Record.exists_of_decodeBody` — the body up to the extensions
- `Record.decodeSections_sealed` — the checksum of a sealed body is the one that is checked
-/

namespace Esni

theorem fromUTF8?_eq_some_iff {data : Bytes} {text : String} :
    String.fromUTF8? data.toByteArray = some text ↔ text.toUTF8.data.toList = data := by
  unfold String.fromUTF8?
  constructor
  · intro h
    split at h
    · cases h
      exact List.toList_data_toByteArray
    · cases h
  · rintro rfl
    have hbytes : text.toUTF8.data.toList.toByteArray = text.toUTF8 := by
      apply ByteArray.ext
      apply Array.toList_inj.1
      exact List.toList_data_toByteArray
    rw [hbytes]
    exact dif_pos text.isValidUTF8

theorem length_header (version : UInt16) {field : Bytes} (hfield : field.length = 4) :
    (Bytes.ofUInt16 version ++ field).length = 6 := by
  rw [List.length_append, Bytes.length_ofUInt16, hfield]

/-- Data that is long enough for the version and the checksum has both. -/
theorem exists_header {data : Bytes} (h : ¬data.length < 6) :
    ∃ (version : UInt16) (field : Octets 4) (body : Bytes),
      data = Bytes.ofUInt16 version ++ field.val ++ body ∧ data.drop 6 = body := by
  cases hversion : Bytes.cutUInt16? data with
  | none =>
    have hlength := Bytes.cutUInt16?_eq_none_iff.1 hversion
    omega
  | some found =>
    obtain ⟨version, rest⟩ := found
    obtain rfl := Bytes.cutUInt16?_eq_some_iff.1 hversion
    rw [List.length_append, Bytes.length_ofUInt16] at h
    cases hfield : Bytes.cut? 4 rest with
    | none =>
      have hlength := Bytes.cut?_eq_none_iff.1 hfield
      omega
    | some found =>
      obtain ⟨field, body⟩ := found
      obtain rfl := Bytes.cut?_eq_some_iff.1 hfield
      refine ⟨version, field, body, (List.append_assoc ..).symm, ?_⟩
      rw [← List.append_assoc, List.drop_left' (length_header version field.property)]

namespace Record

/-- Everything between the checksum and the extensions, given the three sections that can fail to
be written. -/
def bodyFront (record : Record) (name keys suites : Bytes) : Bytes :=
  name ++ keys ++ suites ++ Bytes.ofUInt16 record.paddedLength ++ record.notBefore.wire ++
    record.notAfter.wire

@[simp] theorem length_bodyFront (record : Record) (name keys suites : Bytes) :
    (record.bodyFront name keys suites).length =
      name.length + keys.length + suites.length + 18 := by
  simp only [bodyFront, List.length_append, Bytes.length_ofUInt16, Timestamp.length_wire]

@[simp] theorem length_sealed (version : UInt16) (body : Bytes) :
    (sealed version body).length = 6 + body.length := by
  rw [sealed, List.length_append, length_header version (Checksum.of version body).property]

@[simp] theorem drop_sealed (version : UInt16) (body : Bytes) :
    (sealed version body).drop 6 = body :=
  List.drop_left' (length_header version (Checksum.of version body).property)

section Name

variable {version : Version} {publicName : Option String} {data rest bytes : Bytes}

theorem decodeName_of_no_name (h : version.hasPublicName = false) (data : Bytes) :
    decodeName version data = .ok (none, data) := by
  unfold decodeName
  rw [if_neg (by simp [h])]
  rfl

/-- A name in a frame is read exactly if it is not empty and is well-formed UTF-8. -/
theorem decodeName_framed (h : version.hasPublicName = true) {name : Bytes}
    (hname : name.length < 256) (rest : Bytes) :
    decodeName version (Bytes.framed 1 name ++ rest) =
      if name = [] then .error .emptyPublicName
      else do
        let text ← orFault .invalidPublicName (String.fromUTF8? name.toByteArray)
        return (some text, rest) := by
  unfold decodeName
  rw [if_pos h, Bytes.cutNat?_framed hname]
  simp only [orFault_some, ok_bind]
  by_cases hempty : name = []
  · rw [if_pos hempty, if_pos (by rw [hempty]; rfl)]
  · rw [if_neg hempty, if_neg (by simpa using hempty), Bytes.cut?_append rfl]
    rfl

theorem encodeName_eq_ok_iff (h : version.hasPublicName = true) :
    encodeName version publicName = .ok bytes ↔
      ∃ text, publicName = some text ∧ text.toUTF8.data.toList ≠ [] ∧
        text.toUTF8.data.toList.length < 256 ∧
        bytes = Bytes.framed 1 text.toUTF8.data.toList := by
  unfold encodeName
  rw [if_pos h]
  cases publicName with
  | none => simp
  | some text =>
    simp only [Option.getD_some, Option.some.injEq, exists_eq_left']
    generalize text.toUTF8.data.toList = name
    by_cases hempty : name = []
    · simp [hempty]
    · by_cases hlong : maxNameLength < name.length
      · rw [if_neg hempty, if_pos hlong]
        unfold maxNameLength at hlong
        constructor
        · intro hfault
          cases hfault
        · rintro ⟨_, hshort, _⟩
          omega
      · rw [if_neg hempty, if_neg hlong, Except.ok.injEq, eq_comm]
        unfold maxNameLength at hlong
        exact ⟨fun hbytes => ⟨hempty, by omega, hbytes⟩, fun hbytes => hbytes.2.2⟩

/-- A name that was written is read back; where the version has no name there is none. -/
theorem decodeName_append (h : encodeName version publicName = .ok bytes) (rest : Bytes) :
    decodeName version (bytes ++ rest) =
      .ok (if version.hasPublicName then publicName else none, rest) := by
  by_cases hversion : version.hasPublicName = true
  · obtain ⟨text, rfl, hempty, hlength, rfl⟩ := (encodeName_eq_ok_iff hversion).1 h
    rw [decodeName_framed hversion hlength, if_neg hempty, fromUTF8?_eq_some_iff.2 rfl,
      if_pos hversion]
    rfl
  · unfold encodeName at h
    rw [if_neg hversion] at h
    cases h
    rw [decodeName_of_no_name (by simpa using hversion), if_neg hversion]
    rfl

theorem exists_of_decodeName (h : decodeName version data = .ok (publicName, rest)) :
    (if version.hasPublicName then publicName else none) = publicName ∧
      ∃ bytes, encodeName version publicName = .ok bytes ∧ data = bytes ++ rest := by
  by_cases hversion : version.hasPublicName = true
  · refine ⟨if_pos hversion, ?_⟩
    rw [decodeName, if_pos hversion, bind_eq_ok_iff] at h
    obtain ⟨⟨length, mid⟩, hlength, h⟩ := h
    simp only at h
    split at h
    · cases h
    · rename_i hpositive
      rw [bind_eq_ok_iff] at h
      obtain ⟨⟨name, left⟩, hname, h⟩ := h
      obtain ⟨hsmall, rfl⟩ :=
        Bytes.eq_framed_of_cuts (orFault_eq_ok_iff.1 hlength) (orFault_eq_ok_iff.1 hname)
      rw [bind_eq_ok_iff] at h
      obtain ⟨text, htext, h⟩ := h
      cases h
      have hbytes := fromUTF8?_eq_some_iff.1 (orFault_eq_ok_iff.1 htext)
      refine ⟨_, (encodeName_eq_ok_iff hversion).2 ⟨text, rfl, ?_, ?_, rfl⟩, by rw [hbytes]⟩
      · intro hempty
        rw [hbytes] at hempty
        exact hpositive (by rw [← name.property, hempty]; rfl)
      · rw [hbytes]
        exact hsmall
  · have hfalse : version.hasPublicName = false := by simpa using hversion
    rw [decodeName_of_no_name hfalse] at h
    cases h
    refine ⟨if_neg hversion, [], ?_, rfl⟩
    unfold encodeName
    rw [if_neg hversion]

end Name

section Keys

variable {keys : KeyShareList} {data rest bytes : Bytes}

/-- Key shares in a frame are read exactly if there are any and they are sound. -/
theorem decodeKeys_framed {entries : Bytes} (h : entries.length < 256 ^ 2) (rest : Bytes) :
    decodeKeys (Bytes.framed 2 entries ++ rest) =
      if entries = [] then .error .emptyKeyShareList
      else do
        let keys ← (KeyShareList.decode entries).mapError .keyShares
        return (keys, rest) := by
  unfold decodeKeys
  rw [Bytes.cutNat?_framed h]
  simp only [orFault_some, ok_bind]
  by_cases hempty : entries = []
  · rw [if_pos hempty, if_pos (by rw [hempty]; rfl)]
  · rw [if_neg hempty, if_neg (by simpa using hempty), Bytes.cut?_append rfl]
    rfl

theorem encodeKeys_eq_ok_iff :
    encodeKeys keys = .ok bytes ↔
      ∃ entries, keys.encode = .ok entries ∧ entries ≠ [] ∧ entries.length < 256 ^ 2 ∧
        bytes = Bytes.framed 2 entries := by
  unfold encodeKeys
  by_cases hempty : keys.isEmpty = true
  · rw [if_pos hempty]
    constructor
    · intro hfault
      cases hfault
    · rintro ⟨entries, hencode, hnonempty, _, _⟩
      have hzero := KeyShareList.length_of_encode hencode
      rw [KeyShareList.encodedLength_eq_zero_iff.2 hempty] at hzero
      exact absurd (List.length_eq_zero_iff.1 hzero) hnonempty
  · rw [if_neg hempty]
    by_cases hlong : maxKeysLength < keys.encodedLength
    · rw [if_pos hlong]
      unfold maxKeysLength at hlong
      constructor
      · intro hfault
        cases hfault
      · rintro ⟨entries, hencode, _, hshort, _⟩
        rw [KeyShareList.length_of_encode hencode] at hshort
        omega
    · rw [if_neg hlong, bind_eq_ok_iff]
      unfold maxKeysLength at hlong
      constructor
      · rintro ⟨entries, hencode, hbytes⟩
        rw [mapError_eq_ok_iff] at hencode
        have hlength := KeyShareList.length_of_encode hencode
        cases hbytes
        refine ⟨entries, hencode, ?_, by omega, by rw [Bytes.framed, hlength]⟩
        rintro rfl
        exact hempty (KeyShareList.encodedLength_eq_zero_iff.1 hlength.symm)
      · rintro ⟨entries, hencode, _, _, rfl⟩
        refine ⟨entries, mapError_eq_ok_iff.2 hencode, ?_⟩
        rw [Bytes.framed, KeyShareList.length_of_encode hencode]
        rfl

theorem decodeKeys_append (h : encodeKeys keys = .ok bytes) (rest : Bytes) :
    decodeKeys (bytes ++ rest) = .ok (keys, rest) := by
  obtain ⟨entries, hencode, hempty, hlength, rfl⟩ := encodeKeys_eq_ok_iff.1 h
  have hdecode := KeyShareList.decode_eq_ok_iff.2 (KeyShareList.encode_eq_ok_iff.1 hencode)
  rw [decodeKeys_framed hlength, if_neg hempty, hdecode]
  rfl

theorem exists_of_decodeKeys (h : decodeKeys data = .ok (keys, rest)) :
    ∃ bytes, encodeKeys keys = .ok bytes ∧ data = bytes ++ rest := by
  rw [decodeKeys, bind_eq_ok_iff] at h
  obtain ⟨⟨length, mid⟩, hlength, h⟩ := h
  simp only at h
  split at h
  · cases h
  · rename_i hpositive
    rw [bind_eq_ok_iff] at h
    obtain ⟨⟨entries, left⟩, hentries, h⟩ := h
    obtain ⟨hsmall, rfl⟩ :=
      Bytes.eq_framed_of_cuts (orFault_eq_ok_iff.1 hlength) (orFault_eq_ok_iff.1 hentries)
    rw [bind_eq_ok_iff] at h
    obtain ⟨found, hfound, h⟩ := h
    cases h
    have hencode := KeyShareList.encode_eq_ok_iff.2
      (KeyShareList.decode_eq_ok_iff.1 (mapError_eq_ok_iff.1 hfound))
    refine ⟨_, encodeKeys_eq_ok_iff.2 ⟨entries.val, hencode, ?_, hsmall, rfl⟩, rfl⟩
    intro hempty
    exact hpositive (by rw [← entries.property, hempty]; rfl)

end Keys

section Time

variable {part : RecordSection} {moment : Timestamp} {data rest : Bytes}

/-- Eight bytes are read as the time whose seconds they tell, if there is one. -/
theorem decodeTime_numeral {value : Nat} (h : value < 256 ^ 8) (part : RecordSection)
    (rest : Bytes) :
    decodeTime part (Bytes.ofNat 8 value ++ rest) = do
      let moment ← orFault (.invalidTimestamp part value) (Timestamp.ofWire? value)
      return (moment, rest) := by
  rw [decodeTime, Bytes.cutNat?_append h, orFault_some, ok_bind]

theorem decodeTime_append (part : RecordSection) (moment : Timestamp) (rest : Bytes) :
    decodeTime part (moment.wire ++ rest) = .ok (moment.wholeSecond, rest) := by
  rw [Timestamp.wire_eq, decodeTime_numeral moment.toWire_lt, Timestamp.ofWire?_toWire]
  rfl

theorem exists_of_decodeTime (h : decodeTime part data = .ok (moment, rest)) :
    moment.wholeSecond = moment ∧ data = moment.wire ++ rest := by
  rw [decodeTime, bind_eq_ok_iff] at h
  obtain ⟨⟨value, mid⟩, hvalue, h⟩ := h
  obtain ⟨hsmall, rfl⟩ := Bytes.cutNat?_eq_some_iff.1 (orFault_eq_ok_iff.1 hvalue)
  rw [bind_eq_ok_iff] at h
  obtain ⟨found, hfound, h⟩ := h
  obtain ⟨rfl, rfl⟩ := Prod.mk.inj (Except.ok.inj h)
  have hfound := orFault_eq_ok_iff.1 hfound
  refine ⟨Timestamp.wholeSecond_of_ofWire? hfound, ?_⟩
  rw [Timestamp.wire_eq, Timestamp.toWire_of_ofWire? hsmall hfound]

end Time

section Body

variable {record : Record} {data rest name keys suites : Bytes}

/-- A body that was written is read back up to the extensions, but for what is not written. -/
theorem decodeBody_append (hname : encodeName record.version record.publicName = .ok name)
    (hkeys : encodeKeys record.keys = .ok keys)
    (hsuites : CipherSuites.encode record.cipherSuites = .ok suites) (rest : Bytes) :
    decodeBody record.version (record.bodyFront name keys suites ++ rest) =
      .ok ({ record.normal with extensions := [] }, rest) := by
  rw [decodeBody, bodyFront]
  simp only [List.append_assoc]
  rw [decodeName_append hname, ok_bind]
  dsimp only
  rw [decodeKeys_append hkeys, ok_bind]
  dsimp only
  rw [CipherSuites.decode_encode_append hsuites, mapError_ok, ok_bind]
  dsimp only
  rw [Bytes.cutUInt16?_append, orFault_some, ok_bind]
  dsimp only
  rw [decodeTime_append, ok_bind]
  dsimp only
  rw [decodeTime_append, ok_bind]
  rfl

/-- A body that was read is written as the bytes that it was read from, and it has nothing that is
not written. -/
theorem exists_of_decodeBody {version : Version}
    (h : decodeBody version data = .ok (record, rest)) :
    record.version = version ∧ record.normal = record ∧
      ∃ name keys suites, encodeName record.version record.publicName = .ok name ∧
        encodeKeys record.keys = .ok keys ∧
        CipherSuites.encode record.cipherSuites = .ok suites ∧
        data = record.bodyFront name keys suites ++ rest := by
  rw [decodeBody, bind_eq_ok_iff] at h
  obtain ⟨⟨publicName, _⟩, hreadName, h⟩ := h
  rw [bind_eq_ok_iff] at h
  obtain ⟨⟨shares, _⟩, hreadKeys, h⟩ := h
  rw [bind_eq_ok_iff] at h
  obtain ⟨⟨cipherSuites, _⟩, hreadSuites, h⟩ := h
  rw [bind_eq_ok_iff] at h
  obtain ⟨⟨padded, _⟩, hpadded, h⟩ := h
  rw [bind_eq_ok_iff] at h
  obtain ⟨⟨notBefore, _⟩, hbefore, h⟩ := h
  rw [bind_eq_ok_iff] at h
  obtain ⟨⟨notAfter, _⟩, hafter, h⟩ := h
  obtain ⟨hnormal, name, hname, rfl⟩ := exists_of_decodeName hreadName
  obtain ⟨keys, hkeys, rfl⟩ := exists_of_decodeKeys hreadKeys
  obtain ⟨suites, hsuites, rfl⟩ :=
    CipherSuites.encode_of_decode (mapError_eq_ok_iff.1 hreadSuites)
  obtain rfl := Bytes.cutUInt16?_eq_some_iff.1 (orFault_eq_ok_iff.1 hpadded)
  obtain ⟨hwhole, rfl⟩ := exists_of_decodeTime hbefore
  obtain ⟨hwhole', rfl⟩ := exists_of_decodeTime hafter
  cases h
  refine ⟨rfl, ?_, name, keys, suites, hname, hkeys, hsuites, ?_⟩
  · simp only [normal, wholeSeconds, hwhole, hwhole', hnormal]
  · simp only [bodyFront, List.append_assoc]

end Body

theorem decodeSections_of_short {data : Bytes} (h : data.length < 6) :
    decodeSections data = .error (.unexpectedEnd .header) := by
  rw [decodeSections]
  cases hversion : Bytes.cutUInt16? data with
  | none => rfl
  | some found =>
    obtain ⟨version, rest⟩ := found
    have hlength := Bytes.length_of_cutUInt16? hversion
    have hfield : Bytes.cut? 4 rest = none := Bytes.cut?_eq_none_iff.2 (by omega)
    rw [orFault_some, ok_bind]
    dsimp only
    rw [hfield]
    rfl

theorem decodeSections_header (version : UInt16) (field : Octets 4) (body : Bytes) :
    decodeSections (Bytes.ofUInt16 version ++ field.val ++ body) =
      if field = Checksum.of version body then decodeBody ⟨version⟩ body
      else .error (.checksumMismatch field (Checksum.of version body)) := by
  rw [decodeSections, List.append_assoc, Bytes.cutUInt16?_append, orFault_some, ok_bind]
  dsimp only
  rw [Bytes.cut?_append field.property, orFault_some, ok_bind]

/-- The checksum that is written is the one that is expected. -/
theorem decodeSections_sealed (version : UInt16) (body : Bytes) :
    decodeSections (sealed version body) = decodeBody ⟨version⟩ body := by
  rw [sealed, decodeSections_header, if_pos rfl]

/-- Only a body behind its own checksum is looked into. -/
theorem exists_of_decodeSections {data rest : Bytes} {record : Record}
    (h : decodeSections data = .ok (record, rest)) :
    ∃ version body, data = sealed version body ∧
      decodeBody ⟨version⟩ body = .ok (record, rest) := by
  rw [decodeSections, bind_eq_ok_iff] at h
  obtain ⟨⟨version, _⟩, hversion, h⟩ := h
  obtain rfl := Bytes.cutUInt16?_eq_some_iff.1 (orFault_eq_ok_iff.1 hversion)
  rw [bind_eq_ok_iff] at h
  obtain ⟨⟨received, body⟩, hreceived, h⟩ := h
  obtain rfl := Bytes.cut?_eq_some_iff.1 (orFault_eq_ok_iff.1 hreceived)
  simp only at h
  split at h
  · rename_i hsum
    refine ⟨version, body, ?_, h⟩
    rw [sealed, hsum, List.append_assoc]
  · cases h

end Record

end Esni
