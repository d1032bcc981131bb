import Esni.Proofs.RecordSections

/-!
# Writing a record

The encoder asks for a buffer, writes the sections in front of the extensions, and then the
extensions behind them. The buffer is no hindrance to a record whose fields keep their limits: it is
asked for by what the fields say about their lengths, and these are short then.

## Main statements

- `Record.allocation_of_limits` — short fields get their buffer
- `Record.room_of_encodeFront` — behind the sections there is room for any list of extensions
- `Record.encodeBody_eq_ok_iff` and `Record.encode_eq_ok_iff` — what it takes to write a record
-/

namespace Esni.Record

variable {record : Record} {front name keys suites bytes body : Bytes}

/-- The exact number of bytes that the fields and the extensions account for, the public name
included whether the version has one or not. -/
def fullLength (record : Record) : Nat :=
  headerLength + 1 + record.nameLength + 2 + record.keys.encodedLength + 2 +
    2 * record.cipherSuites.length + 2 + 16 + 2 + ExtensionList.reportedLength record.extensions

/-! ### The sections in front of the extensions -/

theorem encodeFront_eq_ok_iff :
    encodeFront record = .ok front ↔
      ∃ name keys suites, encodeName record.version record.publicName = .ok name ∧
        encodeKeys record.keys = .ok keys ∧ CipherSuites.encode record.cipherSuites = .ok suites ∧
        front = record.bodyFront name keys suites := by
  constructor
  · intro h
    rw [encodeFront, bind_eq_ok_iff] at h
    obtain ⟨name, hname, h⟩ := h
    rw [bind_eq_ok_iff] at h
    obtain ⟨keys, hkeys, h⟩ := h
    rw [bind_eq_ok_iff] at h
    obtain ⟨suites, hsuites, h⟩ := h
    cases h
    exact ⟨name, keys, suites, hname, hkeys, mapError_eq_ok_iff.1 hsuites, rfl⟩
  · rintro ⟨name, keys, suites, hname, hkeys, hsuites, rfl⟩
    rw [encodeFront, hname, ok_bind, hkeys, ok_bind, hsuites, mapError_ok, ok_bind]
    rfl

/-- The section of the name is short, and so is the name, if the version has one. -/
theorem name_le_of_encodeName
    (h : encodeName record.version record.publicName = .ok name) :
    name.length ≤ 256 ∧ (record.version.hasPublicName = true → record.nameLength ≤ 255) := by
  by_cases hversion : record.version.hasPublicName = true
  · obtain ⟨text, htext, _, hlength, rfl⟩ := (encodeName_eq_ok_iff hversion).1 h
    have hname : record.nameLength = text.toUTF8.data.toList.length := by
      rw [nameLength, htext]
      rfl
    rw [Bytes.length_framed]
    exact ⟨by omega, fun _ => by omega⟩
  · rw [encodeName, if_neg hversion] at h
    cases h
    exact ⟨Nat.zero_le _, fun h => absurd h hversion⟩

theorem keys_le_of_encodeKeys (h : encodeKeys record.keys = .ok keys) :
    keys.length = 2 + record.keys.encodedLength ∧ record.keys.encodedLength ≤ 65535 := by
  obtain ⟨entries, hencode, _, hshort, rfl⟩ := encodeKeys_eq_ok_iff.1 h
  rw [KeyShareList.length_of_encode hencode] at hshort
  rw [Bytes.length_framed, KeyShareList.length_of_encode hencode]
  exact ⟨rfl, Nat.le_of_lt_succ hshort⟩

theorem suites_le_of_encode (h : CipherSuites.encode record.cipherSuites = .ok suites) :
    suites.length = 2 + 2 * record.cipherSuites.length ∧ record.cipherSuites.length ≤ 32767 := by
  obtain ⟨hcount, rfl⟩ := CipherSuites.encode_eq_ok_iff.1 h
  rw [Bytes.length_framed, CipherSuites.length_flatMap_wire]
  exact ⟨rfl, hcount⟩

/-- Behind the sections there is room for any list of extensions that keeps its limit. -/
theorem room_of_encodeFront (h : encodeFront record = .ok front) :
    headerLength + front.length + (2 + ExtensionList.maxLength) ≤ Size.maxCapacity := by
  obtain ⟨name, keys, suites, hname, hkeys, hsuites, rfl⟩ := encodeFront_eq_ok_iff.1 h
  have hnameLength := (name_le_of_encodeName hname).1
  have hkeysLength := keys_le_of_encodeKeys hkeys
  have hsuitesLength := suites_le_of_encode hsuites
  rw [length_bodyFront, headerLength, ExtensionList.maxLength, Size.maxCapacity]
  omega

/-! ### The buffer -/

section Buffer

variable [Build] {length : Nat}

/-- Only the exact length decides which buffer is asked for. -/
theorem lengthHint_eq (record : Record) : record.lengthHint = Size.ofNat record.fullLength := by
  rw [lengthHint, ExtensionList.encodedLength, Size.total_eq, Size.ofNat_bind_add_left, fullLength,
    ExtensionList.reportedLength]

theorem allocation_eq_ok_iff :
    record.allocation = .ok () ↔
      ∃ hint, record.lengthHint = .ok hint ∧ hint ≤ Size.maxCapacity := by
  rw [allocation, bind_eq_ok_iff]
  simp only [Size.allocate_eq_ok_iff]

theorem allocation_of_fullLength (h : record.fullLength ≤ Size.maxCapacity) :
    record.allocation = .ok () := by
  have hfits : record.fullLength < Size.modulus := Nat.lt_of_le_of_lt h (by decide)
  exact allocation_eq_ok_iff.2 ⟨_, record.lengthHint_eq.trans (Size.ofNat_of_lt hfits), h⟩

theorem exists_reported_of_allocation (h : record.allocation = .ok ()) :
    ∃ length, ExtensionList.encodedLength record.extensions = .ok length := by
  obtain ⟨hint, hhint, _⟩ := allocation_eq_ok_iff.1 h
  rw [lengthHint, bind_eq_ok_iff] at hhint
  obtain ⟨length, hlength, _⟩ := hhint
  exact ⟨length, hlength⟩

/-- Short fields get their buffer. -/
theorem allocation_of_limits (hname : record.nameLength ≤ 255)
    (hkeys : record.keys.encodedLength ≤ 65535) (hsuites : record.cipherSuites.length ≤ 32767)
    (hreported : ExtensionList.encodedLength record.extensions = .ok length)
    (hextensions : length ≤ 65535) : record.allocation = .ok () := by
  have hhint : record.lengthHint = .ok (headerLength + 1 + record.nameLength + 2 +
      record.keys.encodedLength + 2 + 2 * record.cipherSuites.length + 2 + 16 + 2 + length) := by
    rw [lengthHint, hreported, ok_bind]
    refine Size.ofNat_of_lt ?_
    rw [headerLength, Size.modulus]
    omega
  refine allocation_eq_ok_iff.2 ⟨_, hhint, ?_⟩
  rw [headerLength, Size.maxCapacity]
  omega

/-- A record has its buffer if its sections can be written, its extensions are few enough, and its
name is short, also where the version does not write it. -/
theorem allocation_of_sections (hname : record.nameLength ≤ 255)
    (hfront : encodeFront record = .ok front)
    (hreported : ExtensionList.encodedLength record.extensions = .ok length)
    (hextensions : length ≤ 65535) : record.allocation = .ok () := by
  obtain ⟨name, keys, suites, _, hkeys, hsuites, rfl⟩ := encodeFront_eq_ok_iff.1 hfront
  exact allocation_of_limits hname (keys_le_of_encodeKeys hkeys).2 (suites_le_of_encode hsuites).2
    hreported hextensions

/-! ### The whole record -/

theorem encodeBody_of_allocation (h : record.allocation = .ok ()) :
    encodeBody record = do
      let front ← record.encodeFront.mapError .fault
      let extensions ← (ExtensionList.encode (headerLength + front.length)
        record.extensions).mapError (.map .extensions)
      return front ++ extensions := by
  rw [encodeBody, h]
  rfl

theorem encodeBody_eq_ok_iff :
    encodeBody record = .ok body ↔
      record.allocation = .ok () ∧ ∃ front extensions, encodeFront record = .ok front ∧
        ExtensionList.encode (headerLength + front.length) record.extensions = .ok extensions ∧
        body = front ++ extensions := by
  constructor
  · intro h
    rw [encodeBody, bind_eq_ok_iff] at h
    obtain ⟨_, hallocation, h⟩ := h
    rw [bind_eq_ok_iff] at h
    obtain ⟨front, hfront, h⟩ := h
    rw [bind_eq_ok_iff] at h
    obtain ⟨extensions, hextensions, h⟩ := h
    cases h
    exact ⟨mapError_eq_ok_iff.1 hallocation, front, extensions, mapError_eq_ok_iff.1 hfront,
      mapError_eq_ok_iff.1 hextensions, rfl⟩
  · rintro ⟨hallocation, front, extensions, hfront, hextensions, rfl⟩
    rw [encodeBody_of_allocation hallocation, hfront, mapError_ok, ok_bind, hextensions,
      mapError_ok, ok_bind]
    rfl

theorem encode_eq_ok_iff :
    encode record = .ok bytes ↔
      ∃ body, encodeBody record = .ok body ∧ bytes = sealed record.version.code body := by
  rw [encode, bind_eq_ok_iff]
  constructor
  · rintro ⟨body, hbody, hbytes⟩
    cases hbytes
    exact ⟨body, hbody, rfl⟩
  · rintro ⟨body, hbody, rfl⟩
    exact ⟨body, hbody, rfl⟩

/-- Without a buffer the program ends. -/
theorem encode_of_allocation {cause : Panic} (h : record.allocation = .error cause) :
    record.encode = .error (.panic cause) := by
  rw [encode, encodeBody, h]
  rfl

theorem checksum_of_allocation {cause : Panic} (h : record.allocation = .error cause) :
    record.checksum = .error (.panic cause) := by
  rw [checksum, encodeBody, h]
  rfl

theorem checksum_of_encodeBody (h : encodeBody record = .ok body) :
    record.checksum = .ok (Checksum.of record.version.code body) := by
  rw [checksum, h]
  rfl

theorem checksum_of_encode (h : record.encode = .ok (sealed record.version.code body)) :
    record.checksum = .ok (Checksum.of record.version.code body) := by
  obtain ⟨body', hbody, hsealed⟩ := encode_eq_ok_iff.1 h
  have hbodies := congrArg (List.drop 6) hsealed
  rw [drop_sealed, drop_sealed] at hbodies
  rw [hbodies]
  exact checksum_of_encodeBody hbody

end Buffer

end Esni.Record
