import Esni.Proofs.ExtensionCodec
import Esni.Proofs.RecordSections

/-!
# The outcome of reading a record

Data whose frames are sound is read section by section, whatever the frames hold. No section sees
a byte of its neighbours, so the outcome can be told from the contents alone: the first section
with a fault is reported, and without one there is a record.

## Main definitions

- `Record.Contents` — the contents of the frames
- `Record.Contents.bytes` — the data that they make, with the checksum that belongs to them
- `Record.Contents.outcome` — the faults in the order in which they are looked for, or the record

## Main statements

- `Record.decode_contents` — reading the data has this outcome
-/

namespace Esni

namespace Record

/-- What the frames of a record hold, each as much as its length field can tell. -/
structure Contents where
  version : UInt16
  /-- The public name. It has a frame only where the version has a public name. -/
  name : Bytes
  keys : Bytes
  suites : Bytes
  paddedLength : UInt16
  notBefore : UInt64
  notAfter : UInt64
  extensions : Bytes
  name_length : name.length < 256
  keys_length : keys.length < 65536
  suites_length : suites.length < 65536
  extensions_length : extensions.length < 65536

namespace Contents

/-- The section of the public name, which is empty where the version has none. -/
def nameSection (contents : Contents) : Bytes :=
  if 0xff02 ≤ contents.version then Bytes.framed 1 contents.name else []

/-- All frames one after the other. -/
def body (contents : Contents) : Bytes :=
  contents.nameSection ++ Bytes.framed 2 contents.keys ++ Bytes.framed 2 contents.suites ++
    Bytes.ofUInt16 contents.paddedLength ++ Bytes.ofNat 8 contents.notBefore.toNat ++
    Bytes.ofNat 8 contents.notAfter.toNat ++ Bytes.framed 2 contents.extensions

/-- The data that is read: the version, the checksum that belongs to the frames, and the frames. -/
def bytes (contents : Contents) : Bytes := sealed contents.version contents.body

/-- The public name that the record has, unless the bytes of the name are no text. -/
def publicName? (contents : Contents) : Option (Option String) :=
  if 0xff02 ≤ contents.version then (String.fromUTF8? contents.name.toByteArray).map some
  else some none

/-- The first fault of the contents, in the order in which they are looked for, and the record
that they are if they have none. -/
def outcome (registry : Registry) (contents : Contents) : Except DecodeError Record :=
  if 0xff02 ≤ contents.version ∧ contents.name = [] then .error .emptyPublicName
  else match contents.publicName? with
  | none => .error .invalidPublicName
  | some publicName =>
  if contents.keys = [] then .error .emptyKeyShareList
  else match KeyShareList.decode contents.keys with
  | .error fault => .error (.keyShares fault)
  | .ok keys =>
  if contents.suites.length % 2 = 1 then
    .error (.cipherSuites (.invalidListLength contents.suites.length))
  else if hbefore : ¬Timestamp.InCalendar contents.notBefore.toInt64.toInt then
    .error (.invalidTimestamp .notBefore contents.notBefore.toNat)
  else if hafter : ¬Timestamp.InCalendar contents.notAfter.toInt64.toInt then
    .error (.invalidTimestamp .notAfter contents.notAfter.toNat)
  else match ExtensionList.decode registry (Bytes.framed 2 contents.extensions) with
  | .error fault => .error (.extensions fault)
  | .ok (extensions, _) => .ok {
      version := ⟨contents.version⟩
      publicName
      keys
      cipherSuites := CipherSuites.spelled contents.suites
      paddedLength := contents.paddedLength
      notBefore := .startOf contents.notBefore.toInt64.toInt (Decidable.not_not.1 hbefore)
      notAfter := .startOf contents.notAfter.toInt64.toInt (Decidable.not_not.1 hafter)
      extensions }

variable {contents : Contents} {rest : Bytes}

theorem decodeName_nameSection (contents : Contents) (rest : Bytes) :
    decodeName ⟨contents.version⟩ (contents.nameSection ++ rest) =
      if 0xff02 ≤ contents.version ∧ contents.name = [] then .error .emptyPublicName
      else match contents.publicName? with
      | none => .error .invalidPublicName
      | some publicName => .ok (publicName, rest) := by
  have hcode : (⟨contents.version⟩ : Version).hasPublicName = decide (0xff02 ≤ contents.version) :=
    rfl
  by_cases hnamed : 0xff02 ≤ contents.version
  · rw [nameSection, publicName?, if_pos hnamed, if_pos hnamed,
      decodeName_framed (hcode.trans (decide_eq_true hnamed)) contents.name_length]
    by_cases hempty : contents.name = []
    · rw [if_pos hempty, if_pos ⟨hnamed, hempty⟩]
    · rw [if_neg hempty, if_neg (fun h => hempty h.2)]
      cases String.fromUTF8? contents.name.toByteArray with
      | none => rfl
      | some text => rfl
  · rw [nameSection, publicName?, if_neg hnamed, if_neg hnamed, if_neg (fun h => hnamed h.1),
      List.nil_append, decodeName_of_no_name (hcode.trans (decide_eq_false hnamed))]

/-- Nothing follows the extensions, so there is no trailing data. -/
theorem decode_extensions (registry : Registry) (contents : Contents)
    (record : ExtensionList → Record) :
    (do
      let (extensions, data) ← (ExtensionList.decode registry
        (Bytes.framed 2 contents.extensions)).mapError DecodeError.extensions
      if data = [] then return record extensions
      else .error (.trailingData data.length)) =
      match ExtensionList.decode registry (Bytes.framed 2 contents.extensions) with
      | .error fault => .error (.extensions fault)
      | .ok (extensions, _) => .ok (record extensions) := by
  have hlist : ExtensionList.decode registry (Bytes.framed 2 contents.extensions ++ []) = _ :=
    ExtensionList.decode_framed contents.extensions_length []
  rw [List.append_nil] at hlist
  rw [hlist]
  cases (ExtensionList.readBody registry contents.extensions).toExcept with
  | error fault => rw [error_bind, mapError_error, error_bind]
  | ok decoded =>
    rw [ok_bind]
    rfl

theorem decodeTime_seconds (part : RecordSection) (value : UInt64) (rest : Bytes) :
    decodeTime part (Bytes.ofNat 8 value.toNat ++ rest) =
      if h : ¬Timestamp.InCalendar value.toInt64.toInt then
        .error (.invalidTimestamp part value.toNat)
      else .ok (.startOf value.toInt64.toInt (Decidable.not_not.1 h), rest) := by
  rw [decodeTime_numeral value.toNat_lt, Timestamp.ofWire?_toNat]
  by_cases h : Timestamp.InCalendar value.toInt64.toInt
  · rw [Timestamp.ofSeconds?_of_inCalendar h, dif_neg (not_not_intro h), orFault_some, ok_bind]
    rfl
  · rw [Timestamp.ofSeconds?_of_not_inCalendar h, dif_pos h, orFault_none, error_bind]

end Contents

/-- Data in sound frames is read as its contents say: the first section with a fault decides. -/
theorem decode_contents (registry : Registry) (contents : Contents) :
    decode registry contents.bytes = contents.outcome registry := by
  rw [decode, Contents.bytes, decodeSections_sealed, decodeBody, Contents.body]
  simp only [List.append_assoc]
  rw [Contents.decodeName_nameSection]
  unfold Contents.outcome
  -- The faults are set aside in their order. The sections behind one that is found do not matter.
  by_cases hempty : 0xff02 ≤ contents.version ∧ contents.name = []
  · rw [if_pos hempty, if_pos hempty, error_bind, error_bind]
  rw [if_neg hempty, if_neg hempty]
  cases contents.publicName? with
  | none => rw [error_bind, error_bind]
  | some publicName =>
    dsimp only
    rw [ok_bind]
    dsimp only
    rw [decodeKeys_framed contents.keys_length]
    by_cases hkeys : contents.keys = []
    · rw [if_pos hkeys, if_pos hkeys, error_bind, error_bind]
    rw [if_neg hkeys, if_neg hkeys]
    cases KeyShareList.decode contents.keys with
    | error fault => rw [mapError_error, error_bind, error_bind, error_bind]
    | ok keys =>
      rw [mapError_ok, ok_bind, pure_bind]
      dsimp only
      rw [CipherSuites.decode_framed contents.suites_length]
      by_cases hodd : contents.suites.length % 2 = 1
      · rw [if_pos hodd, if_pos hodd, mapError_error, error_bind, error_bind]
      rw [if_neg hodd, if_neg hodd, mapError_ok, ok_bind]
      dsimp only
      rw [Bytes.cutUInt16?_append, orFault_some, ok_bind]
      dsimp only
      rw [Contents.decodeTime_seconds]
      by_cases hbefore : Timestamp.InCalendar contents.notBefore.toInt64.toInt
      swap
      · rw [dif_pos hbefore, dif_pos hbefore, error_bind, error_bind]
      rw [dif_neg (not_not_intro hbefore), dif_neg (not_not_intro hbefore), ok_bind]
      dsimp only
      rw [Contents.decodeTime_seconds]
      by_cases hafter : Timestamp.InCalendar contents.notAfter.toInt64.toInt
      swap
      · rw [dif_pos hafter, dif_pos hafter, error_bind, error_bind]
      rw [dif_neg (not_not_intro hafter), dif_neg (not_not_intro hafter), ok_bind, pure_bind]
      dsimp only
      exact Contents.decode_extensions registry contents fun extensions => ⟨⟨contents.version⟩,
        publicName, keys, CipherSuites.spelled contents.suites, contents.paddedLength,
        .startOf contents.notBefore.toInt64.toInt hbefore,
        .startOf contents.notAfter.toInt64.toInt hafter, extensions⟩

end Record

end Esni
