import Esni.Extension.Kinds
import Esni.Proofs.IndexedSections
import Esni.Proofs.RecordSections

/-!
# Records read by position

A whole record, as a program reads it that keeps the data in one place and an offset into it. It
comes to what `Record.decode` comes to, so no index and no slice is ever out of range, whatever
the data holds and whatever the decoders of the registry report.

## Main definitions

- `Indexed.recordAt` — the sections behind the checksum
- `Indexed.decode` — the record, read by position

## Main statements

- `Indexed.decode_eq` — both ways to read a record come to the same
- `Indexed.reads_in_range` — no access fails and every loop ends within its region
-/

namespace Esni.Indexed

/-- The number in the two bytes at a position of a section. -/
def uint16From (data : Bytes) (offset : Nat) (part : RecordSection) : Attempt DecodeError UInt16 :=
  match data.slice? offset (offset + 2) with
  | some front => front.uint16At 0
  | none => .error (.fault (.unexpectedEnd part))

/-- The time in the eight bytes at a position. -/
def timeAt (data : Bytes) (offset : Nat) (part : RecordSection) : Attempt DecodeError Timestamp :=
  match (data.slice? offset data.length).bind (Bytes.firstChunk? 8) with
  | some front =>
    let value := Bytes.toNat front.val
    orFault (.fault (.invalidTimestamp part value)) (Timestamp.ofWire? value)
  | none => .error (.fault (.unexpectedEnd part))

/-- The public name at a position, where the version has one, and where it ends. -/
def nameAt (version : Version) (data : Bytes) (offset : Nat) :
    Attempt DecodeError (Option String × Nat) :=
  if version.hasPublicName then
    match data[offset]? with
    | none => .error (.fault (.unexpectedEnd .publicName))
    | some length =>
      if length = 0 then .error (.fault .emptyPublicName)
      else
        let start := offset + 1
        let stop := start + length.toNat
        match data.slice? start stop with
        | none => .error (.fault (.unexpectedEnd .publicName))
        | some name => do
          let text ← orFault (.fault .invalidPublicName) (String.fromUTF8? name.toByteArray)
          return (some text, stop)
  else return (none, offset)

/-- The key shares at a position, and where they end. -/
def keysAt (rounds : Nat) (data : Bytes) (offset : Nat) :
    Attempt DecodeError (KeyShareList × Nat) := do
  let length ← uint16From data offset .keyShareList
  if length = 0 then .error (.fault .emptyKeyShareList)
  else
    let start := offset + 2
    let stop := start + length.toNat
    match data.slice? start stop with
    | none => .error (.fault (.unexpectedEnd .keyShareList))
    | some entries => do
      let ended := (keyShares entries).run entries.length rounds ⟨0, .empty⟩
      let keys ← ended.result.mapError (.map .keyShares)
      return (keys, stop)

/-- The record whose sections start at a position and take all the data from there on. The loops
are given a number of rounds. -/
def recordAt (rounds : Nat) (registry : Registry) (version : Version) (data : Bytes)
    (offset : Nat) : Attempt DecodeError Record := do
  let (publicName, offset) ← nameAt version data offset
  let (keys, offset) ← keysAt rounds data offset
  let left ← data.sliceFrom offset
  let (suites, length) ← (cipherSuites left).mapError (.map .cipherSuites)
  let offset := offset + length
  let paddedLength ← uint16From data offset .paddedLength
  let offset := offset + 2
  let notBefore ← timeAt data offset .notBefore
  let offset := offset + 8
  let notAfter ← timeAt data offset .notAfter
  let offset := offset + 8
  let left ← data.sliceFrom offset
  let (extensions, length) ← (extensionList rounds registry left).mapError (.map .extensions)
  let offset := offset + length
  if offset < data.length then
    .error (.fault (.trailingData (data.length - offset)))
  else
    return ⟨version, publicName, keys, suites, paddedLength, notBefore, notAfter, extensions⟩

/-- The record that the whole data is. -/
def decode (rounds : Nat) (registry : Registry) (data : Bytes) : Attempt DecodeError Record :=
  if data.length < 6 then .error (.fault (.unexpectedEnd .header))
  else do
    let version ← data.uint16At 0
    let field ← data.slice 2 6
    let received ← Bytes.copied 4 field
    let calculated ← checksumOf data
    if received ≠ calculated then
      .error (.fault (.checksumMismatch received calculated))
    else
      recordAt rounds registry ⟨version⟩ data 6

variable {data : Bytes} {offset rounds : Nat}

theorem uint16From_tracks (h : offset ≤ data.length) (part : RecordSection) :
    Tracks data ((uint16From data offset part).map (·, offset + 2))
      (orFault (.unexpectedEnd part) (Bytes.cutUInt16? (data.drop offset))) := by
  rw [uint16From, Bytes.slice?_eq_map_cut? h]
  by_cases hshort : (data.drop offset).length < 2
  · rw [Bytes.cut?_eq_none_iff.2 hshort, Bytes.cutUInt16?_eq_none_iff.2 hshort]
    exact .of_error _
  · obtain ⟨high, low, rest, hdata⟩ := Bytes.exists_eq_cons_cons (Nat.le_of_not_lt hshort)
    have hcut : Bytes.cut? 2 (data.drop offset) = some (⟨[high, low], rfl⟩, rest) :=
      Bytes.cut?_eq_some_iff.2 hdata
    have hnumber : Bytes.cutUInt16? (data.drop offset) =
        some (UInt16.ofNat (Bytes.toNat [high, low]), rest) := by
      rw [hdata, Bytes.cutUInt16?_cons_cons]
    obtain ⟨hwithin, hrest⟩ := Bytes.drop_of_cut? h hcut
    rw [hcut, hnumber]
    exact .of_ok hwithin hrest

theorem timeAt_tracks (h : offset ≤ data.length) (part : RecordSection) :
    Tracks data ((timeAt data offset part).map (·, offset + 8))
      (Record.decodeTime part (data.drop offset)) := by
  have hslice : data.slice? offset data.length = some (data.drop offset) := by
    rw [Bytes.slice?, if_pos ⟨h, Nat.le_refl _⟩, List.take_length]
  rw [timeAt, hslice, Option.bind_some, Bytes.firstChunk?, Record.decodeTime, Bytes.cutNat?]
  cases hcut : Bytes.cut? 8 (data.drop offset) with
  | none => exact .of_error _
  | some found =>
    obtain ⟨front, rest⟩ := found
    obtain ⟨hwithin, hrest⟩ := Bytes.drop_of_cut? h hcut
    rw [Option.map_some, Option.map_some, orFault_some, ok_bind]
    dsimp only
    generalize Bytes.toNat front.val = value
    cases Timestamp.ofWire? value with
    | none => exact .of_error _
    | some moment => exact .of_ok hwithin hrest

theorem nameAt_tracks (version : Version) (h : offset ≤ data.length) :
    Tracks data (nameAt version data offset) (Record.decodeName version (data.drop offset)) := by
  rw [nameAt, Record.decodeName]
  by_cases hversion : version.hasPublicName = true
  swap
  · rw [if_neg hversion, if_neg hversion]
    exact .of_ok h rfl
  rw [if_pos hversion, if_pos hversion]
  rcases Nat.eq_or_lt_of_le h with hend | hmore
  · have hpast : data.length ≤ offset := Nat.le_of_eq hend.symm
    rw [List.getElem?_eq_none hpast, List.drop_of_length_le hpast]
    exact .of_error _
  rw [List.getElem?_eq_getElem hmore, List.drop_eq_getElem_cons hmore, Bytes.cutNat?_cons,
    orFault_some, ok_bind]
  dsimp only
  generalize data[offset] = length
  by_cases hzero : length = 0
  · have hlength : length.toNat = 0 := by
      rw [hzero]
      rfl
    rw [if_pos hzero, if_pos hlength]
    exact .of_error _
  have hpositive : ¬length.toNat = 0 := fun h => hzero (UInt8.toNat_inj.1 h)
  rw [if_neg hzero, if_neg hpositive, Bytes.slice?_eq_map_cut? hmore]
  cases hcut : Bytes.cut? length.toNat (data.drop (offset + 1)) with
  | none => exact .of_error _
  | some found =>
    obtain ⟨name, rest⟩ := found
    obtain ⟨hwithin, hrest⟩ := Bytes.drop_of_cut? hmore hcut
    rw [Option.map_some, orFault_some, ok_bind]
    dsimp only
    cases String.fromUTF8? name.val.toByteArray with
    | none => exact .of_error _
    | some text => exact .of_ok hwithin hrest

theorem keysAt_tracks (h : offset ≤ data.length) (hrounds : data.length / 2 < rounds) :
    Tracks data (keysAt rounds data offset) (Record.decodeKeys (data.drop offset)) := by
  rw [keysAt, Record.decodeKeys, uint16From, Bytes.slice?_eq_map_cut? h]
  by_cases hshort : (data.drop offset).length < 2
  · rw [Bytes.cut?_eq_none_iff.2 hshort, Bytes.cutNat?_eq_none_iff.2 hshort]
    exact .of_error _
  obtain ⟨high, low, left, hdata⟩ := Bytes.exists_eq_cons_cons (Nat.le_of_not_lt hshort)
  have hcut : Bytes.cut? 2 (data.drop offset) = some (⟨[high, low], rfl⟩, left) :=
    Bytes.cut?_eq_some_iff.2 hdata
  obtain ⟨hstart, hleft⟩ := Bytes.drop_of_cut? h hcut
  rw [hcut, Option.map_some]
  dsimp only
  rw [Bytes.uint16At_zero, ok_bind, hdata, Bytes.cutNat?_cons_cons, orFault_some, ok_bind,
    Bytes.toNat_ofNat_two]
  dsimp only
  by_cases hzero : UInt16.ofNat (Bytes.toNat [high, low]) = 0
  · rw [if_pos hzero, if_pos ((Bytes.ofNat_two_eq_zero_iff high low).1 hzero)]
    exact .of_error _
  rw [if_neg hzero, if_neg fun h => hzero ((Bytes.ofNat_two_eq_zero_iff high low).2 h)]
  generalize Bytes.toNat [high, low] = length
  rw [Bytes.slice?_eq_map_cut? hstart, ← hleft]
  cases hentries : Bytes.cut? length left with
  | none => exact .of_error _
  | some found =>
    obtain ⟨entries, rest⟩ := found
    obtain ⟨hwithin, hrest⟩ := Bytes.drop_of_cut? hstart (hleft ▸ hentries)
    have hregion : entries.val.length / 4 < rounds := by
      rw [entries.property]
      omega
    rw [Option.map_some, orFault_some, ok_bind]
    dsimp only
    rw [result_keyShares hregion]
    cases KeyShareList.decode entries.val with
    | error error => exact .of_error _
    | ok keys => exact .of_ok hwithin hrest

/-- The sections are read in both ways from where the sections before them have ended. -/
theorem recordAt_eq (registry : Registry) (version : Version) (h : offset ≤ data.length)
    (hrounds : data.length / 2 < rounds) :
    recordAt rounds registry version data offset = Except.mapError Stop.fault (do
      let (record, rest) ← Record.decodeBody version (data.drop offset)
      let (extensions, rest) ← (ExtensionList.decode registry rest).mapError DecodeError.extensions
      if rest = [] then return { record with extensions }
      else .error (.trailingData rest.length)) := by
  rw [recordAt, Record.decodeBody]
  simp only [bind_assoc, pure_bind]
  refine (nameAt_tracks version h).bind fun found h => ?_
  obtain ⟨publicName, offset⟩ := found
  dsimp only at h ⊢
  refine (keysAt_tracks h hrounds).bind fun found h => ?_
  obtain ⟨keys, offset⟩ := found
  dsimp only at h ⊢
  rw [Bytes.sliceFrom_eq h, ok_bind]
  have hsuites := (cipherSuites_tracks (data.drop offset)).mapError DecodeError.cipherSuites
  refine (hsuites.of_drop h).bind_view fun found h => ?_
  obtain ⟨suites, length⟩ := found
  dsimp only at h ⊢
  refine (uint16From_tracks h .paddedLength).bind_view fun paddedLength h => ?_
  dsimp only at h ⊢
  refine (timeAt_tracks h .notBefore).bind_view fun notBefore h => ?_
  dsimp only at h ⊢
  refine (timeAt_tracks h .notAfter).bind_view fun notAfter h => ?_
  dsimp only at h ⊢
  rw [Bytes.sliceFrom_eq h, ok_bind]
  generalize offset + length + 2 + 8 + 8 = offset at h ⊢
  have hleft : (data.drop offset).length / 2 < rounds := by
    rw [List.length_drop]
    omega
  have hextensions := (extensionList_tracks registry hleft).mapError DecodeError.extensions
  refine (hextensions.of_drop h).bind_view fun found h => ?_
  obtain ⟨extensions, length⟩ := found
  dsimp only at h ⊢
  -- The offset has come to the end exactly if nothing is left behind it.
  by_cases hend : offset + length < data.length
  · have hrest : data.drop (offset + length) ≠ [] := by
      rw [Ne, List.drop_eq_nil_iff]
      omega
    rw [if_pos hend, if_neg hrest, List.length_drop]
    rfl
  · have hrest : data.drop (offset + length) = [] := List.drop_eq_nil_of_le (Nat.le_of_not_lt hend)
    rw [if_neg hend, if_pos hrest]
    rfl

/-- Both ways to read a record come to the same, if the loops are given enough rounds. -/
theorem decode_eq (registry : Registry) (hrounds : data.length / 2 < rounds) :
    decode rounds registry data = (Record.decode registry data).mapError .fault := by
  by_cases hshort : data.length < 6
  · rw [decode, if_pos hshort, Record.decode, Record.decodeSections_of_short hshort]
    rfl
  obtain ⟨version, field, body, hdata, hbody⟩ := exists_header hshort
  have hversion : (data.uint16At 0 : Attempt DecodeError UInt16) = .ok version := by
    rw [hdata, List.append_assoc, Bytes.uint16At_ofUInt16]
  have hfield : (data.slice 2 6 : Attempt DecodeError Bytes) = .ok field.val := by
    have hcut : Bytes.cut? 4 (data.drop 2) = some (field, body) := by
      rw [hdata, List.append_assoc, List.drop_left' (Bytes.length_ofUInt16 version)]
      exact Bytes.cut?_append field.property body
    exact Bytes.slice_of_cut? (by omega) hcut
  have hcopied : (Bytes.copied 4 field.val : Attempt DecodeError (Octets 4)) = .ok field :=
    dif_pos field.property
  have hchecksum : (checksumOf data : Attempt DecodeError Checksum) =
      .ok (Checksum.of version body) := by
    rw [hdata, checksumOf_eq]
  rw [decode, if_neg hshort, hversion, ok_bind, hfield, ok_bind, hcopied, ok_bind, hchecksum,
    ok_bind, Record.decode, hdata, Record.decodeSections_header, ← hdata]
  by_cases hsum : field = Checksum.of version body
  · rw [if_neg (not_not_intro hsum), if_pos hsum,
      recordAt_eq registry ⟨version⟩ (Nat.le_of_not_lt hshort) hrounds, hbody]
  · rw [if_pos hsum, if_neg hsum]
    rfl

/-- Whatever the data and whatever the decoders of the registry report, no index and no slice is
out of range, neither in a whole record nor in any part of it, and every loop comes to an end
within its region before it can have found more items than there is place for. The rounds are any
number above that of the items that could be there, so nothing depends on them. -/
theorem reads_in_range :
    (∀ (registry : Registry) (data : Bytes) (rounds : Nat), data.length / 2 < rounds →
      (decode rounds registry data).InRange ∧
        decode rounds registry data = (Record.decode registry data).mapError .fault) ∧
    (∀ encoded : Bytes, 6 ≤ encoded.length →
      (checksumOf encoded : Attempt DecodeError Checksum).InRange) ∧
    (∀ (region : Bytes) (rounds : Nat), region.length / 4 < rounds →
      ((keyShares region).run region.length rounds ⟨0, .empty⟩).Within region.length 4
        KeyShareList.length) ∧
    (∀ data : Bytes, (cipherSuites data).InRange) ∧
    (∀ (registry : Registry) (data : Bytes) (rounds : Nat), data.length / 2 < rounds →
      (extensionList rounds registry data).InRange) ∧
    (∀ (registry : Registry) (region : Bytes) (rounds : Nat), region.length / 2 < rounds →
      ((extensions registry region).run region.length rounds ⟨0, []⟩).Within region.length 2
        List.length) ∧
    (∀ (region : Bytes) (rounds : Nat), region.length / 5 < rounds →
      ((addresses region).run region.length rounds ⟨0, []⟩).Within region.length 5 List.length ∧
        ((addresses region).run region.length rounds ⟨0, []⟩).result.map AddressSet.mk =
          (AddressSet.decode region).mapError .fault) := by
  refine ⟨?_, ?_, ?_, fun data => (cipherSuites_tracks data).inRange, ?_, ?_, ?_⟩
  · intro registry data rounds hrounds
    have hequal := decode_eq registry hrounds
    refine ⟨?_, hequal⟩
    rw [hequal]
    exact Attempt.inRange_mapError _
  · intro encoded hlength
    obtain ⟨version, field, body, rfl, _⟩ := exists_header (Nat.not_lt.2 hlength)
    rw [checksumOf_eq]
    exact ⟨by simp, by simp⟩
  · intro region rounds hrounds
    exact Loop.within_run (keyShares_tracks region) KeyShareList.length_of_push rfl (by decide)
      hrounds
  · intro registry data rounds hrounds
    exact (extensionList_tracks registry hrounds).inRange
  · intro registry region rounds hrounds
    refine Loop.within_run (extensions_tracks registry region) ?_ rfl (by decide) hrounds
    intro list item found hadd
    cases hadd
    exact List.length_append
  · intro region rounds hrounds
    refine ⟨Loop.within_run (addresses_tracks region) ?_ rfl (by decide) hrounds,
      result_addresses hrounds⟩
    intro list address found hadd
    cases hadd
    exact List.length_append

/-- An extension that reports more than there is does not lead out of the region. -/
theorem reads_in_range_sizeClaim :
    ((extensions .extended [0x10, 0x42, 0xff]).run 3 2 ⟨0, []⟩).Within 3 2 List.length ∧
      ((extensions .extended [0x10, 0x42, 0xff]).run 3 2 ⟨0, []⟩).result =
        .error (.fault (.overlongPayload SizeClaim.type)) :=
  ⟨reads_in_range.2.2.2.2.2.1 .extended [0x10, 0x42, 0xff] 2 (by decide), rfl⟩

end Esni.Indexed
