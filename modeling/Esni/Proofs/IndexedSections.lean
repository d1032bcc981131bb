import Esni.Extension.AddressSet
import Esni.Record.Basic
import Esni.Proofs.ExtensionCodec
import Esni.Proofs.IndexedLoop
import Esni.Proofs.KeyShareCodec

/-!
# Sections read by position

The checksum and the lists of a record, as a program reads them that indexes into the data. Each
of them checks lengths in its own way before it looks at a byte. All of them come to what the
decoders come to that cut the data up, so no check is missing.

## Main definitions

- `Indexed.checksumOf` — the checksum of a record as it was received
- `Indexed.keyShares`, `Indexed.extensions` and `Indexed.addresses` — the three loops
- `Indexed.cipherSuites` and `Indexed.extensionList` — the lists behind their lengths

## Main statements

- `Indexed.keyShares_tracks`, `Indexed.extensions_tracks` and `Indexed.addresses_tracks` — the
  loops take what the readers take
-/

namespace Esni.Indexed

/-- The checksum that belongs to a record as it was received. -/
def checksumOf {ε : Type} (encoded : Bytes) : Attempt ε Checksum := do
  let version ← encoded.slice 0 2
  let body ← encoded.sliceFrom 6
  let sum ← (sha256 (version ++ List.replicate 4 0 ++ body)).val.slice 0 4
  Bytes.copied 4 sum

/-- The key share at the front of the data. -/
def keyShare (data : Bytes) : Attempt KeyShareError KeyShare :=
  if data.length < 4 then .error (.fault .truncatedEntry)
  else do
    let group ← data.uint16At 0
    let length ← data.uint16At 2
    let stop := 4 + length.toNat
    if data.length < stop then .error (.fault .truncatedEntry)
    else do
      let key ← data.slice 4 stop
      return ⟨⟨group⟩, key⟩

/-- The loop over the key shares of a region. -/
def keyShares (region : Bytes) : Loop KeyShareError KeyShare KeyShareList where
  itemAt offset := do
    let left ← region.sliceFrom offset
    keyShare left
  width := KeyShare.encodedLength
  add := KeyShareList.push

/-- The two bytes at even positions and behind them. A last single byte is left out. -/
def chunksOfTwo : Bytes → List Bytes
  | high :: low :: rest => [high, low] :: chunksOfTwo rest
  | _ => []

/-- The cipher suites behind their length, and where they end. -/
def cipherSuites (data : Bytes) : Attempt CipherSuitesError (List CipherSuite × Nat) :=
  if data.length < 2 then .error (.fault .truncatedData)
  else do
    let length ← data.uint16At 0
    if length.toNat % 2 = 1 then .error (.fault (.invalidListLength length.toNat))
    else do
      let stop := 2 + length.toNat
      if data.length < stop then .error (.fault .truncatedData)
      else do
        let body ← data.slice 2 stop
        let codes ← (chunksOfTwo body).mapM fun chunk => chunk.uint16At 0
        return (codes.map CipherSuite.mk, stop)

/-- The extension at a position of a region, which is decoded from all the data behind its
identifier. -/
def extensionAt (registry : Registry) (region : Bytes) (offset : Nat) :
    Attempt ExtensionDecodeError DecodedExtension := do
  let left ← region.sliceFrom offset
  if left.length < 2 then .error (.fault .unexpectedEnd)
  else do
    let code ← left.uint16At 0
    let type : ExtensionType := ⟨code⟩
    let registration ← orFault (.fault (.unsupportedType type)) (registry.lookup? type)
    let payload ← left.sliceFrom 2
    let extension ← (registration.decode payload).mapError fun error =>
      .fault (.faultyPayload type error)
    if payload.length < extension.payloadLength.toNat then .error (.fault (.overlongPayload type))
    else return ⟨registration.name, extension⟩

/-- The loop over the extensions of a region. It goes on by as much as an extension reports. -/
def extensions (registry : Registry) (region : Bytes) :
    Loop ExtensionDecodeError DecodedExtension ExtensionList where
  itemAt := extensionAt registry region
  width item := 2 + item.extension.payloadLength.toNat
  add list item := .ok (list ++ [item.extension])

/-- The extensions behind their length, and where they end. -/
def extensionList (rounds : Nat) (registry : Registry) (data : Bytes) :
    Attempt ExtensionDecodeError (ExtensionList × Nat) :=
  if data.length < 2 then .error (.fault .unexpectedEnd)
  else do
    let length ← data.uint16At 0
    if length = 0 then return ([], 2)
    else do
      let stop := 2 + length.toNat
      if data.length < stop then .error (.fault .unexpectedEnd)
      else do
        let body ← data.slice 2 stop
        let list ← ((extensions registry body).run body.length rounds ⟨0, []⟩).result
        return (list, stop)

/-- The address at a position of a region. -/
def addressAt (region : Bytes) (offset : Nat) : Attempt AddressError Address := do
  let left ← region.sliceFrom (offset + 1)
  let tag ← region.byteAt offset
  if tag = Address.ipv4Family then do
    let octets ← orFault (.fault .truncatedAddress) (left.firstChunk? 4)
    return .ipv4 octets
  else if tag = Address.ipv6Family then do
    let octets ← orFault (.fault .truncatedAddress) (left.firstChunk? 16)
    return .ipv6 octets
  else .error (.fault (.unsupportedFamily tag))

/-- The loop over the addresses of a region. -/
def addresses (region : Bytes) : Loop AddressError Address (List Address) where
  itemAt := addressAt region
  width := Address.encodedLength
  add list address := .ok (list ++ [address])

/-- The checksum field is skipped, whatever it holds. -/
theorem checksumOf_eq {ε : Type} (version : UInt16) (field : Octets 4) (body : Bytes) :
    (checksumOf (Bytes.ofUInt16 version ++ field.val ++ body) : Attempt ε Checksum) =
      .ok (Checksum.of version body) := by
  have hfield : (Bytes.ofUInt16 version ++ field.val).length = 6 := by
    rw [List.length_append, Bytes.length_ofUInt16, field.property]
  have hversion : ((Bytes.ofUInt16 version ++ field.val ++ body).slice 0 2 : Attempt ε Bytes) =
      .ok (Bytes.ofUInt16 version) := by
    have hcut : Bytes.cut? 2 ((Bytes.ofUInt16 version ++ field.val ++ body).drop 0) =
        some (⟨Bytes.ofUInt16 version, Bytes.length_ofUInt16 _⟩, field.val ++ body) :=
      Bytes.cut?_eq_some_iff.2 (List.append_assoc ..)
    exact Bytes.slice_of_cut? (Nat.zero_le _) hcut
  have hbody : ((Bytes.ofUInt16 version ++ field.val ++ body).sliceFrom 6 : Attempt ε Bytes) =
      .ok body := by
    rw [Bytes.sliceFrom_eq (by rw [List.length_append]; omega), List.drop_left' hfield]
  rw [checksumOf, hversion, ok_bind, hbody, ok_bind]
  exact Bytes.copied_slice _

section KeyShares

theorem keyShare_of_short {data : Bytes} (h : data.length < 4) :
    keyShare data = .error (.fault .truncatedEntry) ∧ KeyShare.read? data = none := by
  refine ⟨if_pos h, ?_⟩
  rw [Option.eq_none_iff_forall_ne_some]
  rintro ⟨entry, rest⟩ hread
  have hlength := KeyShare.length_of_read? hread
  rw [KeyShare.encodedLength] at hlength
  omega

/-- Both ways to read a key share check the length of the header first and that of the key then. -/
theorem keyShare_eq (data : Bytes) :
    keyShare data =
      ((KeyShare.reader.read data).map Prod.fst).mapError .fault := by
  have hreader (data : Bytes) : KeyShare.reader.read data =
      orFault .truncatedEntry (KeyShare.read? data) := rfl
  rw [hreader]
  by_cases hshort : data.length < 4
  · obtain ⟨hindexed, hread⟩ := keyShare_of_short hshort
    rw [hindexed, hread]
    rfl
  · have hlong : 2 ≤ data.length := by omega
    obtain ⟨a, b, left, rfl⟩ := Bytes.exists_eq_cons_cons hlong
    have hlong : 2 ≤ left.length := by
      simp only [List.length_cons] at hshort
      omega
    obtain ⟨c, d, rest, rfl⟩ := Bytes.exists_eq_cons_cons hlong
    have hlength : (Bytes.uint16At (a :: b :: c :: d :: rest) 2 : Attempt KeyShareError UInt16) =
        .ok (UInt16.ofNat (Bytes.toNat [c, d])) := rfl
    rw [keyShare, if_neg hshort, Bytes.uint16At_zero, ok_bind, hlength, ok_bind, KeyShare.read?,
      Bytes.cutUInt16?_cons_cons, Option.bind_eq_bind, Option.bind_some]
    dsimp only
    rw [Bytes.toNat_ofNat_two, Bytes.cutNat?_cons_cons, Option.bind_eq_bind, Option.bind_some]
    dsimp only
    generalize Bytes.toNat [c, d] = length
    have hstart : 4 ≤ (a :: b :: c :: d :: rest).length := Nat.le_of_not_lt hshort
    cases hcut : Bytes.cut? length rest with
    | none =>
      rw [if_pos (Bytes.length_lt_of_cut?_eq_none hstart hcut)]
      rfl
    | some found =>
      obtain ⟨hstop, _⟩ := Bytes.drop_of_cut? hstart hcut
      have hkey : (Bytes.slice (a :: b :: c :: d :: rest) 4 (4 + length) :
          Attempt KeyShareError Bytes) = .ok found.1.val := Bytes.slice_of_cut? hstart hcut
      rw [if_neg (Nat.not_lt.2 hstop), hkey]
      rfl

theorem keyShares_tracks (region : Bytes) :
    (keyShares region).Tracks KeyShare.reader region 4 where
  itemAt_eq offset hoffset := by
    show (region.sliceFrom offset >>= keyShare) = _
    rw [Bytes.sliceFrom_eq (Nat.le_of_lt hoffset), ok_bind, keyShare_eq]
  width_of_read {data entry rest} hread := by
    obtain ⟨_, rfl⟩ := KeyShare.reader_read_eq_ok_iff.1 hread
    show 4 ≤ 4 + entry.key.length ∧ entry.encodedLength ≤ _ ∧ rest = List.drop entry.encodedLength _
    refine ⟨Nat.le_add_right _ _, ?_, (List.drop_left' entry.length_wire).symm⟩
    rw [List.length_append, entry.length_wire]
    exact Nat.le_add_right _ _

theorem result_keyShares {region : Bytes} {rounds : Nat} (hrounds : region.length / 4 < rounds) :
    ((keyShares region).run region.length rounds ⟨0, .empty⟩).result =
      (KeyShareList.decode region).mapError .fault := by
  rw [Loop.result_run (keyShares_tracks region) (by decide) (Nat.zero_le _) hrounds]
  have hgather : (KeyShare.reader.readAll region).gather KeyShareList.push .empty =
      KeyShareList.decode region := by
    rw [Reading.gather, KeyShareList.foldlM_push_empty, KeyShareList.decode]
    cases (KeyShare.reader.readAll region).fault with
    | none => rfl
    | some fault => rfl
  exact congrArg (Except.mapError Stop.fault) hgather

end KeyShares

section CipherSuites

/-- Two bytes at a time are the suites that the data spells. -/
theorem exists_mapM_chunksOfTwo (ε : Type) : ∀ data : Bytes, ∃ codes,
    (chunksOfTwo data).mapM (fun chunk => (chunk.uint16At 0 : Attempt ε UInt16)) = .ok codes ∧
      codes.map CipherSuite.mk = CipherSuites.spelled data
  | [] => ⟨[], rfl, rfl⟩
  | [_] => ⟨[], rfl, rfl⟩
  | high :: low :: rest => by
    obtain ⟨codes, hcodes, hspelled⟩ := exists_mapM_chunksOfTwo ε rest
    refine ⟨UInt16.ofNat (Bytes.toNat [high, low]) :: codes, ?_, ?_⟩
    · rw [chunksOfTwo, List.mapM_cons, Bytes.uint16At_zero, ok_bind, hcodes, ok_bind]
      rfl
    · rw [List.map_cons, hspelled, CipherSuites.spelled, Bytes.toNat]
      simp

theorem cipherSuites_tracks (data : Bytes) :
    Tracks data (cipherSuites data) (CipherSuites.decode data) := by
  by_cases hshort : data.length < 2
  · rw [cipherSuites, if_pos hshort, CipherSuites.decode, Bytes.cutNat?_eq_none_iff.2 hshort]
    exact .of_error _
  · obtain ⟨a, b, left, rfl⟩ := Bytes.exists_eq_cons_cons (Nat.le_of_not_lt hshort)
    rw [cipherSuites, if_neg hshort, Bytes.uint16At_zero, ok_bind, Bytes.toNat_ofNat_two,
      CipherSuites.decode, Bytes.cutNat?_cons_cons, orFault_some, ok_bind]
    dsimp only
    generalize Bytes.toNat [a, b] = length
    by_cases hodd : length % 2 = 1
    · rw [if_pos hodd, if_pos hodd]
      exact .of_error _
    rw [if_neg hodd, if_neg hodd]
    have hstart : 2 ≤ (a :: b :: left).length := Nat.le_of_not_lt hshort
    cases hcut : Bytes.cut? length left with
    | none =>
      rw [if_pos (Bytes.length_lt_of_cut?_eq_none hstart hcut)]
      exact .of_error _
    | some found =>
      obtain ⟨body, rest⟩ := found
      obtain ⟨hstop, hrest⟩ := Bytes.drop_of_cut? hstart hcut
      have hbody : (Bytes.slice (a :: b :: left) 2 (2 + length) : Attempt CipherSuitesError Bytes) =
          .ok body.val := Bytes.slice_of_cut? hstart hcut
      have heven : body.val.length % 2 = 0 := by
        rw [body.property]
        omega
      obtain ⟨codes, hcodes, hspelled⟩ := exists_mapM_chunksOfTwo CipherSuitesError body.val
      rw [if_neg (Nat.not_lt.2 hstop), hbody, ok_bind, hcodes, ok_bind, orFault_some, ok_bind]
      dsimp only
      rw [CipherSuites.readAll_of_even heven]
      rw [← hspelled]
      exact .of_ok hstop hrest

end CipherSuites

section Addresses

theorem addressAt_eq {region : Bytes} {offset : Nat} (h : offset < region.length) :
    addressAt region offset =
      ((Address.read (region.drop offset)).map Prod.fst).mapError .fault := by
  rw [addressAt, Bytes.sliceFrom_eq h, ok_bind, Bytes.byteAt, List.getElem?_eq_getElem h,
    orFault_some, ok_bind, List.drop_eq_getElem_cons h, Address.read]
  generalize region[offset] = tag
  generalize region.drop (offset + 1) = left
  by_cases hipv4 : tag = Address.ipv4Family
  · rw [if_pos hipv4, if_pos hipv4, Bytes.firstChunk?]
    cases Bytes.cut? 4 left with
    | none => rfl
    | some found => rfl
  rw [if_neg hipv4, if_neg hipv4]
  by_cases hipv6 : tag = Address.ipv6Family
  · rw [if_pos hipv6, if_pos hipv6, Bytes.firstChunk?]
    cases Bytes.cut? 16 left with
    | none => rfl
    | some found => rfl
  rw [if_neg hipv6, if_neg hipv6]
  rfl

theorem addresses_tracks (region : Bytes) :
    (addresses region).Tracks Address.reader region 5 where
  itemAt_eq offset hoffset := addressAt_eq hoffset
  width_of_read {data address rest} hread := by
    obtain rfl := Address.eq_wire_append_of_read hread
    show 5 ≤ address.encodedLength ∧ address.encodedLength ≤ _ ∧
      rest = List.drop address.encodedLength _
    refine ⟨?_, ?_, (List.drop_left' address.length_wire).symm⟩
    · cases address with
      | ipv4 octets => exact Nat.le_refl 5
      | ipv6 octets => exact Nat.le_add_left 5 12
    · rw [List.length_append, address.length_wire]
      exact Nat.le_add_right _ _

theorem result_addresses {region : Bytes} {rounds : Nat} (hrounds : region.length / 5 < rounds) :
    ((addresses region).run region.length rounds ⟨0, []⟩).result.map AddressSet.mk =
      (AddressSet.decode region).mapError .fault := by
  have hadd (gathered : List Address) (address : Address) :
      (addresses region).add gathered address = .ok (gathered ++ [id address]) := rfl
  rw [Loop.result_run (addresses_tracks region) (by decide) (Nat.zero_le _) hrounds,
    Reading.gather_append hadd, List.drop_zero, AddressSet.decode]
  cases (Address.reader.readAll region).toExcept with
  | error error => rfl
  | ok found =>
    rw [List.map_id_fun]
    rfl

end Addresses

section Extensions

variable {registry : Registry} {region : Bytes} {offset rounds : Nat}

/-- The decoder is handed the same data, and whatever it reports is checked against that data. -/
theorem extensionAt_eq (h : offset ≤ region.length) :
    extensionAt registry region offset =
      ((DecodedExtension.read registry (region.drop offset)).map Prod.fst).mapError .fault := by
  rw [extensionAt, Bytes.sliceFrom_eq h, ok_bind]
  generalize region.drop offset = left
  by_cases hshort : left.length < 2
  · rw [if_pos hshort, DecodedExtension.read, Bytes.cutUInt16?_eq_none_iff.2 hshort]
    rfl
  obtain ⟨a, b, payload, rfl⟩ := Bytes.exists_eq_cons_cons (Nat.le_of_not_lt hshort)
  rw [if_neg hshort, Bytes.uint16At_zero, ok_bind, DecodedExtension.read,
    Bytes.cutUInt16?_cons_cons, orFault_some, ok_bind]
  dsimp only
  generalize (⟨UInt16.ofNat (Bytes.toNat [a, b])⟩ : ExtensionType) = type
  have hpayload : (Bytes.sliceFrom (a :: b :: payload) 2 : Attempt ExtensionDecodeError Bytes) =
      .ok payload := by
    exact Bytes.sliceFrom_eq (by simp)
  cases registry.lookup? type with
  | none => rfl
  | some registration =>
    rw [orFault_some, ok_bind, hpayload, ok_bind, orFault_some, ok_bind]
    cases registration.decode payload with
    | error error => rfl
    | ok extension =>
      rw [mapError_ok, ok_bind, mapError_ok, ok_bind]
      -- The report of the extension is not trusted: it is compared with what there is.
      cases hcut : Bytes.cut? extension.payloadLength.toNat payload with
      | none =>
        rw [if_pos (Bytes.cut?_eq_none_iff.1 hcut)]
        rfl
      | some found =>
        have hlength := Bytes.length_of_cut? hcut
        rw [if_neg (by omega)]
        rfl

theorem extensions_tracks (registry : Registry) (region : Bytes) :
    (extensions registry region).Tracks (DecodedExtension.reader registry) region 2 where
  itemAt_eq offset hoffset := extensionAt_eq (Nat.le_of_lt hoffset)
  width_of_read {data item rest} hread := by
    obtain ⟨code, payload, registration, rfl, _, _, _, hlength, rfl⟩ :=
      DecodedExtension.read_eq_ok_iff.1 hread
    show 2 ≤ 2 + item.extension.payloadLength.toNat ∧ 2 + item.extension.payloadLength.toNat ≤ _ ∧
      _ = List.drop (2 + item.extension.payloadLength.toNat) _
    refine ⟨Nat.le_add_right _ _, ?_, ?_⟩
    · rw [List.length_append, Bytes.length_ofUInt16]
      omega
    · rw [← List.drop_drop, List.drop_left' (Bytes.length_ofUInt16 code)]

theorem result_extensions (hrounds : region.length / 2 < rounds) :
    ((extensions registry region).run region.length rounds ⟨0, []⟩).result =
      ((ExtensionList.readBody registry region).toExcept.map
        (·.map (·.extension))).mapError .fault := by
  have hadd (gathered : ExtensionList) (item : DecodedExtension) :
      (extensions registry region).add gathered item = .ok (gathered ++ [item.extension]) := rfl
  rw [Loop.result_run (extensions_tracks registry region) Nat.zero_lt_two (Nat.zero_le _) hrounds,
    Reading.gather_append hadd]
  rfl

theorem extensionList_tracks (registry : Registry) {data : Bytes}
    (hrounds : data.length / 2 < rounds) :
    Tracks data (extensionList rounds registry data) (ExtensionList.decode registry data) := by
  by_cases hshort : data.length < 2
  · rw [extensionList, if_pos hshort, ExtensionList.decode, ExtensionList.cutBody,
      Bytes.cutNat?_eq_none_iff.2 hshort]
    exact .of_error _
  obtain ⟨a, b, left, rfl⟩ := Bytes.exists_eq_cons_cons (Nat.le_of_not_lt hshort)
  rw [extensionList, if_neg hshort, Bytes.uint16At_zero, ok_bind, ExtensionList.decode,
    ExtensionList.cutBody, Bytes.cutNat?_cons_cons, orFault_some, ok_bind]
  dsimp only
  by_cases hzero : UInt16.ofNat (Bytes.toNat [a, b]) = 0
  · -- The short way out for an empty list gives what an empty region gives.
    have hlength := (Bytes.ofNat_two_eq_zero_iff a b).1 hzero
    have hcut : Bytes.cut? 0 left = some (⟨[], rfl⟩, left) :=
      Bytes.cut?_eq_some_iff.2 rfl
    have hread : ExtensionList.readBody registry [] = ⟨[], none⟩ := ItemReader.readAll_nil _
    rw [if_pos hzero, hlength, hcut, orFault_some, ok_bind, pure_bind]
    dsimp only
    rw [hread]
    exact .of_ok (by simp) rfl
  rw [if_neg hzero, Bytes.toNat_ofNat_two]
  generalize Bytes.toNat [a, b] = length
  have hstart : 2 ≤ (a :: b :: left).length := Nat.le_of_not_lt hshort
  cases hcut : Bytes.cut? length left with
  | none =>
    rw [if_pos (Bytes.length_lt_of_cut?_eq_none hstart hcut)]
    exact .of_error _
  | some found =>
    obtain ⟨body, rest⟩ := found
    obtain ⟨hstop, hrest⟩ := Bytes.drop_of_cut? hstart hcut
    have hbody : (Bytes.slice (a :: b :: left) 2 (2 + length) :
        Attempt ExtensionDecodeError Bytes) = .ok body.val := Bytes.slice_of_cut? hstart hcut
    have hregion : body.val.length / 2 < rounds := by
      rw [body.property]
      omega
    rw [if_neg (Nat.not_lt.2 hstop), hbody, ok_bind, result_extensions hregion, orFault_some,
      ok_bind, pure_bind]
    dsimp only
    cases (ExtensionList.readBody registry body.val).toExcept with
    | error error => exact .of_error _
    | ok items => exact .of_ok hstop hrest

end Extensions

end Esni.Indexed
