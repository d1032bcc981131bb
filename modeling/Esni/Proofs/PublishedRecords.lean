import Esni.Proofs.Base64Codec
import Esni.Proofs.DumpOutcome

/-!
# Dumps of published records

A record is published as the base64 text of its encoding, and a tool prints this text in one or
more quoted strings. The value of what is printed is the text again, the bytes of the text are the
encoding again, and the encoding is read as the normal form of the record. What the normal form
lacks is not in the description either, so the dump of a published record is its own description.

## Main statements

- `Record.decode_encode_addressSets` — address sets come back with their contents
- `Record.describeWith_normal` — the normal form is described as the record
- `dump_withHex` — a hex dump is put in front of a dump and changes nothing else
- `dump_published` — the dump of what a tool prints
-/

namespace Esni

/-! ### Reading the encoding -/

/-- The standard registry reads an address set as the same value, at the end of a list. -/
theorem AddressSet.readsBack {set : AddressSet} (hroom : set.payload.length ≤ Size.maxCapacity) :
    DecodedExtension.ReadsBack .standard id (Extension.of set) [] := by
  have hlookup : Registry.standard.lookup? (Extension.of set).type =
      some (.of AddressSet AddressSet.name) := rfl
  have hdecode : (Registration.of AddressSet AddressSet.name).decode
      ((Extension.of set).payload ++ []) = .ok (Extension.of set) := by
    rw [List.append_nil]
    exact Registration.of_decode_eq_ok_iff.2 ⟨set, kind_decode_eq_ok_iff.2 rfl, rfl⟩
  exact DecodedExtension.readsBack_of_decode hlookup hdecode (set.length_payload_of hroom).symm rfl

theorem ExtensionList.decode_encode_addressSets [Build] {list : ExtensionList} {bytes : Bytes}
    {offset : Nat} (hsets : ∀ extension ∈ list, ∃ set : AddressSet, extension = .of set)
    (h : encode offset list = .ok bytes) : decode .standard bytes = .ok (list, []) := by
  have hroom := length_payload_le_of_encode h
  have hlength : ∀ extension ∈ list,
      extension.payload.length = extension.payloadLength.toNat := by
    intro extension hmem
    obtain ⟨set, rfl⟩ := hsets extension hmem
    exact set.length_payload_of (hroom _ hmem)
  have hreads : ∀ extension ∈ list, ∀ rest, (extension.consumesRest = true → rest = []) →
      DecodedExtension.ReadsBack .standard id extension rest := by
    intro extension hmem rest hrest
    obtain ⟨set, rfl⟩ := hsets extension hmem
    rw [hrest rfl]
    exact AddressSet.readsBack (hroom _ hmem)
  obtain ⟨decoded, hdecode, hsame⟩ := decode_append_of_readsBack hlength hreads h []
  rw [List.append_nil, ← List.map_id decoded, hsame, List.map_id] at hdecode
  exact hdecode

namespace Record

variable {record : Record} {bytes : Bytes}

/-- The normal form of a record with whole seconds shows the same fields. -/
theorem shownFields_normal (names : Registry) (h : record.wholeSeconds = record) :
    record.normal.shownFields names = record.shownFields names := by
  have hbefore : record.wholeSeconds.notBefore = record.notBefore := by rw [h]
  have hafter : record.wholeSeconds.notAfter = record.notAfter := by rw [h]
  have hversion : record.normal.version = record.version := rfl
  unfold shownFields
  rw [hversion, ← hbefore, ← hafter]
  by_cases hname : record.version.hasPublicName = true
  · rw [if_pos hname, if_pos hname, normal, if_pos hname]
    rfl
  · rw [if_neg hname, if_neg hname]
    rfl

variable [Build]

/-- The encoding of a record with address sets is read as its normal form. -/
theorem decode_encode_addressSets
    (hsets : ∀ extension ∈ record.extensions, ∃ set : AddressSet, extension = .of set)
    (h : record.encode = .ok bytes) : decode .standard bytes = .ok record.normal := by
  obtain ⟨body, hbody, rfl⟩ := encode_eq_ok_iff.1 h
  obtain ⟨_, front, wire, hfront, hextensions, rfl⟩ := encodeBody_eq_ok_iff.1 hbody
  rw [decode_sealed_front hfront, ExtensionList.decode_encode_addressSets hsets hextensions,
    mapError_ok, ok_bind]
  -- The normal form has the extensions of the record already.
  exact if_pos rfl

/-- A record that was written is described with the checksum in its encoding. -/
theorem describeWith_of_encode (h : record.encode = .ok bytes) (names : Registry) :
    record.describeWith names = .ok ("\x7b" ++ ", ".intercalate
      (["Version:" ++ record.version.text, "Checksum:" ++ Bytes.digits ((bytes.drop 2).take 4)] ++
        record.shownFields names) ++ "\x7d") := by
  obtain ⟨body, hbody, rfl⟩ := encode_eq_ok_iff.1 h
  exact (spelledBy_sealed hbody).describeWith_eq names

/-- A description shows nothing that the normal form of a record lacks, unless it is the fraction of
a second. -/
theorem describeWith_normal (h : record.encode = .ok bytes)
    (hseconds : record.wholeSeconds = record) (names : Registry) :
    record.normal.describeWith names = record.describeWith names := by
  obtain ⟨body, hbody, rfl⟩ := encode_eq_ok_iff.1 h
  have hnormal : record.normal.encode = .ok (sealed record.version.code body) :=
    (writtenAlike_normal hbody).1.trans h
  rw [describeWith_of_encode hnormal, describeWith_of_encode h, shownFields_normal names hseconds]
  rfl

end Record

/-! ### Dumps -/

theorem recordBytes_text (data : Bytes) : recordBytes (Base64.text data) = .ok data := by
  rw [recordBytes, Base64.toUTF8_text, Base64.decode_encode]

section Outcomes

variable [Build]

/-- A hex dump is put in front of a dump that succeeds, and nothing else changes. -/
theorem dump_withHex (registry : Registry) (text : String) :
    (∀ error, dump registry true text = .error error ↔ dump registry false text = .error error) ∧
    ∀ shown, dump registry false text = .ok shown →
      ∃ data, recordBytes text = .ok data ∧
        dump registry true text = .ok (hexDump data ++ "\n" ++ shown) := by
  cases hbytes : recordBytes text with
  | error fault => simp [dump_of_recordBytes hbytes]
  | ok data =>
    cases hdecode : Record.decode registry data with
    | error fault => simp [dump_of_decode_eq_error hbytes hdecode]
    | ok record =>
      cases hshown : record.describeWith registry with
      | error cause => simp [dump_of_panic hbytes hdecode hshown]
      | ok shown => simp [dump_of_describeWith hbytes hdecode hshown]

theorem Record.ne_nil_of_encode {record : Record} {bytes : Bytes} (h : record.encode = .ok bytes) :
    bytes ≠ [] := by
  obtain ⟨body, _, rfl⟩ := encode_eq_ok_iff.1 h
  apply List.ne_nil_of_length_pos
  rw [sealed, List.length_append, List.length_append, Bytes.length_ofUInt16]
  omega

/-- **A published record is dumped as itself.** However a tool prints the text of a record with
whole seconds and address sets, the value is the text, and its dump is the description of the record
from before it was written, behind a hex dump of its encoding if one is asked for. The record that
is read has the same description, though it may lack a public name. The description shows every
field of the record, and the checksum in its encoding. For any text and registry, asking for the hex
dump turns no success into a failure and changes no error. -/
theorem dump_published {record : Record} {bytes : Bytes} (hseconds : record.wholeSeconds = record)
    (hsets : ∀ extension ∈ record.extensions, ∃ set : AddressSet, extension = .of set)
    (h : record.encode = .ok bytes) :
    (∀ printed, PrintedAs (Base64.text bytes).toList printed →
      txtValue? (String.ofList printed) = some (Base64.text bytes)) ∧
    (∃ shown, record.describe = .ok shown ∧
      dump .standard false (Base64.text bytes) = .ok shown ∧
      dump .standard true (Base64.text bytes) = .ok (hexDump bytes ++ "\n" ++ shown) ∧
      (∃ decoded, Record.decode .standard bytes = .ok decoded ∧ decoded.describe = .ok shown) ∧
      shown = "\x7b" ++ ", ".intercalate
        (["Version:" ++ record.version.text,
          "Checksum:" ++ Bytes.digits ((bytes.drop 2).take 4)] ++
          record.shownFields .standard) ++ "\x7d") ∧
    ∀ (registry : Registry) (text : String),
      (∀ error, dump registry true text = .error error ↔
        dump registry false text = .error error) ∧
      ∀ shown, dump registry false text = .ok shown →
        ∃ data, recordBytes text = .ok data ∧
          dump registry true text = .ok (hexDump data ++ "\n" ++ shown) := by
  have hdecode := Record.decode_encode_addressSets hsets h
  have hdescribe := Record.describeWith_of_encode h .standard
  have hnormal : record.normal.describe = .ok _ :=
    (Record.describeWith_normal h hseconds .standard).trans hdescribe
  have hdump := dump_of_describeWith (recordBytes_text bytes) hdecode hnormal
  refine ⟨fun printed hprinted => ?_,
    ⟨_, hdescribe, ?_, hdump true, ⟨_, hdecode, hnormal⟩, rfl⟩, dump_withHex⟩
  · have hvalue := txtValue?_of_printedAs
      (Base64.toList_text_ne_nil (Record.ne_nil_of_encode h)) (Base64.visible_text bytes) hprinted
    rwa [String.ofList_toList] at hvalue
  · rw [hdump false, if_neg Bool.false_ne_true, String.empty_append]

end Outcomes

/-- A record with whole seconds and an address set. Its public name is left out of its encoding. -/
def Record.published : Record :=
  { Record.sample with
    notAfter := .startOf 59 (by decide)
    extensions := [.of (AddressSet.mk [.ipv4 ⟨[192, 0, 2, 1], rfl⟩])] }

theorem Record.encode_published :
    Record.published.encode = .ok (Record.sealed 0xff01
      (Record.sampleBody.take 31 ++ [0, 7, 0x10, 1, 4, 192, 0, 2, 1])) := rfl

/-- The text in two strings, the way a resolver gives it, and without quotes. -/
theorem dump_published_split :
    let bytes := Record.sealed 0xff01
      (Record.sampleBody.take 31 ++ [0, 7, 0x10, 1, 4, 192, 0, 2, 1])
    let text := (Base64.text bytes).toList
    txtValue? (String.ofList (quotedText [] [⟨text.take 20, [' ']⟩, ⟨text.drop 20, ['\n']⟩])) =
        some (Base64.text bytes) ∧
      ∃ shown, Record.published.describe = .ok shown ∧
        dump .standard false (Base64.text bytes) = .ok shown := by
  intro bytes text
  have hsets : ∀ extension ∈ Record.published.extensions,
      ∃ set : AddressSet, extension = .of set := by
    intro extension hmem
    exact ⟨_, List.mem_singleton.1 hmem⟩
  have hseconds : Record.published.wholeSeconds = Record.published := rfl
  obtain ⟨hvalue, ⟨shown, hdescribe, hdump, _⟩, _⟩ :=
    dump_published hseconds hsets Record.encode_published
  refine ⟨hvalue _ (.quoted ?_ ?_ ?_), shown, hdescribe, hdump⟩
  · intro c hc
    exact absurd hc List.not_mem_nil
  · intro string hstring c hc
    rw [List.mem_cons, List.mem_singleton] at hstring
    rcases hstring with rfl | rfl
    · obtain rfl := List.mem_singleton.1 hc
      decide
    · obtain rfl := List.mem_singleton.1 hc
      decide
  · rw [List.flatMap_cons, List.flatMap_singleton]
    exact List.take_append_drop 20 text

end Esni
