import Esni.Extension.Kinds
import Esni.Proofs.ExtensionCodec

/-!
# Which kinds of extensions are read back

Address sets, markers, notes and raw data are exact: their decoders accept only what the value
that they give would be written as. They are also faithful where they are registered under their
own types, as long as a buffer has room for their payloads; notes only up to 255 bytes, since the
length of a longer one loses its high part. Size claims are neither and are left out.

## Main definitions

- `Registry.extendedExact` — the standard registry with the exact kinds added
- `Extension.Plain` — the extensions that this registry reads back

## Main statements

- `Registry.exact_extendedExact` and `Registry.exact_standard` — both registries are exact
- `Extension.Plain.faithful` — plain extensions are read back
-/

namespace Esni

/-- The standard registry with markers, notes and raw data added under their own types. -/
def Registry.extendedExact : Registry where
  entries :=
    [(Raw.defaultType, .of Raw (ExtensionKind.kind Raw)),
      (Note.type, .of Note (ExtensionKind.kind Note)),
      (Marker.type, .of Marker (ExtensionKind.kind Marker)),
      (AddressSet.type, .of AddressSet AddressSet.name)]
  distinct := by simp [AddressSet.type, Marker.type, Note.type, Raw.defaultType]

/-- The registry is what three registrations make of the standard one. -/
theorem Registry.register_eq_extendedExact :
    (do
      let registry ← Registry.standard.register Marker.type (.of Marker (ExtensionKind.kind Marker))
      let registry ← registry.register Note.type (.of Note (ExtensionKind.kind Note))
      registry.register Raw.defaultType (.of Raw (ExtensionKind.kind Raw))) =
        .ok Registry.extendedExact := rfl

theorem Registration.of_decode_eq_ok_iff {α : Type} [ExtensionKind α] {name : String}
    {data : Bytes} {extension : Extension} :
    (Registration.of α name).decode data = .ok extension ↔
      ∃ value : α, ExtensionKind.decode data = .ok value ∧ Extension.of value = extension := by
  show (ExtensionKind.decode data : Except PayloadError α).map Extension.of = _ ↔ _
  cases (ExtensionKind.decode data : Except PayloadError α) <;> simp [Except.map]

/-- A size that a buffer can have is one that a word can tell. -/
theorem Size.toNat_ofNat {n : Nat} (h : n ≤ maxCapacity) : (UInt64.ofNat n).toNat = n :=
  UInt64.toNat_ofNat_of_lt' (Nat.lt_of_le_of_lt h (by decide))

namespace Extension

theorem writtenAs_append {type : ExtensionType} {rest : Bytes} {extension : Extension}
    (htype : extension.type = type)
    (hlength : extension.payload.length = extension.payloadLength.toNat)
    (hrest : extension.consumesRest = true → rest = []) :
    extension.WrittenAs type (extension.payload ++ rest) where
  type_eq := htype
  payloadLength_le := by
    rw [List.length_append, hlength]
    exact Nat.le_add_right _ _
  payload_eq := by rw [← hlength, List.take_left]
  takes_all htakes := by rw [hrest htakes, List.append_nil, hlength]

theorem faithful_of {α : Type} [ExtensionKind α] {registry : Registry} {name : String} {value : α}
    (hlookup : registry.lookup? (ExtensionKind.type value) = some (.of α name))
    (hroom : (ExtensionKind.payload value).length ≤ Size.maxCapacity)
    (hlength : (ExtensionKind.payload value).length = (ExtensionKind.payloadLength value).toNat)
    (hdecode : ∀ rest, (ExtensionKind.consumesRest value = true → rest = []) →
      ExtensionKind.decode (ExtensionKind.payload value ++ rest) = .ok value) :
    (Extension.of value).Faithful registry where
  length_payload := hlength
  reads_back := by
    refine ⟨.of α name, hlookup, fun rest hrest => ⟨.of value, ?_, ?_, rfl⟩⟩
    · exact Registration.of_decode_eq_ok_iff.2 ⟨value, hdecode rest hrest, rfl⟩
    · exact beq_iff.2 ⟨rfl, Nat.le_trans (Nat.le_of_eq hlength.symm) hroom⟩

end Extension

namespace Address

theorem read_wire_append (address : Address) (rest : Bytes) :
    read (address.wire ++ rest) = .ok (address, rest) := by
  cases address with
  | ipv4 octets =>
    rw [wire, List.cons_append, read, family, Address.octets, if_pos rfl,
      Bytes.cut?_append octets.property]
    rfl
  | ipv6 octets =>
    have hfamily : ipv6Family ≠ ipv4Family := by decide
    rw [wire, List.cons_append, read, family, Address.octets, if_neg hfamily, if_pos rfl,
      Bytes.cut?_append octets.property]
    rfl

theorem reader_read_eq_ok_iff {data rest : Bytes} {address : Address} :
    reader.read data = .ok (address, rest) ↔ True ∧ data = address.wire ++ rest := by
  rw [true_and]
  constructor
  · exact eq_wire_append_of_read
  · rintro rfl
    exact read_wire_append address rest

end Address

namespace AddressSet

theorem length_payload (set : AddressSet) : set.payload.length = set.payloadLength :=
  length_flatMap_eq_totalLength fun address _ => address.length_wire

theorem decode_eq_ok_iff {data : Bytes} {set : AddressSet} :
    decode data = .ok set ↔ data = set.payload := by
  have hread : Address.reader.readAll data = ⟨set.addresses, none⟩ ↔ _ :=
    Address.reader.readAll_eq_iff Address.reader_read_eq_ok_iff
  rw [decode, bind_eq_ok_iff]
  constructor
  · rintro ⟨addresses, haddresses, hset⟩
    cases hset
    exact (hread.1 (Reading.toExcept_eq_ok_iff.1 haddresses)).2
  · intro hdata
    exact ⟨set.addresses,
      Reading.toExcept_eq_ok_iff.2 (hread.2 ⟨fun _ _ => trivial, hdata⟩), rfl⟩

theorem kind_decode_eq_ok_iff {data : Bytes} {set : AddressSet} :
    ExtensionKind.decode data = .ok set ↔ data = set.payload :=
  mapError_eq_ok_iff.trans decode_eq_ok_iff

theorem length_payload_of (set : AddressSet) (hroom : set.payload.length ≤ Size.maxCapacity) :
    (Extension.of set).payload.length = (Extension.of set).payloadLength.toNat := by
  rw [length_payload] at hroom
  exact set.length_payload.trans (Size.toNat_ofNat hroom).symm

theorem exact (name : String) : (Registration.of AddressSet name).Exact type := by
  intro data extension hdata h
  obtain ⟨set, hdecode, rfl⟩ := Registration.of_decode_eq_ok_iff.1 h
  obtain rfl := kind_decode_eq_ok_iff.1 hdecode
  have hwritten : (Extension.of set).WrittenAs type ((Extension.of set).payload ++ []) :=
    Extension.writtenAs_append rfl (set.length_payload_of hdata) (fun _ => rfl)
  rwa [List.append_nil] at hwritten

theorem faithful {registry : Registry} {name : String}
    (hlookup : registry.lookup? type = some (.of AddressSet name)) {set : AddressSet}
    (hroom : set.payload.length ≤ Size.maxCapacity) : (Extension.of set).Faithful registry := by
  refine Extension.faithful_of hlookup hroom (set.length_payload_of hroom) fun rest hrest => ?_
  rw [hrest rfl, List.append_nil]
  exact kind_decode_eq_ok_iff.2 rfl

end AddressSet

namespace Marker

theorem decode_eq_ok_iff {data : Bytes} {marker : Marker} :
    decode data = .ok marker ↔ ∃ rest, data = Bytes.ofUInt16 marker.value ++ rest := by
  rw [decode, bind_eq_ok_iff]
  constructor
  · rintro ⟨⟨value, rest⟩, hcut, hmarker⟩
    cases hmarker
    exact ⟨rest, Bytes.cutUInt16?_eq_some_iff.1 (orFault_eq_ok_iff.1 hcut)⟩
  · rintro ⟨rest, rfl⟩
    exact ⟨(marker.value, rest), by rw [Bytes.cutUInt16?_append, orFault_some], rfl⟩

theorem exact (name : String) : (Registration.of Marker name).Exact type := by
  intro data extension _ h
  obtain ⟨marker, hdecode, rfl⟩ := Registration.of_decode_eq_ok_iff.1 h
  obtain ⟨rest, rfl⟩ := decode_eq_ok_iff.1 hdecode
  show (Extension.of marker).WrittenAs type ((Extension.of marker).payload ++ rest)
  exact Extension.writtenAs_append rfl (Bytes.length_ofUInt16 _) (fun htakes => nomatch htakes)

theorem faithful {registry : Registry} {name : String}
    (hlookup : registry.lookup? type = some (.of Marker name)) (marker : Marker) :
    (Extension.of marker).Faithful registry := by
  have hlength : (ExtensionKind.payload marker).length = 2 := Bytes.length_ofUInt16 _
  refine Extension.faithful_of hlookup ?_ hlength fun rest _ => decode_eq_ok_iff.2 ⟨rest, rfl⟩
  rw [hlength, Size.maxCapacity]
  omega

end Marker

namespace Note

theorem decode_eq_ok_iff {data : Bytes} {note : Note} :
    decode data = .ok note ↔ note.bytes.length < 256 ∧ ∃ rest, data = note.payload ++ rest := by
  constructor
  · intro h
    cases data with
    | nil => cases h
    | cons length data =>
      rw [decode, bind_eq_ok_iff] at h
      obtain ⟨⟨bytes, rest⟩, hcut, hnote⟩ := h
      cases hnote
      obtain rfl := Bytes.cut?_eq_some_iff.1 (orFault_eq_ok_iff.1 hcut)
      have hlength := bytes.property
      refine ⟨?_, rest, ?_⟩
      · rw [hlength]
        exact length.toNat_lt
      · rw [payload, hlength, UInt8.ofNat_toNat]
        rfl
  · rintro ⟨hshort, rest, rfl⟩
    have hlength : (UInt8.ofNat note.bytes.length).toNat = note.bytes.length := by
      rw [UInt8.toNat_ofNat', Nat.mod_eq_of_lt hshort]
    rw [payload, List.cons_append, decode, Bytes.cut?_append hlength.symm]
    rfl

theorem length_payload_of {note : Note} (h : note.bytes.length < 256) :
    (Extension.of note).payload.length = (Extension.of note).payloadLength.toNat := by
  have hroom : 1 + note.bytes.length ≤ Size.maxCapacity := by
    unfold Size.maxCapacity
    omega
  exact (Nat.add_comm _ _).trans (Size.toNat_ofNat hroom).symm

theorem exact (name : String) : (Registration.of Note name).Exact type := by
  intro data extension _ h
  obtain ⟨note, hdecode, rfl⟩ := Registration.of_decode_eq_ok_iff.1 h
  obtain ⟨hshort, rest, rfl⟩ := decode_eq_ok_iff.1 hdecode
  show (Extension.of note).WrittenAs type ((Extension.of note).payload ++ rest)
  exact Extension.writtenAs_append rfl (length_payload_of hshort) (fun htakes => nomatch htakes)

theorem faithful {registry : Registry} {name : String}
    (hlookup : registry.lookup? type = some (.of Note name)) {note : Note}
    (h : note.bytes.length < 256) : (Extension.of note).Faithful registry := by
  have hroom : note.payload.length ≤ Size.maxCapacity := by
    rw [payload, List.length_cons, Size.maxCapacity]
    omega
  exact Extension.faithful_of hlookup hroom (length_payload_of h) fun rest _ =>
    decode_eq_ok_iff.2 ⟨h, rest, rfl⟩

end Note

namespace Raw

theorem exact (name : String) : (Registration.of Raw name).Exact defaultType := by
  intro data extension hdata h
  obtain ⟨raw, hdecode, rfl⟩ := Registration.of_decode_eq_ok_iff.1 h
  cases hdecode
  let raw : Raw := { fresh with bytes := data }
  have hwritten : (Extension.of raw).WrittenAs defaultType ((Extension.of raw).payload ++ []) :=
    Extension.writtenAs_append rfl (Size.toNat_ofNat hdata).symm (fun _ => rfl)
  rwa [List.append_nil] at hwritten

theorem faithful {registry : Registry} {name : String}
    (hlookup : registry.lookup? defaultType = some (.of Raw name)) {data : Bytes}
    (hroom : data.length ≤ Size.maxCapacity) :
    (Extension.of { fresh with bytes := data }).Faithful registry := by
  refine Extension.faithful_of hlookup hroom (Size.toNat_ofNat hroom).symm fun rest hrest => ?_
  rw [hrest rfl, List.append_nil]
  rfl

end Raw

namespace Extension

/-- The extensions that are read back under their own types: address sets, markers, notes that
their length byte can tell, and raw data that takes the rest. -/
inductive Plain : Extension → Prop where
  | addressSet (set : AddressSet) : Plain (.of set)
  | marker (marker : Marker) : Plain (.of marker)
  | note (note : Note) (short : note.bytes.length < 256) : Plain (.of note)
  | raw (data : Bytes) : Plain (.of { Raw.fresh with bytes := data })

theorem Plain.faithful {extension : Extension} (h : extension.Plain)
    (hroom : extension.payload.length ≤ Size.maxCapacity) : extension.Faithful .extendedExact := by
  cases h with
  | addressSet set => exact AddressSet.faithful rfl hroom
  | marker marker => exact Marker.faithful rfl marker
  | note note short => exact Note.faithful rfl short
  | raw data => exact Raw.faithful rfl hroom

end Extension

namespace Registry

theorem exact_standard : Registry.standard.Exact := by
  apply exact_of_entries
  intro entry hmem
  obtain rfl := List.mem_singleton.1 hmem
  exact AddressSet.exact _

theorem exact_extendedExact : Registry.extendedExact.Exact := by
  apply exact_of_entries
  intro entry hmem
  simp only [extendedExact, List.mem_cons, List.not_mem_nil, or_false] at hmem
  rcases hmem with rfl | rfl | rfl | rfl
  · exact Raw.exact _
  · exact Note.exact _
  · exact Marker.exact _
  · exact AddressSet.exact _

end Registry

end Esni
