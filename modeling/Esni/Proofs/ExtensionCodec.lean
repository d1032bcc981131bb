import Esni.Extension.List
import Esni.Proofs.CipherSuiteCodec

/-!
# Extensions on the wire

A payload has no length on the wire, so what a list of extensions is read as depends on the
decoders of the registry. Two properties of decoders carry the round trips. A decoder reads an
extension *faithfully* if it gives back what the extension has written, whatever may follow it.
A registry is *exact* if every extension that it reads was written as the data that it was read
from. Neither follows from the other, and a decoder need have none of them.

## Main definitions

- `Extension.look` — what equality and the list codec see of an extension
- `Extension.Comparable` — an extension that can be compared with itself
- `Extension.Faithful` — an extension that the registry reads back
- `Registry.Exact` — a registry that reads only what would be written
- `DecodedExtension.ReadsBack` — an extension that is read back in front of some data, in a view

## Main statements

- `ExtensionList.readBody_flatMap_append` — extensions in front of any other data
- `ExtensionList.decode_encode_append` — a list of faithful extensions is read back
- `ExtensionList.encode_of_decode` — what an exact registry reads is written as it was
-/

namespace Esni

namespace Extension

/-- What equality sees of an extension. -/
def face (extension : Extension) : ExtensionType × UInt64 × Bytes :=
  (extension.type, extension.payloadLength, extension.payload)

/-- What the list codec sees of an extension: also whether it takes the rest. -/
def look (extension : Extension) : (ExtensionType × UInt64 × Bytes) × Bool :=
  (extension.face, extension.consumesRest)

/-- There are buffers of the length that the extension reports. -/
def Comparable (extension : Extension) : Prop :=
  extension.payloadLength.toNat ≤ Size.maxCapacity

/-- An extension that writes nothing and reports any length. -/
def boast (reported : UInt64) : Extension := ⟨"boast", ⟨0x0999⟩, reported, [], false, ""⟩

theorem compare_of_comparable {a : Extension} (h : a.Comparable) (b : Extension) :
    a.compare b = .ok (decide (a.face = b.face)) := by
  rw [compare, Size.allocate_eq_ok_iff.2 h]
  by_cases htype : a.type = b.type ∧ a.payloadLength = b.payloadLength
  · rw [if_pos htype]
    exact congrArg Except.ok (decide_eq_decide.2 (by simp [face, htype]))
  · rw [if_neg htype]
    exact congrArg Except.ok (decide_eq_false fun h => htype (by simp_all [face])).symm

/-- Extensions of the same type and the same reported length are not compared if there are no
buffers of this length. -/
theorem compare_of_not_comparable {a : Extension} (h : ¬a.Comparable) (b : Extension) :
    a.compare b = if a.type = b.type ∧ a.payloadLength = b.payloadLength then .error .capacity
      else .ok false := by
  have hallocate : Size.allocate a.payloadLength.toNat = .error .capacity := if_neg h
  rw [compare, hallocate]
  rfl

theorem beq_iff_compare {a b : Extension} : (a == b) = true ↔ a.compare b = .ok true :=
  affirmed_eq_true_iff

theorem beq_iff {a b : Extension} : (a == b) = true ↔ a.face = b.face ∧ a.Comparable := by
  rw [beq_iff_compare]
  by_cases h : a.Comparable
  · simp [compare_of_comparable h, h]
  · rw [compare_of_not_comparable h]
    split <;> simp [h]

theorem look_eq_of_beq {a b : Extension} (h : (a == b) = true)
    (hends : a.consumesRest = b.consumesRest) : a.look = b.look :=
  Prod.ext (beq_iff.1 h).1 hends

/-- The registry reads the extension back from what it writes, whatever follows it; nothing
follows an extension that takes the rest. -/
structure Faithful (registry : Registry) (extension : Extension) : Prop where
  length_payload : extension.payload.length = extension.payloadLength.toNat
  reads_back : ∃ registration, registry.lookup? extension.type = some registration ∧
    ∀ rest, (extension.consumesRest = true → rest = []) →
      ∃ decoded, registration.decode (extension.payload ++ rest) = .ok decoded ∧
        (decoded == extension) = true ∧ decoded.consumesRest = extension.consumesRest

/-- The extension is what the front of the data says: it would be written as the type and as
many bytes of the data as it reports, which are all of them if it takes the rest. -/
structure WrittenAs (type : ExtensionType) (data : Bytes) (extension : Extension) : Prop where
  type_eq : extension.type = type
  payloadLength_le : extension.payloadLength.toNat ≤ data.length
  payload_eq : extension.payload = data.take extension.payloadLength.toNat
  takes_all : extension.consumesRest = true → extension.payloadLength.toNat = data.length

end Extension

/-- Whatever the decoder accepts is written as the data that it was read from. The data is no longer
than a buffer can be. -/
def Registration.Exact (type : ExtensionType) (registration : Registration) : Prop :=
  ∀ data extension, data.length ≤ Size.maxCapacity → registration.decode data = .ok extension →
    extension.WrittenAs type data

namespace Registry

/-- All decoders of the registry are exact for the type that they are registered under. -/
def Exact (registry : Registry) : Prop :=
  ∀ type registration, registry.lookup? type = some registration → registration.Exact type

theorem exact_of_entries {registry : Registry}
    (h : ∀ entry ∈ registry.entries, entry.2.Exact entry.1) : registry.Exact := by
  intro type registration hlookup
  obtain ⟨⟨type', registration'⟩, hfind, hpair⟩ := Option.map_eq_some_iff.1 hlookup
  cases hpair
  obtain rfl : type' = type := by simpa using List.find?_some hfind
  exact h _ (List.mem_of_find?_eq_some hfind)

end Registry

namespace DecodedExtension

variable {registry : Registry} {data rest : Bytes} {item : DecodedExtension}

/-- What one step of the reader does: the registered decoder sees all the data behind the
identifier, and the extension that it gives says where the next one starts. -/
theorem read_eq_ok_iff :
    read registry data = .ok (item, rest) ↔
      ∃ code payload registration, data = Bytes.ofUInt16 code ++ payload ∧
        registry.lookup? ⟨code⟩ = some registration ∧
        registration.decode payload = .ok item.extension ∧ item.name = registration.name ∧
        item.extension.payloadLength.toNat ≤ payload.length ∧
        rest = payload.drop item.extension.payloadLength.toNat := by
  constructor
  · intro h
    rw [read, bind_eq_ok_iff] at h
    obtain ⟨⟨code, payload⟩, hcode, h⟩ := h
    obtain rfl := Bytes.cutUInt16?_eq_some_iff.1 (orFault_eq_ok_iff.1 hcode)
    rw [bind_eq_ok_iff] at h
    obtain ⟨registration, hlookup, h⟩ := h
    rw [bind_eq_ok_iff] at h
    obtain ⟨extension, hdecode, h⟩ := h
    rw [bind_eq_ok_iff] at h
    obtain ⟨⟨front, left⟩, hcut, h⟩ := h
    cases h
    have hpayload := Bytes.cut?_eq_some_iff.1 (orFault_eq_ok_iff.1 hcut)
    refine ⟨code, payload, registration, rfl, orFault_eq_ok_iff.1 hlookup,
      mapError_eq_ok_iff.1 hdecode, rfl, ?_, ?_⟩
    · rw [hpayload, List.length_append, front.property]
      exact Nat.le_add_right _ _
    · rw [hpayload, List.drop_left' front.property]
  · rintro ⟨code, payload, registration, rfl, hlookup, hdecode, hname, hlength, rfl⟩
    obtain ⟨name, extension⟩ := item
    obtain rfl : name = registration.name := hname
    have hcut : Bytes.cut? extension.payloadLength.toNat payload =
        some (⟨payload.take extension.payloadLength.toNat, List.length_take_of_le hlength⟩,
          payload.drop extension.payloadLength.toNat) :=
      Bytes.cut?_eq_some_iff.2 (List.take_append_drop _ _).symm
    rw [read, Bytes.cutUInt16?_append, orFault_some, ok_bind]
    dsimp only
    rw [hlookup, orFault_some, ok_bind, hdecode, mapError_ok, ok_bind, hcut, orFault_some,
      ok_bind]
    rfl

/-- In front of `rest` the registry reads the extension back, as one that is the same in a view. -/
def ReadsBack {β : Type} (registry : Registry) (view : Extension → β) (extension : Extension)
    (rest : Bytes) : Prop :=
  ∃ item, read registry (extension.wire ++ rest) = .ok (item, rest) ∧
    view item.extension = view extension

/-- What a decoder reads as an extension that reports the length of the payload is read back, since
the reader goes on behind the payload. -/
theorem readsBack_of_decode {β : Type} {view : Extension → β} {extension decoded : Extension}
    {registration : Registration} (hlookup : registry.lookup? extension.type = some registration)
    (hdecode : registration.decode (extension.payload ++ rest) = .ok decoded)
    (hreported : decoded.payloadLength.toNat = extension.payload.length)
    (hview : view decoded = view extension) : ReadsBack registry view extension rest := by
  refine ⟨⟨registration.name, decoded⟩, read_eq_ok_iff.2 ?_, hview⟩
  refine ⟨extension.type.code, extension.payload ++ rest, registration, ?_, hlookup, hdecode, rfl,
    ?_, ?_⟩
  · rw [Extension.wire, List.append_assoc]
  · rw [hreported, List.length_append]
    exact Nat.le_add_right _ _
  · rw [hreported, List.drop_left]

theorem readsBack_of_faithful {extension : Extension} (h : extension.Faithful registry)
    (hrest : extension.consumesRest = true → rest = []) :
    ReadsBack registry Extension.look extension rest := by
  obtain ⟨registration, hlookup, hreads⟩ := h.reads_back
  obtain ⟨decoded, hdecode, hequal, htakes⟩ := hreads rest hrest
  have hlook := Extension.look_eq_of_beq hequal htakes
  have hreported : decoded.payloadLength.toNat = extension.payload.length := by
    rw [h.length_payload]
    exact congrArg (fun look => look.1.2.1.toNat) hlook
  exact readsBack_of_decode hlookup hdecode hreported hlook

/-- An extension takes its identifier and as many bytes as it reports. -/
theorem length_of_read (h : read registry data = .ok (item, rest)) :
    data.length = item.extension.encodedLength + rest.length := by
  obtain ⟨code, payload, _, rfl, _, _, _, hlength, rfl⟩ := read_eq_ok_iff.1 h
  rw [List.length_append, Bytes.length_ofUInt16, List.length_drop, Extension.encodedLength]
  omega

section Exactness

variable (hexact : registry.Exact) (hdata : data.length ≤ Size.maxCapacity)
include hexact hdata

theorem written_of_read (h : read registry data = .ok (item, rest)) :
    item.extension.payload.length = item.extension.payloadLength.toNat ∧
      data = item.extension.wire ++ rest := by
  obtain ⟨code, payload, registration, rfl, hlookup, hdecode, _, hlength, rfl⟩ :=
    read_eq_ok_iff.1 h
  rw [List.length_append] at hdata
  have hwritten := hexact _ _ hlookup _ _ (Nat.le_trans (Nat.le_add_left _ _) hdata) hdecode
  constructor
  · rw [hwritten.payload_eq, List.length_take_of_le hlength]
  · rw [Extension.wire, hwritten.type_eq, hwritten.payload_eq, List.append_assoc,
      List.take_append_drop]

theorem rest_eq_nil_of_read (h : read registry data = .ok (item, rest))
    (htakes : item.extension.consumesRest = true) : rest = [] := by
  obtain ⟨code, payload, registration, rfl, hlookup, hdecode, _, _, rfl⟩ := read_eq_ok_iff.1 h
  rw [List.length_append] at hdata
  have hwritten := hexact _ _ hlookup _ _ (Nat.le_trans (Nat.le_add_left _ _) hdata) hdecode
  exact List.drop_eq_nil_of_le (Nat.le_of_eq (hwritten.takes_all htakes).symm)

end Exactness

end DecodedExtension

namespace ExtensionList

variable {registry : Registry} {list : ExtensionList} {data rest bytes : Bytes}

section Comparison

variable {a b : ExtensionList}

/-- Lists of the same length are compared from the front, up to the first extensions that differ. -/
theorem compare_cons (first first' : Extension) (h : a.length = b.length) :
    compare (first :: a) (first' :: b) = do
      if ← first.compare first' then compare a b else return false := by
  rw [compare, if_pos (by simpa using h), compare, if_pos h, List.zip_cons_cons, List.allM]
  refine bind_congr fun same => ?_
  cases same <;> rfl

/-- Lists of different lengths are not looked into. -/
theorem compare_of_length_ne (h : a.length ≠ b.length) : compare a b = .ok false := if_neg h

theorem compare_eq_true_iff : compare a b = .ok true ↔ (a == b) = true := by
  induction a generalizing b with
  | nil =>
    cases b with
    | nil => exact iff_of_true rfl rfl
    | cons => exact iff_of_false (by simp [compare]) (by simp)
  | cons first others ih =>
    cases b with
    | nil => exact iff_of_false (by simp [compare]) (by simp)
    | cons first' others' =>
      rw [List.cons_beq_cons, Bool.and_eq_true, Extension.beq_iff_compare, ← ih]
      by_cases hlength : others.length = others'.length
      · rw [compare_cons first first' hlength]
        cases hfirst : first.compare first' with
        | error cause => simp [bind, Except.bind]
        | ok same => cases same <;> simp [bind, Except.bind, pure, Except.pure]
      · rw [compare_of_length_ne hlength, compare_of_length_ne (by simpa using hlength)]
        simp

theorem beq_iff :
    (a == b) = true ↔ a.map Extension.face = b.map Extension.face ∧
      ∀ extension ∈ a, extension.Comparable := by
  induction a generalizing b with
  | nil => cases b <;> simp
  | cons first others ih =>
    cases b with
    | nil => simp
    | cons first' others' =>
      rw [List.cons_beq_cons, Bool.and_eq_true, Extension.beq_iff, ih, List.map_cons, List.map_cons,
        List.cons.injEq, List.forall_mem_cons, and_and_and_comm]

end Comparison

theorem encodedLength_eq [Build] (list : ExtensionList) :
    encodedLength list = Size.ofNat (reportedLength list) := Size.total_eq _ _

/-- A list that is no longer than a word can tell has its reported length. -/
theorem encodedLength_of_lt [Build] (h : reportedLength list < Size.modulus) :
    encodedLength list = .ok (reportedLength list) := Size.total_of_lt h

theorem length_flatMap_wire
    (h : ∀ extension ∈ list, extension.payload.length = extension.payloadLength.toNat) :
    (list.flatMap Extension.wire).length = reportedLength list := by
  apply length_flatMap_eq_totalLength
  intro extension hmem
  rw [Extension.wire, List.length_append, Bytes.length_ofUInt16, h extension hmem]
  rfl

section Writing

variable [Build] {offset : Nat}

/-- What becomes of a list, once the reported length is known. The limits come in their order, and
room for the bytes comes last. -/
theorem encode_of_encodedLength {length : Nat} (h : encodedLength list = .ok length) :
    encode offset list =
      if maxLength < length then .error (.fault (.listTooLong length))
      else match list.dropLast.find? (·.consumesRest) with
        | some extension => .error (.fault (.unboundedNotLast extension.type))
        | none =>
          if offset + (2 + length) ≤ Size.maxCapacity ∧
              offset + (2 + (list.flatMap Extension.wire).length) ≤ Size.maxCapacity then
            .ok (Bytes.ofNat 2 length ++ list.flatMap Extension.wire)
          else .error (.panic .capacity) := by
  rw [encode, h, mapError_ok, ok_bind]
  split
  · rfl
  cases list.dropLast.find? (·.consumesRest) with
  | some extension => rfl
  | none =>
    dsimp only
    rw [List.length_append, Bytes.length_ofNat]
    unfold Size.allocate
    by_cases hroom : offset + (2 + length) ≤ Size.maxCapacity ∧
        offset + (2 + (list.flatMap Extension.wire).length) ≤ Size.maxCapacity
    · rw [if_pos hroom, if_pos hroom.1, if_pos hroom.2]
      rfl
    rw [if_neg hroom]
    by_cases hreserve : offset + (2 + length) ≤ Size.maxCapacity
    · have hwrite : ¬offset + (2 + (list.flatMap Extension.wire).length) ≤ Size.maxCapacity :=
        fun hwrite => hroom ⟨hreserve, hwrite⟩
      rw [if_pos hreserve, if_neg hwrite]
      rfl
    · rw [if_neg hreserve]
      rfl

/-- A list is written exactly if it is short enough by its own report, only the last extension takes
the rest, and the buffer has room for what is reported and for what is written. -/
theorem encode_eq_ok_iff :
    encode offset list = .ok bytes ↔
      ∃ length, encodedLength list = .ok length ∧ length ≤ maxLength ∧
        (∀ extension ∈ list.dropLast, extension.consumesRest = false) ∧
        bytes = Bytes.ofNat 2 length ++ list.flatMap Extension.wire ∧
        offset + (2 + length) ≤ Size.maxCapacity ∧ offset + bytes.length ≤ Size.maxCapacity := by
  cases hreported : encodedLength list with
  | error cause =>
    have hpanic : encode offset list = .error (.panic cause) := by
      rw [encode, hreported]
      rfl
    simp [hpanic]
  | ok length =>
    have hlast : (∀ extension ∈ list.dropLast, extension.consumesRest = false) ↔
        list.dropLast.find? (·.consumesRest) = none := by simp
    simp only [encode_of_encodedLength hreported, hlast, Except.ok.injEq, exists_eq_left']
    by_cases hlong : maxLength < length
    · rw [if_pos hlong]
      exact iff_of_false nofun fun h => Nat.not_lt_of_le h.1 hlong
    rw [if_neg hlong]
    cases list.dropLast.find? (·.consumesRest) with
    | some extension => exact iff_of_false nofun fun h => nomatch h.2.1
    | none =>
      constructor
      · intro h
        dsimp only at h
        split at h
        · rename_i hroom
          cases h
          rw [List.length_append, Bytes.length_ofNat]
          exact ⟨Nat.le_of_not_lt hlong, rfl, rfl, hroom⟩
        · cases h
      · rintro ⟨_, _, rfl, hroom⟩
        rw [List.length_append, Bytes.length_ofNat] at hroom
        exact if_pos hroom

/-- A list is appended exactly if it is written. -/
theorem encodeTo_eq_ok_iff {buffer written : Bytes} :
    encodeTo list buffer = .ok (written, none) ↔
      ∃ bytes, encode buffer.length list = .ok bytes ∧ written = buffer ++ bytes := by
  rw [encodeTo]
  cases encode buffer.length list with
  | ok bytes => simp [eq_comm]
  | error failure => cases failure <;> simp

/-- What a list really writes has room in a buffer, and so have the payloads. -/
theorem length_payload_le_of_encode (h : encode offset list = .ok bytes) :
    ∀ extension ∈ list, extension.payload.length ≤ Size.maxCapacity := by
  obtain ⟨_, _, _, _, rfl, _, hroom⟩ := encode_eq_ok_iff.1 h
  intro extension hmem
  have hwire : extension.wire.length ≤ (list.flatMap Extension.wire).length :=
    (List.sublist_flatten_of_mem (List.mem_map_of_mem hmem)).length_le
  rw [Extension.wire, List.length_append] at hwire
  rw [List.length_append] at hroom
  omega

/-- If the extensions write as much as they report, then a list that was written has the length that
they report: a sum that had lost its high part would be that of a list that no buffer has room
for. -/
theorem framed_of_encode
    (hlength : ∀ extension ∈ list, extension.payload.length = extension.payloadLength.toNat)
    (h : encode offset list = .ok bytes) :
    reportedLength list ≤ maxLength ∧
      (∀ extension ∈ list.dropLast, extension.consumesRest = false) ∧
      bytes = Bytes.framed 2 (list.flatMap Extension.wire) := by
  obtain ⟨length, hreported, hshort, hlast, rfl, _, hroom⟩ := encode_eq_ok_iff.1 h
  rw [List.length_append, length_flatMap_wire hlength] at hroom
  have hfits : reportedLength list < Size.modulus := by
    unfold Size.maxCapacity at hroom
    unfold Size.modulus
    omega
  rw [encodedLength_of_lt hfits] at hreported
  cases hreported
  exact ⟨hshort, hlast, by rw [Bytes.framed, length_flatMap_wire hlength]⟩

/-- A short list of extensions that write as much as they report is written behind anything that
leaves enough room. -/
theorem encode_of_reportedLength
    (hlength : ∀ extension ∈ list, extension.payload.length = extension.payloadLength.toNat)
    (hshort : reportedLength list ≤ maxLength)
    (hlast : ∀ extension ∈ list.dropLast, extension.consumesRest = false)
    (hroom : offset + (2 + maxLength) ≤ Size.maxCapacity) :
    encode offset list = .ok (Bytes.framed 2 (list.flatMap Extension.wire)) := by
  have hwire := length_flatMap_wire hlength
  have hfits : reportedLength list < Size.modulus := by
    unfold maxLength at hshort
    unfold Size.modulus
    omega
  refine encode_eq_ok_iff.2 ⟨_, encodedLength_of_lt hfits, hshort, hlast, ?_, by omega, ?_⟩
  · rw [Bytes.framed, hwire]
  · rw [Bytes.length_framed, hwire]
    omega

end Writing

section Congruence

variable {a b : ExtensionList}

theorem face_of_look (h : a.map Extension.look = b.map Extension.look) :
    a.map Extension.face = b.map Extension.face := by
  have hfaces := congrArg (List.map Prod.fst) h
  rwa [List.map_map, List.map_map] at hfaces

theorem reportedLength_congr (h : a.map Extension.face = b.map Extension.face) :
    reportedLength a = reportedLength b := by
  have hface (list : ExtensionList) : reportedLength list =
      totalLength (fun face => 2 + face.2.1.toNat) (list.map Extension.face) := by
    rw [totalLength_map]
    rfl
  rw [hface, hface, h]

theorem encodedLength_congr [Build] (h : a.map Extension.face = b.map Extension.face) :
    encodedLength a = encodedLength b := by
  rw [encodedLength_eq, encodedLength_eq, reportedLength_congr h]

theorem flatMap_wire_congr (h : a.map Extension.face = b.map Extension.face) :
    a.flatMap Extension.wire = b.flatMap Extension.wire := by
  have hface (list : ExtensionList) : list.flatMap Extension.wire =
      (list.map Extension.face).flatMap fun face => Bytes.ofUInt16 face.1.code ++ face.2.2 := by
    rw [List.flatMap_map]
    rfl
  rw [hface, hface, h]

theorem encode_unique [Build] {bytes' : Bytes} {offset offset' : Nat}
    (h : a.map Extension.face = b.map Extension.face) (ha : encode offset a = .ok bytes)
    (hb : encode offset' b = .ok bytes') : bytes = bytes' := by
  obtain ⟨length, hlength, _, _, rfl, _⟩ := encode_eq_ok_iff.1 ha
  obtain ⟨length', hlength', _, _, rfl, _⟩ := encode_eq_ok_iff.1 hb
  rw [encodedLength_congr h, hlength'] at hlength
  cases hlength
  rw [flatMap_wire_congr h]

theorem encode_congr [Build] (h : a.map Extension.look = b.map Extension.look) (offset : Nat) :
    encode offset a = encode offset b := by
  have hfind (list : ExtensionList) : (list.dropLast.find? (·.consumesRest)).map (·.type) =
      ((list.map Extension.look).dropLast.find? (·.2)).map (·.1.1) := by
    rw [← List.map_dropLast, List.find?_map, Option.map_map]
    rfl
  have hmisplaced : (a.dropLast.find? (·.consumesRest)).map (·.type) =
      (b.dropLast.find? (·.consumesRest)).map (·.type) := by
    rw [hfind, hfind, h]
  unfold encode
  rw [encodedLength_congr (face_of_look h), flatMap_wire_congr (face_of_look h)]
  -- Only the type of a misplaced extension is reported, so the two searches need agree on no more.
  cases ha : a.dropLast.find? (·.consumesRest) <;> cases hb : b.dropLast.find? (·.consumesRest) <;>
    simp_all

end Congruence

/-- What a frame is read as: the extensions in it, unless one of them is faulty. -/
theorem decode_framed {body : Bytes} (h : body.length < 256 ^ 2) (rest : Bytes) :
    decode registry (Bytes.framed 2 body ++ rest) = do
      let decoded ← (readBody registry body).toExcept
      return (decoded.map (·.extension), rest) := by
  rw [decode, cutBody, Bytes.cutNat?_framed h, orFault_some, ok_bind]
  dsimp only
  rw [Bytes.cut?_append rfl, orFault_some, ok_bind]
  rfl

section Views

variable {β : Type} {view : Extension → β}

/-- Extensions that are read back whatever follows them are read one after the other, and the
reading goes on behind them. -/
theorem readBody_flatMap_append
    (hreads : ∀ extension ∈ list, ∀ rest, DecodedExtension.ReadsBack registry view extension rest)
    (rest : Bytes) :
    ∃ items : List DecodedExtension,
      items.map (fun item => view item.extension) = list.map view ∧
        readBody registry (list.flatMap Extension.wire ++ rest) =
          ⟨items ++ (readBody registry rest).items, (readBody registry rest).fault⟩ := by
  induction list with
  | nil => exact ⟨[], rfl, rfl⟩
  | cons first others ih =>
    obtain ⟨items, hviews, hread⟩ := ih fun extension hmem => hreads extension (by simp [hmem])
    obtain ⟨item, hfirst, hview⟩ := hreads first (by simp) (others.flatMap Extension.wire ++ rest)
    refine ⟨item :: items, ?_, ?_⟩
    · rw [List.map_cons, List.map_cons, hview, hviews]
    · rw [List.flatMap_cons, List.append_assoc, readBody,
        ItemReader.readAll_of_ok (DecodedExtension.reader registry) hfirst]
      rw [readBody] at hread
      rw [hread]
      rfl

theorem readBody_flatMap
    (hreads : ∀ extension ∈ list, ∀ rest, (extension.consumesRest = true → rest = []) →
      DecodedExtension.ReadsBack registry view extension rest)
    (hbounded : ∀ extension ∈ list.dropLast, extension.consumesRest = false) :
    ∃ items : List DecodedExtension,
      items.map (fun item => view item.extension) = list.map view ∧
        readBody registry (list.flatMap Extension.wire) = ⟨items, none⟩ := by
  rcases List.eq_nil_or_concat list with rfl | ⟨front, last, rfl⟩
  · exact ⟨[], rfl, ItemReader.readAll_nil _⟩
  · rw [List.concat_eq_append] at *
    rw [List.dropLast_concat] at hbounded
    -- The last extension may take the rest, so it is read by itself behind the others.
    have hfront : ∀ extension ∈ front, ∀ rest,
        DecodedExtension.ReadsBack registry view extension rest := by
      intro extension hmem rest
      refine hreads extension (by simp [hmem]) rest fun htakes => ?_
      rw [hbounded extension hmem] at htakes
      cases htakes
    obtain ⟨items, hviews, hread⟩ := readBody_flatMap_append hfront last.wire
    obtain ⟨item, hlast, hview⟩ := hreads last (by simp) [] fun _ => rfl
    rw [List.append_nil] at hlast
    have hend : readBody registry last.wire = ⟨[item], none⟩ := by
      rw [readBody, ItemReader.readAll_of_ok (DecodedExtension.reader registry) hlast,
        ItemReader.readAll_nil]
    refine ⟨items ++ [item], ?_, ?_⟩
    · rw [List.map_append, List.map_append, hviews, List.map_singleton, List.map_singleton, hview]
    · rw [List.flatMap_append, List.flatMap_singleton, hread, hend]

/-- A list that was written is read back, whatever follows it, if its extensions are. -/
theorem decode_append_of_readsBack [Build] {offset : Nat}
    (hlength : ∀ extension ∈ list, extension.payload.length = extension.payloadLength.toNat)
    (hreads : ∀ extension ∈ list, ∀ rest, (extension.consumesRest = true → rest = []) →
      DecodedExtension.ReadsBack registry view extension rest)
    (h : encode offset list = .ok bytes) (rest : Bytes) :
    ∃ decoded, decode registry (bytes ++ rest) = .ok (decoded, rest) ∧
      decoded.map view = list.map view := by
  obtain ⟨hshort, hbounded, rfl⟩ := framed_of_encode hlength h
  have hsmall : (list.flatMap Extension.wire).length < 256 ^ 2 := by
    rw [length_flatMap_wire hlength]
    exact Nat.lt_succ_of_le hshort
  obtain ⟨items, hviews, hread⟩ := readBody_flatMap hreads hbounded
  refine ⟨items.map (·.extension), ?_, ?_⟩
  · rw [decode_framed hsmall, hread]
    rfl
  · rw [List.map_map]
    exact hviews

end Views

/-- A list of faithful extensions that was written is read back, whatever follows it. -/
theorem decode_encode_append [Build] {offset : Nat}
    (hfaithful : ∀ extension ∈ list, extension.Faithful registry)
    (h : encode offset list = .ok bytes) (rest : Bytes) :
    ∃ decoded, decode registry (bytes ++ rest) = .ok (decoded, rest) ∧
      decoded.map Extension.look = list.map Extension.look :=
  decode_append_of_readsBack (fun extension hmem => (hfaithful extension hmem).length_payload)
    (fun extension hmem _ => DecodedExtension.readsBack_of_faithful (hfaithful extension hmem)) h
    rest

theorem exists_of_cutBody {body : Bytes} (h : cutBody data = .ok (body, rest)) :
    body.length < 256 ^ 2 ∧ data = Bytes.framed 2 body ++ rest := by
  rw [cutBody, bind_eq_ok_iff] at h
  obtain ⟨⟨length, mid⟩, hlength, h⟩ := h
  rw [bind_eq_ok_iff] at h
  obtain ⟨⟨octets, left⟩, hbody, hpair⟩ := h
  cases hpair
  exact Bytes.eq_framed_of_cuts (orFault_eq_ok_iff.1 hlength) (orFault_eq_ok_iff.1 hbody)

theorem reportedLength_of_readBody {body : Bytes} {items : List DecodedExtension}
    (h : readBody registry body = ⟨items, none⟩) :
    reportedLength (items.map (·.extension)) = body.length := by
  rw [reportedLength, totalLength_map]
  exact (DecodedExtension.reader registry).totalLength_of_readAll DecodedExtension.length_of_read h

/-- Extensions that were read report no more than there was data, so they can be compared. -/
theorem comparable_of_decode (h : decode registry data = .ok (list, rest)) :
    ∀ extension ∈ list, extension.Comparable := by
  rw [decode, bind_eq_ok_iff] at h
  obtain ⟨⟨body, _⟩, hcut, h⟩ := h
  obtain ⟨hsmall, rfl⟩ := exists_of_cutBody hcut
  rw [bind_eq_ok_iff] at h
  obtain ⟨items, hitems, h⟩ := h
  cases h
  have hreported := reportedLength_of_readBody (Reading.toExcept_eq_ok_iff.1 hitems)
  intro extension hmem
  have hle : extension.encodedLength ≤ reportedLength (items.map (·.extension)) :=
    length_le_totalLength hmem
  rw [Extension.encodedLength] at hle
  rw [Extension.Comparable, Size.maxCapacity]
  omega

/-- What an exact registry reads to the end is written as all of the data, and only the last
extension takes the rest. -/
theorem written_of_readBody (hexact : registry.Exact) {body : Bytes} (hbody : body.length < 256 ^ 2)
    {items : List DecodedExtension} (h : readBody registry body = ⟨items, none⟩) :
    (∀ item ∈ items, item.extension.payload.length = item.extension.payloadLength.toNat) ∧
      body = (items.map (·.extension)).flatMap Extension.wire ∧
      ∀ item ∈ items.dropLast, ¬item.extension.consumesRest = true := by
  have hpart {part : Bytes} (hle : part.length ≤ body.length) : part.length ≤ Size.maxCapacity := by
    rw [Size.maxCapacity]
    omega
  obtain ⟨left, hleft, hend, hvalid⟩ :=
    (DecodedExtension.reader registry).exists_eq_flatMap_append fun hle hread =>
      DecodedExtension.written_of_read hexact (hpart hle) hread
  have hlast := (DecodedExtension.reader registry).not_takesRest_of_mem_dropLast
    fun hle hread => DecodedExtension.rest_eq_nil_of_read hexact (hpart hle) hread
  rw [readBody] at h
  rw [h] at hleft hend hvalid hlast
  obtain rfl := hend rfl
  refine ⟨hvalid, ?_, hlast⟩
  rw [hleft, List.append_nil, List.flatMap_map]

/-- A list that an exact registry reads is written as the bytes that it was read from, behind
anything that leaves enough room. -/
theorem encode_of_decode [Build] {offset : Nat} (hexact : registry.Exact)
    (h : decode registry data = .ok (list, rest))
    (hroom : offset + (2 + maxLength) ≤ Size.maxCapacity) :
    ∃ bytes, encode offset list = .ok bytes ∧ data = bytes ++ rest := by
  rw [decode, bind_eq_ok_iff] at h
  obtain ⟨⟨body, _⟩, hcut, h⟩ := h
  obtain ⟨hsmall, rfl⟩ := exists_of_cutBody hcut
  rw [bind_eq_ok_iff] at h
  obtain ⟨items, hitems, h⟩ := h
  cases h
  have hread := Reading.toExcept_eq_ok_iff.1 hitems
  obtain ⟨hvalid, hwire, hlast⟩ := written_of_readBody hexact hsmall hread
  refine ⟨_, encode_of_reportedLength (by simpa using hvalid) ?_ ?_ hroom, ?_⟩
  · rw [reportedLength_of_readBody hread]
    exact Nat.le_of_lt_succ hsmall
  · rw [← List.map_dropLast]
    intro extension hmem
    obtain ⟨item, hitem, rfl⟩ := List.mem_map.1 hmem
    exact Bool.eq_false_iff.2 (hlast item hitem)
  · rw [← hwire]

end ExtensionList

end Esni
