import Esni.Proofs.ExtensionKinds

/-!
# Where one extension ends and the next begins

A payload has no length on the wire. Its decoder is handed all that is left in the list, and only
what it gives back tells where the next extension begins. For extensions that are told from whatever
may follow them this is enough: in front of other extensions they change nothing but the place where
these are read from. What is read behind them, with success or not, is what is read without them.

## Main definitions

- `Extension.Delimited` — an extension that is read back whatever follows it
- `ExtensionList.inFront` — a list on the wire that has extensions in front of some body

## Main statements

- `ExtensionList.decode_inFront` — reading the whole list by reading the body alone
- `ExtensionList.decode_splits` — the same by outcomes, with the faults at the start of a body
-/

namespace Esni

/-- The registry reads an equal extension back from what this one writes, whatever follows it. -/
structure Extension.Delimited (registry : Registry) (extension : Extension) : Prop where
  length_payload : extension.payload.length = extension.payloadLength.toNat
  reads_back : ∃ registration, registry.lookup? extension.type = some registration ∧
    ∀ rest, ∃ decoded, registration.decode (extension.payload ++ rest) = .ok decoded ∧
      (decoded == extension) = true

/-- A faithful extension is delimited unless it takes the rest. -/
theorem Extension.Faithful.delimited {registry : Registry} {extension : Extension}
    (h : extension.Faithful registry) (hbounded : extension.consumesRest = false) :
    extension.Delimited registry where
  length_payload := h.length_payload
  reads_back := by
    obtain ⟨registration, hlookup, hreads⟩ := h.reads_back
    refine ⟨registration, hlookup, fun rest => ?_⟩
    obtain ⟨decoded, hdecode, hequal, _⟩ := hreads rest fun htakes => by
      rw [hbounded] at htakes
      cases htakes
    exact ⟨decoded, hdecode, hequal⟩

theorem DecodedExtension.readsBack_of_delimited {registry : Registry} {extension : Extension}
    (h : extension.Delimited registry) (rest : Bytes) :
    ReadsBack registry Extension.face extension rest := by
  obtain ⟨registration, hlookup, hreads⟩ := h.reads_back
  obtain ⟨decoded, hdecode, hequal⟩ := hreads rest
  have hface := (Extension.beq_iff.1 hequal).1
  have hreported : decoded.payloadLength.toNat = extension.payload.length := by
    rw [h.length_payload]
    exact congrArg (fun face => face.2.1.toNat) hface
  exact readsBack_of_decode hlookup hdecode hreported hface

namespace ExtensionList

variable {registry : Registry} {before : ExtensionList} {body tail : Bytes}

/-- A list on the wire, with its length in front, that has some extensions and then a body. What
follows the list is `tail`. -/
def inFront (before : ExtensionList) (body tail : Bytes) : Bytes :=
  Bytes.ofNat 2 (reportedLength before + body.length) ++ before.flatMap Extension.wire ++ body ++
    tail

/-- With delimited extensions in front, a body is read as it is alone. They are read as equal ones,
which are lost if the body is faulty. -/
theorem decode_inFront (hdelimited : ∀ extension ∈ before, extension.Delimited registry)
    (hlength : reportedLength before + body.length ≤ maxLength) (tail : Bytes) :
    ∃ front : ExtensionList, front.map Extension.face = before.map Extension.face ∧
      decode registry (inFront before body tail) = do
        let (list, _) ← decode registry (Bytes.framed 2 body)
        return (front ++ list, tail) := by
  have hreads : ∀ extension ∈ before, ∀ rest,
      DecodedExtension.ReadsBack registry Extension.face extension rest := fun extension hmem =>
    DecodedExtension.readsBack_of_delimited (hdelimited extension hmem)
  obtain ⟨items, hfaces, hread⟩ := readBody_flatMap_append hreads body
  have hreported : (before.flatMap Extension.wire).length = reportedLength before :=
    length_flatMap_wire fun extension hmem => (hdelimited extension hmem).length_payload
  have hwhole : inFront before body tail =
      Bytes.framed 2 (before.flatMap Extension.wire ++ body) ++ tail := by
    rw [inFront, Bytes.framed, List.length_append, hreported]
    simp only [List.append_assoc]
  have hsmall : (before.flatMap Extension.wire ++ body).length < 256 ^ 2 := by
    rw [List.length_append, hreported]
    unfold maxLength at hlength
    omega
  have hbody : body.length < 256 ^ 2 := by
    rw [List.length_append] at hsmall
    omega
  refine ⟨items.map (·.extension), ?_, ?_⟩
  · rw [List.map_map]
    exact hfaces
  · rw [hwhole, decode_framed hsmall, hread, ← List.append_nil (Bytes.framed 2 body),
      decode_framed hbody]
    cases hreading : readBody registry body with
    | mk read fault =>
      cases fault with
      | none => simp [Reading.toExcept]
      | some fault => rfl

/-- A body that starts with an identifier that the registry does not know. -/
theorem decode_framed_of_unknown {type : ExtensionType} (h : registry.lookup? type = none)
    {rest : Bytes} (hlength : (Bytes.ofUInt16 type.code ++ rest).length < 256 ^ 2) :
    decode registry (Bytes.framed 2 (Bytes.ofUInt16 type.code ++ rest)) =
      .error (.unsupportedType type) := by
  have hread : DecodedExtension.read registry (Bytes.ofUInt16 type.code ++ rest) =
      .error (.unsupportedType type) := by
    rw [DecodedExtension.read, Bytes.cutUInt16?_append, orFault_some, ok_bind]
    dsimp only
    rw [h, orFault_none, error_bind]
  have hne : Bytes.ofUInt16 type.code ++ rest ≠ [] := by
    intro hnil
    have hzero := congrArg List.length hnil
    rw [List.length_append, Bytes.length_ofUInt16] at hzero
    simp at hzero
  rw [← List.append_nil (Bytes.framed _ _), decode_framed hlength, readBody,
    ItemReader.readAll_of_error (DecodedExtension.reader registry) hne hread]
  rfl

/-- A body of one byte ends inside an identifier. -/
theorem decode_framed_singleton (registry : Registry) (byte : UInt8) :
    decode registry (Bytes.framed 2 [byte]) = .error .unexpectedEnd := by
  have hread : DecodedExtension.read registry [byte] = .error .unexpectedEnd := by
    have hcut : Bytes.cutUInt16? [byte] = none := Bytes.cutUInt16?_eq_none_iff.2 (by simp)
    rw [DecodedExtension.read, hcut, orFault_none, error_bind]
  have hlength : [byte].length < 256 ^ 2 := by simp
  rw [← List.append_nil (Bytes.framed _ _), decode_framed hlength, readBody,
    ItemReader.readAll_of_error (DecodedExtension.reader registry) (by simp) hread]
  rfl

/-- Reading splits where delimited extensions end. If the body behind them is read as a list, so is
the whole, as a list that equals the extensions and the list of the body, from all bytes but the
tail. If the body is faulty the whole has the same fault, so nothing of the extensions in front is
given. In particular this is so if the body starts with an unknown identifier or has one byte
only. -/
theorem decode_splits (hdelimited : ∀ extension ∈ before, extension.Delimited registry)
    (hlength : reportedLength before + body.length ≤ 65535) (tail : Bytes) :
    (∀ list rest, decode registry (Bytes.framed 2 body) = .ok (list, rest) →
      (inFront before body tail).length =
        2 + (reportedLength before + body.length) + tail.length ∧
      ∃ found, decode registry (inFront before body tail) = .ok (found, tail) ∧
        (found == before ++ list) = true) ∧
    (∀ fault, decode registry (Bytes.framed 2 body) = .error fault →
      decode registry (inFront before body tail) = .error fault) ∧
    (∀ type rest, body = Bytes.ofUInt16 type.code ++ rest → registry.lookup? type = none →
      decode registry (inFront before body tail) = .error (.unsupportedType type)) ∧
    (body.length = 1 → decode registry (inFront before body tail) = .error .unexpectedEnd) := by
  obtain ⟨front, hfront, hdecode⟩ := decode_inFront hdelimited hlength tail
  have hfault {fault : ExtensionDecodeError}
      (h : decode registry (Bytes.framed 2 body) = .error fault) :
      decode registry (inFront before body tail) = .error fault := by
    rw [hdecode, h, error_bind]
  refine ⟨fun list rest h => ?_, fun fault => hfault, ?_, ?_⟩
  · have hreported : (before.flatMap Extension.wire).length = reportedLength before :=
      length_flatMap_wire fun extension hmem => (hdelimited extension hmem).length_payload
    have hfound : decode registry (inFront before body tail) = .ok (front ++ list, tail) := by
      rw [hdecode, h, ok_bind]
      rfl
    refine ⟨?_, _, hfound, beq_iff.2 ⟨?_, comparable_of_decode hfound⟩⟩
    · simp only [inFront, List.length_append, Bytes.length_ofNat, hreported]
      omega
    · rw [List.map_append, List.map_append, hfront]
  · rintro type rest rfl hunknown
    refine hfault (decode_framed_of_unknown hunknown ?_)
    omega
  · intro hone
    obtain ⟨byte, rfl⟩ := List.length_eq_one_iff.1 hone
    exact hfault (decode_framed_singleton registry byte)

/-- A marker and a note are delimited, so behind them raw data is read as it is alone, and an
unknown identifier is refused whether clients must understand it or not. -/
theorem decode_splits_marker :
    (∃ found, decode .extendedExact
        (inFront [.of (Marker.mk 7), .of (Note.mk [5])] [9, 0x99, 8] [0xff]) = .ok (found, [0xff]) ∧
      (found == [.of (Marker.mk 7), .of (Note.mk [5]), .of { Raw.fresh with bytes := [8] }]) =
        true) ∧
    decode .extendedExact
        (inFront [.of (Marker.mk 7), .of (Note.mk [5])] [0x1f, 0xff, 8] [0xff]) =
      .error (.unsupportedType ⟨0x1fff⟩) ∧
    decode .extendedExact (inFront [.of (Marker.mk 7), .of (Note.mk [5])] [0] []) =
      .error .unexpectedEnd := by
  have hdelimited : ∀ extension ∈ [Extension.of (Marker.mk 7), .of (Note.mk [5])],
      extension.Delimited .extendedExact := by
    intro extension hmem
    simp only [List.mem_cons, List.not_mem_nil, or_false] at hmem
    rcases hmem with rfl | rfl
    · exact ((Extension.Plain.marker _).faithful (by decide)).delimited rfl
    · exact ((Extension.Plain.note _ (by decide)).faithful (by decide)).delimited rfl
  have hraw : decode .extendedExact (Bytes.framed 2 [9, 0x99, 8]) =
      .ok ([.of { Raw.fresh with bytes := [8] }], []) := by
    have hread : (DecodedExtension.reader .extendedExact).read [9, 0x99, 8] =
        .ok (⟨ExtensionKind.kind Raw, .of { Raw.fresh with bytes := [8] }⟩, []) := rfl
    rw [← List.append_nil (Bytes.framed _ _), decode_framed (by decide), readBody,
      ItemReader.readAll_of_ok _ hread, ItemReader.readAll_nil]
    rfl
  refine ⟨?_, ?_, ?_⟩
  · exact ((decode_splits hdelimited (by decide) [0xff]).1 _ _ hraw).2
  · exact (decode_splits hdelimited (by decide) [0xff]).2.2.1 ⟨0x1fff⟩ [8] rfl rfl
  · exact (decode_splits hdelimited (by decide) []).2.2.2 rfl

end ExtensionList

end Esni
