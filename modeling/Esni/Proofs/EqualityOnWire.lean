import Esni.Proofs.RoundTrip

/-!
# Equality and the wire

Extensions of different kinds may be equal: only their type, their reported length and their
payload count. To compare two of them the payloads are written to buffers, so an extension can be
compared with itself only if there are buffers of the length that it reports. One that cannot never
counts as unequal to itself: the comparison ends the program. Up to this, equality of extensions, of
lists and of records is an equivalence.

Equality does not see whether an extension takes the rest of a list, while the
encoder does, for it refuses a list with such an extension in a wrong place. So equal lists are
written as the same bytes if they are written at all, and with the same outcome if their extensions
also take the rest in the same places. In the other direction the bytes tell the lists apart if one
registry reads back all their extensions: what it reads is the one list, and the other one too.

## Main definitions

- `LawfulComparison` — a comparison that is an equivalence but for what has no buffers
- `Extension.Recovered` — an extension that is read back as an equal one
- `ExtensionList.AlikeOnWire` — what equal lists have in common on the wire

## Main statements

- `Extension.lawfulComparison`, `ExtensionList.lawfulComparison` and `Record.lawfulComparison`
- `ExtensionList.alikeOnWire_of_beq` and `Record.writtenAlike_of_beq` — equal things on the wire
- `ExtensionList.beq_of_encode` — lists that are read back are equal if they are written the same
- `equality_respects_wire` — all of it together
-/

namespace Esni

/-- The comparison is an equivalence but for the values that there are no buffers for. It comes to
the same both ways round, ends of the program included. -/
structure LawfulComparison {α : Type} [BEq α] (compare : α → α → Except Panic Bool)
    (Comparable : α → Prop) : Prop where
  beq_iff : ∀ a b, (a == b) = true ↔ compare a b = .ok true
  symm : ∀ a b, compare a b = compare b a
  trans : ∀ a b c, compare a b = .ok true → compare b c = .ok true → compare a c = .ok true
  refl : ∀ a, Comparable a → compare a a = .ok true
  /-- A value that there are no buffers for is never unequal to itself. -/
  ends : ∀ a, ¬Comparable a → compare a a = .error .capacity
  /-- One value with buffers is enough for an answer. -/
  answers : ∀ a b, Comparable a → ∃ same, compare a b = .ok same

section Comparisons

/-- A comparison of which is known when it finds two values equal. -/
theorem LawfulComparison.of_view {α β : Type} [BEq α] {compare : α → α → Except Panic Bool}
    {Comparable : α → Prop} {view : α → β} (hbeq : ∀ a b, (a == b) = true ↔ compare a b = .ok true)
    (hview : ∀ a b, (a == b) = true ↔ view a = view b ∧ Comparable a)
    (hsymm : ∀ a b, compare a b = compare b a)
    (hends : ∀ a, ¬Comparable a → compare a a = .error .capacity)
    (hanswers : ∀ a b, Comparable a → ∃ same, compare a b = .ok same) :
    LawfulComparison compare Comparable where
  beq_iff := hbeq
  symm := hsymm
  trans a b c hab hbc := by
    rw [← hbeq, hview] at hab hbc ⊢
    exact ⟨hab.1.trans hbc.1, hab.2⟩
  refl a h := (hbeq a a).1 ((hview a a).2 ⟨rfl, h⟩)
  ends := hends
  answers := hanswers

theorem Extension.compare_comm (a b : Extension) : a.compare b = b.compare a := by
  by_cases h : a.type = b.type ∧ a.payloadLength = b.payloadLength
  · rw [compare, compare, if_pos h, if_pos ⟨h.1.symm, h.2.symm⟩, h.2]
    simp only [eq_comm]
  · rw [compare, compare, if_neg h, if_neg fun h' => h ⟨h'.1.symm, h'.2.symm⟩]

theorem Extension.lawfulComparison : LawfulComparison Extension.compare Extension.Comparable := by
  refine .of_view (fun _ _ => beq_iff_compare) (fun _ _ => beq_iff) compare_comm ?_ ?_
  · intro a h
    rw [compare_of_not_comparable h, if_pos ⟨rfl, rfl⟩]
  · intro a b h
    exact ⟨_, compare_of_comparable h b⟩

theorem ExtensionList.compare_comm (a b : ExtensionList) : compare a b = compare b a := by
  induction a generalizing b with
  | nil => cases b <;> rfl
  | cons first others ih =>
    cases b with
    | nil => rfl
    | cons first' others' =>
      by_cases hlength : others.length = others'.length
      · rw [compare_cons first first' hlength, compare_cons first' first hlength.symm,
          first.compare_comm first', ih]
      · have hlengths : (first :: others).length ≠ (first' :: others').length := by
          simpa using hlength
        rw [compare_of_length_ne hlengths, compare_of_length_ne hlengths.symm]

/-- Extensions that can be compared are passed over, up to the first that cannot. -/
theorem ExtensionList.compare_self_of_not_comparable {a : ExtensionList}
    (h : ¬∀ extension ∈ a, extension.Comparable) : compare a a = .error .capacity := by
  induction a with
  | nil => exact absurd (fun _ hmem => nomatch hmem) h
  | cons first others ih =>
    rw [compare_cons first first rfl]
    by_cases hfirst : first.Comparable
    · rw [Extension.lawfulComparison.refl first hfirst, ok_bind]
      exact ih fun hothers => h (List.forall_mem_cons.2 ⟨hfirst, hothers⟩)
    · rw [Extension.lawfulComparison.ends first hfirst]
      rfl

theorem ExtensionList.exists_compare_eq {a : ExtensionList}
    (h : ∀ extension ∈ a, extension.Comparable) (b : ExtensionList) :
    ∃ same, compare a b = .ok same := by
  induction a generalizing b with
  | nil => cases b <;> exact ⟨_, rfl⟩
  | cons first others ih =>
    obtain ⟨hfirst, hothers⟩ := List.forall_mem_cons.1 h
    cases b with
    | nil => exact ⟨_, rfl⟩
    | cons first' others' =>
      by_cases hlength : others.length = others'.length
      · rw [compare_cons first first' hlength]
        obtain ⟨same, hsame⟩ := Extension.lawfulComparison.answers first first' hfirst
        rw [hsame, ok_bind]
        cases same with
        | true => exact ih hothers others'
        | false => exact ⟨_, rfl⟩
      · exact ⟨_, compare_of_length_ne (by simpa using hlength)⟩

theorem ExtensionList.lawfulComparison : LawfulComparison ExtensionList.compare
    fun list => ∀ extension ∈ list, extension.Comparable :=
  .of_view (fun _ _ => compare_eq_true_iff.symm) (fun _ _ => beq_iff) compare_comm
    (fun _ => compare_self_of_not_comparable) fun _ b h => exists_compare_eq h b

theorem Record.lawfulComparison : LawfulComparison Record.compare
    fun record => ∀ extension ∈ record.extensions, extension.Comparable := by
  refine .of_view (fun _ _ => beq_iff_compare) (fun _ _ => beq_iff) ?_ ?_ ?_
  · intro a b
    rw [compare, compare, ExtensionList.compare_comm]
    simp only [eq_comm]
  · intro a h
    rw [compare, if_pos ⟨rfl, rfl, rfl, rfl, rfl, rfl, rfl⟩]
    exact ExtensionList.compare_self_of_not_comparable h
  · intro a b h
    rw [compare]
    split
    · exact ExtensionList.exists_compare_eq h b.extensions
    · exact ⟨_, rfl⟩

end Comparisons

/-- The registry reads an equal extension back from what this one writes, whatever follows it;
nothing follows an extension that takes the rest. -/
structure Extension.Recovered (registry : Registry) (extension : Extension) : Prop where
  length_payload : extension.payload.length = extension.payloadLength.toNat
  reads_back : ∃ registration, registry.lookup? extension.type = some registration ∧
    ∀ rest, (extension.consumesRest = true → rest = []) →
      ∃ decoded, registration.decode (extension.payload ++ rest) = .ok decoded ∧
        (decoded == extension) = true

namespace Extension

variable {registry : Registry} {extension other : Extension}

theorem Faithful.recovered (h : extension.Faithful registry) : extension.Recovered registry where
  length_payload := h.length_payload
  reads_back := by
    obtain ⟨registration, hlookup, hreads⟩ := h.reads_back
    refine ⟨registration, hlookup, fun rest hrest => ?_⟩
    obtain ⟨decoded, hdecode, hequal, _⟩ := hreads rest hrest
    exact ⟨decoded, hdecode, hequal⟩

/-- An extension of another kind is read back too if it is equal to one that is. -/
theorem Recovered.of_beq (h : extension.Recovered registry) (hequal : (other == extension) = true)
    (hends : extension.consumesRest = true → other.consumesRest = true) :
    other.Recovered registry := by
  obtain ⟨hface, _⟩ := beq_iff.1 hequal
  have htype : other.type = extension.type := congrArg (fun face => face.1) hface
  have hlength : other.payloadLength = extension.payloadLength :=
    congrArg (fun face => face.2.1) hface
  have hpayload : other.payload = extension.payload := congrArg (fun face => face.2.2) hface
  obtain ⟨registration, hlookup, hreads⟩ := h.reads_back
  refine ⟨?_, registration, ?_, fun rest hrest => ?_⟩
  · rw [hpayload, hlength, h.length_payload]
  · rw [htype, hlookup]
  · obtain ⟨decoded, hdecode, hdecoded⟩ := hreads rest fun htakes => hrest (hends htakes)
    refine ⟨decoded, ?_, ?_⟩
    · rw [hpayload, hdecode]
    · rw [beq_iff, hface]
      exact beq_iff.1 hdecoded

end Extension

theorem DecodedExtension.readsBack_of_recovered {registry : Registry} {extension : Extension}
    {rest : Bytes} (h : extension.Recovered registry)
    (hrest : extension.consumesRest = true → rest = []) :
    ReadsBack registry Extension.face extension rest := by
  obtain ⟨registration, hlookup, hreads⟩ := h.reads_back
  obtain ⟨decoded, hdecode, hequal⟩ := hreads rest hrest
  obtain ⟨hface, _⟩ := Extension.beq_iff.1 hequal
  have hreported : decoded.payloadLength.toNat = extension.payload.length := by
    rw [h.length_payload]
    exact congrArg (fun face => face.2.1.toNat) hface
  exact readsBack_of_decode hlookup hdecode hreported hface

namespace ExtensionList

variable {registry : Registry} {a b list : ExtensionList} {buffer bytes : Bytes}

/-- Lists look the same to the encoder if they are equal and take the rest in the same places. -/
theorem look_of_beq (h : (a == b) = true)
    (hends : a.map (·.consumesRest) = b.map (·.consumesRest)) :
    a.map Extension.look = b.map Extension.look := by
  have hlook (list : ExtensionList) : list.map Extension.look =
      (list.map Extension.face).zip (list.map (·.consumesRest)) := List.zip_map'.symm
  rw [hlook, hlook, (beq_iff.1 h).1, hends]

section Wire

variable [Build]

/-- What equal lists have in common: their lengths, the bytes that they are written as if both are
written, and the whole outcome if their extensions take the rest in the same places. -/
structure AlikeOnWire (a b : ExtensionList) : Prop where
  length_eq : a.length = b.length
  encodedLength_eq : encodedLength a = encodedLength b
  same_bytes : ∀ buffer buffer' written written', encodeTo a buffer = .ok (written, none) →
    encodeTo b buffer' = .ok (written', none) →
      ∃ bytes, written = buffer ++ bytes ∧ written' = buffer' ++ bytes
  same_outcome : a.map (·.consumesRest) = b.map (·.consumesRest) →
    ∀ buffer, encodeTo a buffer = encodeTo b buffer

theorem encode_of_encodeTo (h : encodeTo list buffer = .ok (buffer ++ bytes, none)) :
    encode buffer.length list = .ok bytes := by
  obtain ⟨bytes', hbytes, hwritten⟩ := encodeTo_eq_ok_iff.1 h
  rw [hbytes, List.append_cancel_left hwritten]

theorem alikeOnWire_of_beq (h : (a == b) = true) : AlikeOnWire a b := by
  obtain ⟨hfaces, _⟩ := beq_iff.1 h
  refine ⟨?_, encodedLength_congr hfaces, fun buffer buffer' written written' ha hb => ?_,
    fun hends buffer => ?_⟩
  · have hlengths := congrArg List.length hfaces
    rwa [List.length_map, List.length_map] at hlengths
  · obtain ⟨bytes, hbytes, rfl⟩ := encodeTo_eq_ok_iff.1 ha
    obtain ⟨bytes', hbytes', rfl⟩ := encodeTo_eq_ok_iff.1 hb
    obtain rfl := encode_unique hfaces hbytes hbytes'
    exact ⟨bytes, rfl, rfl⟩
  · rw [encodeTo, encodeTo, encode_congr (look_of_beq h hends)]

/-- A list that was written is read back as an equal one, if its extensions are. -/
theorem exists_decode_of_recovered {offset : Nat}
    (hrecovered : ∀ extension ∈ list, extension.Recovered registry)
    (h : encode offset list = .ok bytes) :
    ∃ decoded, decode registry bytes = .ok (decoded, []) ∧ (decoded == list) = true := by
  obtain ⟨decoded, hdecode, hfaces⟩ := decode_append_of_readsBack
    (fun extension hmem => (hrecovered extension hmem).length_payload)
    (fun extension hmem _ => DecodedExtension.readsBack_of_recovered (hrecovered extension hmem))
    h []
  rw [List.append_nil] at hdecode
  exact ⟨decoded, hdecode, beq_iff.2 ⟨hfaces, comparable_of_decode hdecode⟩⟩

/-- The bytes tell lists apart that are read back: what is read from them equals both lists. -/
theorem beq_of_encode {offset offset' : Nat} (ha : ∀ extension ∈ a, extension.Recovered registry)
    (hb : ∀ extension ∈ b, extension.Recovered registry) (hbytes : encode offset a = .ok bytes)
    (hbytes' : encode offset' b = .ok bytes) : (a == b) = true := by
  obtain ⟨decoded, hdecode, hequal⟩ := exists_decode_of_recovered ha hbytes
  obtain ⟨decoded', hdecode', hequal'⟩ := exists_decode_of_recovered hb hbytes'
  obtain rfl : decoded' = decoded := by
    rw [hdecode] at hdecode'
    cases hdecode'
    rfl
  rw [lawfulComparison.beq_iff] at hequal hequal' ⊢
  rw [lawfulComparison.symm] at hequal
  exact lawfulComparison.trans _ _ _ hequal hequal'

end Wire

end ExtensionList

section Wire

variable [Build]

/-- Equal records are written the same, if their extensions take the rest in the same places. -/
theorem Record.writtenAlike_of_beq {a b : Record} (h : (a == b) = true)
    (hends : a.extensions.map (·.consumesRest) = b.extensions.map (·.consumesRest)) :
    WrittenAlike a b := by
  obtain ⟨hface, hcomparable⟩ := beq_iff.1 h
  have hextensions : (a.extensions == b.extensions) = true :=
    ExtensionList.beq_iff.2 ⟨congrArg Prod.snd hface, hcomparable⟩
  have hfields : a.look.1 = b.look.1 := congrArg (fun face => face.1) hface
  exact writtenAlike_of_look
    (Prod.ext hfields (ExtensionList.look_of_beq hextensions hends))

end Wire

/-- Raw data that looks like the marker 7, with another extension behind it. -/
def disguised (consumesRest : Bool) : ExtensionList :=
  [.of (Raw.mk Marker.type consumesRest [0, 7]), .of AddressSet.empty]

/-- The same with the marker itself. -/
def undisguised : ExtensionList := [.of (Marker.mk 7), .of AddressSet.empty]

/-- Equal lists with different outcomes: one of them takes the rest too early. -/
example : (disguised true == undisguised) = true ∧
    ExtensionList.encode 0 (disguised true) = .error (.fault (.unboundedNotLast Marker.type)) ∧
    ExtensionList.encode 0 undisguised = .ok [0, 6, 0, 0x42, 0, 7, 0x10, 1] := ⟨rfl, rfl, rfl⟩

end Esni
