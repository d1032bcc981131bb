import Esni.Proofs.AppendedData
import Esni.Proofs.EncodeOutcome

/-!
# Records that are cut short

An encoding that is cut off anywhere, with the checksum put right again, is refused because data is
missing in the section where the cut is. What the bytes before the cut may look like does not
matter, and neither do the extensions that the registry knows: a section is cut out of the data as
a whole before anything in it is looked at.

## Main definitions

- `Record.Stretch` and `Record.layout` — the sections of an encoding, with the faults of their cuts
- `Record.joined` — the bytes of sections that follow each other
- `Record.firstCut` — the fault of the first section that is cut

## Main statements

- `Record.decodeWhole_take` — the sections of a record, cut anywhere
- `Record.decode_resealed_take` — an encoding, cut anywhere
-/

namespace Esni.Record

/-- A section of an encoding, and the fault that is reported if the data ends before all of it. -/
structure Stretch where
  wire : Bytes
  short : DecodeError

/-- The sections behind the checksum in their order. The section of the public name is empty where
the version has none. -/
def layout (record : Record) : List Stretch :=
  [⟨record.nameSection, .unexpectedEnd .publicName⟩,
    ⟨Bytes.framed 2 (record.keys.entries.flatMap KeyShare.wire), .unexpectedEnd .keyShareList⟩,
    ⟨Bytes.framed 2 (record.cipherSuites.flatMap CipherSuites.wire), .cipherSuites .truncatedData⟩,
    ⟨Bytes.ofUInt16 record.paddedLength, .unexpectedEnd .paddedLength⟩,
    ⟨record.notBefore.wire, .unexpectedEnd .notBefore⟩,
    ⟨record.notAfter.wire, .unexpectedEnd .notAfter⟩,
    ⟨Bytes.framed 2 (record.extensions.flatMap Extension.wire), .extensions .unexpectedEnd⟩]

/-- The bytes of sections that follow each other. -/
def joined (stretches : List Stretch) : Bytes := stretches.flatMap Stretch.wire

@[simp] theorem joined_nil : joined [] = [] := rfl

@[simp] theorem joined_cons (stretch : Stretch) (others : List Stretch) :
    joined (stretch :: others) = stretch.wire ++ joined others := rfl

/-- The fault of the first section that `n` bytes do not wholly hold. -/
def firstCut : List Stretch → (n : Nat) → Option DecodeError
  | [], _ => none
  | stretch :: others, n =>
    if n < stretch.wire.length then some stretch.short
    else firstCut others (n - stretch.wire.length)

/-- A cut before the end falls into one of the sections. -/
theorem exists_firstCut : ∀ {stretches : List Stretch} {n : Nat},
    n < (joined stretches).length →
    ∃ before stretch after, stretches = before ++ stretch :: after ∧
      (joined before).length ≤ n ∧ n < (joined before).length + stretch.wire.length ∧
      firstCut stretches n = some stretch.short
  | [], n, hn => absurd hn (Nat.not_lt_zero n)
  | stretch :: others, n, hn => by
    by_cases hfirst : n < stretch.wire.length
    · exact ⟨[], stretch, others, rfl, Nat.zero_le n, by simpa using hfirst, if_pos hfirst⟩
    · have hothers : n - stretch.wire.length < (joined others).length := by
        rw [joined_cons, List.length_append] at hn
        omega
      obtain ⟨before, cut, after, rfl, hstart, hstop, hcut⟩ := exists_firstCut hothers
      refine ⟨stretch :: before, cut, after, rfl, ?_, ?_, ?_⟩
      · rw [joined_cons, List.length_append]
        omega
      · rw [joined_cons, List.length_append]
        omega
      · rw [firstCut, if_neg hfirst, hcut]

variable {registry : Registry} {record : Record} {bytes : Bytes} {fault : DecodeError} {n : Nat}

/-- A section that is cut is reported, and behind one that is not the reading goes on with what is
left before the cut. -/
theorem bind_eq_error_of_firstCut {α β : Type} {Settled : DecodeError → Prop}
    {read : Bytes → Except DecodeError (α × Bytes)}
    {next : α × Bytes → Except DecodeError (β × Bytes)} {value : α} {stretch : Stretch}
    {others : List Stretch} (hconfined : Confined (· = stretch.short) Settled read)
    (hread : read (stretch.wire ++ []) = .ok (value, []))
    (hcut : firstCut (stretch :: others) n = some fault)
    (hnext : ∀ n, firstCut others n = some fault →
      next (value, (joined others).take n) = .error fault) :
    (read ((joined (stretch :: others)).take n) >>= next) = .error fault := by
  rw [List.append_nil] at hread
  rw [firstCut] at hcut
  rw [joined_cons, hconfined.read_take_append hread]
  by_cases hn : n < stretch.wire.length
  · rw [if_pos hn] at hcut ⊢
    rw [error_bind, Option.some.inj hcut]
  · rw [if_neg hn] at hcut ⊢
    exact hnext _ hcut

/-- The sections that a written record has. -/
theorem sections_of_encode [Build] (h : record.encode = .ok bytes)
    (hreports : ∀ extension ∈ record.extensions,
      extension.payload.length = extension.payloadLength.toNat) :
    encodeName record.version record.publicName = .ok record.nameSection ∧
      encodeKeys record.keys = .ok (Bytes.framed 2 (record.keys.entries.flatMap KeyShare.wire)) ∧
      CipherSuites.encode record.cipherSuites =
        .ok (Bytes.framed 2 (record.cipherSuites.flatMap CipherSuites.wire)) ∧
      (record.extensions.flatMap Extension.wire).length < 256 ^ 2 ∧
      bytes = sealed record.version.code (joined record.layout) := by
  obtain ⟨body, hbody, rfl⟩ := encode_eq_ok_iff.1 h
  obtain ⟨_, front, extensions, hfront, hextensions, rfl⟩ := encodeBody_eq_ok_iff.1 hbody
  obtain ⟨name, keys, suites, hname, hkeys, hsuites, rfl⟩ := encodeFront_eq_ok_iff.1 hfront
  obtain ⟨shares, hshares, _, _, rfl⟩ := encodeKeys_eq_ok_iff.1 hkeys
  obtain ⟨_, rfl⟩ := KeyShareList.encode_eq_ok_iff.1 hshares
  obtain ⟨_, rfl⟩ := CipherSuites.encode_eq_ok_iff.1 hsuites
  obtain ⟨hlength, _, rfl⟩ := ExtensionList.framed_of_encode hreports hextensions
  obtain rfl := eq_nameSection_of_encodeName hname
  refine ⟨hname, hkeys, hsuites, ?_, ?_⟩
  · rw [ExtensionList.length_flatMap_wire hreports]
    exact Nat.lt_succ_of_le hlength
  · simp only [layout, joined_cons, joined_nil, bodyFront, List.append_assoc, List.append_nil]

/-- The sections of a written record are cut in their order. -/
theorem decodeWhole_take [Build] (h : record.encode = .ok bytes)
    (hreports : ∀ extension ∈ record.extensions,
      extension.payload.length = extension.payloadLength.toNat)
    (hcut : firstCut record.layout n = some fault) :
    decodeWhole registry record.version ((joined record.layout).take n) = .error fault := by
  obtain ⟨hname, hkeys, hsuites, hextensions, _⟩ := sections_of_encode h hreports
  rw [decodeWhole, decodeBody, layout]
  simp only [bind_assoc, pure_bind]
  refine bind_eq_error_of_firstCut (confined_decodeName _) (decodeName_append hname []) hcut
    fun n hcut => ?_
  dsimp only
  refine bind_eq_error_of_firstCut confined_decodeKeys (decodeKeys_append hkeys []) hcut
    fun n hcut => ?_
  dsimp only
  refine bind_eq_error_of_firstCut confined_decodeSuites
    (mapError_eq_ok_iff.2 (CipherSuites.decode_encode_append hsuites [])) hcut fun n hcut => ?_
  dsimp only
  have hpadded : Confined (· = .unexpectedEnd .paddedLength) DecodeError.Settled
      fun data => orFault (.unexpectedEnd .paddedLength) (Bytes.cutUInt16? data) :=
    .cutUInt16 _
  refine bind_eq_error_of_firstCut hpadded
    (orFault_eq_ok_iff.2 (Bytes.cutUInt16?_append record.paddedLength [])) hcut fun n hcut => ?_
  dsimp only
  refine bind_eq_error_of_firstCut (confined_decodeTime .notBefore)
    (decodeTime_append .notBefore record.notBefore []) hcut fun n hcut => ?_
  dsimp only
  refine bind_eq_error_of_firstCut (confined_decodeTime .notAfter)
    (decodeTime_append .notAfter record.notAfter []) hcut fun n hcut => ?_
  dsimp only
  -- Only the extensions are left, and what they are is not looked at.
  rw [firstCut] at hcut
  split at hcut
  · rename_i hn
    cases hcut
    rw [joined_cons, joined_nil, List.append_nil, ExtensionList.decode_take_framed hextensions hn]
    rfl
  · cases hcut

/-- Only what is behind the checksum is cut, and the checksum is put right for what is left. -/
theorem resealed_take {version : UInt16} {body : Bytes} {k : Nat} (hk : 6 ≤ k) :
    resealed ((sealed version body).take k) = sealed version (body.take (k - 6)) := by
  have hsum := (Checksum.of version body).property
  have hheader := length_header version hsum
  rw [sealed, List.take_append, hheader, List.take_of_length_le (by omega),
    resealed_header version _ hsum]

/-- Let an encoding of extensions that write as much as they report be cut off, with the checksum
put right again. If the cut is before the end of the checksum, then data is missing in the header.
Otherwise the sections of the encoding, which are all that is behind the checksum, tell what is
missing: it is the one that starts at the cut or before it and ends behind it. -/
theorem decode_resealed_take [Build] (registry : Registry) (h : record.encode = .ok bytes)
    (hreports : ∀ extension ∈ record.extensions,
      extension.payload.length = extension.payloadLength.toNat) :
    bytes.drop 6 = joined record.layout ∧ ∀ k < bytes.length,
      (k < 6 → decode registry (bytes.take k) = .error (.unexpectedEnd .header)) ∧
      (6 ≤ k → ∃ before stretch after, record.layout = before ++ stretch :: after ∧
        6 + (joined before).length ≤ k ∧
        k < 6 + (joined before).length + stretch.wire.length ∧
        decode registry (resealed (bytes.take k)) = .error stretch.short) := by
  obtain ⟨_, _, _, _, rfl⟩ := sections_of_encode h hreports
  refine ⟨drop_sealed _ _, fun k hk => ⟨fun hshort => ?_, fun hlong => ?_⟩⟩
  · have hlength : ((sealed record.version.code (joined record.layout)).take k).length < 6 := by
      rw [List.length_take]
      omega
    rw [decode, decodeSections_of_short hlength, error_bind]
  · rw [length_sealed] at hk
    have hinside : k - 6 < (joined record.layout).length := by omega
    obtain ⟨before, stretch, after, hlayout, hstart, hstop, hcut⟩ := exists_firstCut hinside
    refine ⟨before, stretch, after, hlayout, by omega, by omega, ?_⟩
    rw [resealed_take hlong]
    exact decode_sealed_of_error (decodeWhole_take h hreports hcut)

/-- The name of the named sample is cut inside of a character. -/
theorem decode_resealed_take_named :
    named.encode = .ok (sealed 0xff03 namedBody) ∧
      (∀ extension ∈ named.extensions, extension.payload.length = extension.payloadLength.toNat) ∧
      ((sealed 0xff03 namedBody).take 9).drop 6 = [15, 98, 195] ∧
      decode .empty (resealed ((sealed 0xff03 namedBody).take 9)) =
        .error (.unexpectedEnd .publicName) := by
  obtain ⟨hdrop, hcuts⟩ := decode_resealed_take .empty encode_named truthful_named
  have hlength : 9 < (sealed 0xff03 namedBody).length := by
    rw [length_sealed]
    decide
  obtain ⟨before, stretch, after, hlayout, hstart, hstop, hdecode⟩ :=
    (hcuts 9 hlength).2 (by decide)
  -- The name takes the first sixteen bytes behind the checksum.
  have hfirst : before = [] := by
    cases before with
    | nil => rfl
    | cons first others =>
      obtain ⟨rfl, _⟩ := List.cons.inj hlayout
      rw [joined_cons, List.length_append] at hstart
      have hname : named.nameSection.length = 16 := rfl
      dsimp only at hstart
      omega
  subst hfirst
  obtain ⟨rfl, _⟩ := List.cons.inj hlayout
  refine ⟨encode_named, truthful_named, ?_, hdecode⟩
  rw [List.drop_take, hdrop]
  rfl

end Esni.Record
