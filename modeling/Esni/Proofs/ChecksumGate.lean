import Esni.Proofs.ConfinedSections
import Esni.Proofs.RoundTrip

/-!
# The checksum

The four bytes behind the version are the checksum: the first four bytes of the hash of the data,
with zeros in their own place. Data with another checksum is refused before anything else is looked
at, so a change to an encoding goes unnoticed only if the shortened hash stays the same. All of this
follows for a reader that is gated by any hash. That of records is gated by one hash.

## Main definitions

- `Record.checksumField` and `Record.expectedSum` — the checksum that is there, and the right one
- `Record.resealed` — the data with the right checksum put in its place
- `Record.Gated` — a reader that looks at the checksum by some hash before anything else
- `Record.Mismatched` — the data is refused because of its checksum

## Main statements

- `Record.Gated.refuses_of_field` and `Record.Gated.refuses_of_sum` — what follows from the gate
- `Record.decode_header` — the checksum is looked at first
- `Record.checksum_gate` — which data is refused, and what follows for encodings
-/

namespace Esni.Record

variable {registry : Registry} {record : Record} {data bytes received calculated : Bytes}

/-- The four bytes behind the version. -/
def checksumField (data : Bytes) : Bytes := (data.drop 2).take 4

/-- The data with the four bytes behind the version overwritten. -/
def withField (field data : Bytes) : Bytes := data.take 2 ++ field ++ data.drop 6

/-- The first four bytes of the hash of the data, where zeros stand in the place of the
checksum. -/
def sumBy (hash : Bytes → Octets 32) (data : Bytes) : Bytes :=
  (hash (withField (List.replicate 4 0) data)).val.take 4

/-- The checksum that belongs to the data. -/
def expectedSum (data : Bytes) : Bytes := sumBy sha256 data

/-- The data with the checksum that belongs to it. -/
def resealed (data : Bytes) : Bytes := withField (expectedSum data) data

/-- The reader refuses the data because of its checksum, and the error tells the checksum that is
there and the one that should be. -/
def Refuses (reader : Bytes → Except DecodeError Record) (data received calculated : Bytes) :
    Prop :=
  ∃ found expected : Checksum, found.val = received ∧ expected.val = calculated ∧
    reader data = .error (.checksumMismatch found expected)

/-- Data that is long enough to have a checksum is refused because of it exactly if it is not the
one by the hash, whatever else is wrong with the data. -/
def Gated (hash : Bytes → Octets 32) (reader : Bytes → Except DecodeError Record) : Prop :=
  ∀ data received calculated : Bytes, 6 ≤ data.length →
    (Refuses reader data received calculated ↔
      received = checksumField data ∧ calculated = sumBy hash data ∧ received ≠ calculated)

/-- The data is refused because of its checksum, and the error tells the checksum that is there and
the one that should be. -/
def Mismatched (registry : Registry) (data received calculated : Bytes) : Prop :=
  Refuses (decode registry) data received calculated

/-- A version and a body with zeros in the place of the checksum. -/
def unsealed (version : UInt16) (body : Bytes) : Bytes :=
  Bytes.ofUInt16 version ++ List.replicate 4 0 ++ body

section Header

variable (version : UInt16) {field : Bytes} (body : Bytes)

theorem checksumField_header (hfield : field.length = 4) :
    checksumField (Bytes.ofUInt16 version ++ field ++ body) = field := by
  rw [checksumField, List.append_assoc, List.drop_left' (Bytes.length_ofUInt16 version),
    List.take_left' hfield]

theorem withField_header (hfield : field.length = 4) (other : Bytes) :
    withField other (Bytes.ofUInt16 version ++ field ++ body) =
      Bytes.ofUInt16 version ++ other ++ body := by
  rw [withField, List.drop_left' (length_header version hfield), List.append_assoc _ field body,
    List.take_left' (Bytes.length_ofUInt16 version)]

theorem expectedSum_header (hfield : field.length = 4) :
    expectedSum (Bytes.ofUInt16 version ++ field ++ body) = (Checksum.of version body).val := by
  rw [expectedSum, sumBy, withField_header version body hfield]
  rfl

theorem resealed_header (hfield : field.length = 4) :
    resealed (Bytes.ofUInt16 version ++ field ++ body) = sealed version body := by
  rw [resealed, expectedSum_header version body hfield, withField_header version body hfield,
    sealed]

theorem checksumField_sealed :
    checksumField (sealed version body) = (Checksum.of version body).val :=
  checksumField_header version body (Checksum.of version body).property

theorem expectedSum_sealed :
    expectedSum (sealed version body) = (Checksum.of version body).val :=
  expectedSum_header version body (Checksum.of version body).property

end Header

theorem exists_sealed_of_expectedSum (hlength : 6 ≤ data.length)
    (hsum : checksumField data = expectedSum data) :
    ∃ version body, data = sealed version body := by
  obtain ⟨version, field, body, rfl, _⟩ := exists_header (Nat.not_lt.2 hlength)
  rw [checksumField_header version body field.property,
    expectedSum_header version body field.property] at hsum
  exact ⟨version, body, by rw [hsum, sealed]⟩

theorem withField_checksumField (hlength : 6 ≤ data.length) :
    withField (checksumField data) data = data := by
  obtain ⟨version, field, body, rfl, _⟩ := exists_header (Nat.not_lt.2 hlength)
  rw [checksumField_header version body field.property,
    withField_header version body field.property]

/-- Only the checksum is overwritten. -/
theorem withField_spec (field : Bytes) (hlength : 6 ≤ data.length) (hfield : field.length = 4) :
    (withField field data).length = data.length ∧ (withField field data).take 2 = data.take 2 ∧
      (withField field data).drop 6 = data.drop 6 ∧
      checksumField (withField field data) = field := by
  have htake : (data.take 2).length = 2 := List.length_take_of_le (by omega)
  have hheader : (data.take 2 ++ field).length = 6 := by rw [List.length_append, htake, hfield]
  refine ⟨?_, ?_, ?_, ?_⟩
  · rw [withField, List.length_append, hheader, List.length_drop]
    omega
  · rw [withField, List.append_assoc, List.take_left' htake]
  · rw [withField, List.drop_left' hheader]
  · rw [checksumField, withField, List.append_assoc, List.drop_left' htake, List.take_left' hfield]

section Gate

variable {hash : Bytes → Octets 32} {reader : Bytes → Except DecodeError Record}

/-- What is hashed does not depend on the checksum that is there. -/
theorem sumBy_congr {data' : Bytes} (hfront : data.take 2 = data'.take 2)
    (hback : data.drop 6 = data'.drop 6) : sumBy hash data = sumBy hash data' := by
  rw [sumBy, sumBy, withField, withField, hfront, hback]

/-- Data with another checksum in the place of the right one is refused, and the error tells the
right one. -/
theorem Gated.refuses_of_field (hgated : Gated hash reader) (hbytes : 6 ≤ bytes.length)
    (hsum : checksumField bytes = sumBy hash bytes) (hlength : data.length = bytes.length)
    (hfront : data.take 2 = bytes.take 2) (hback : data.drop 6 = bytes.drop 6)
    (hne : data ≠ bytes) : Refuses reader data (checksumField data) (checksumField bytes) := by
  have hdata : 6 ≤ data.length := hlength ▸ hbytes
  have hexpected := hsum.trans (sumBy_congr hfront hback).symm
  refine (hgated _ _ _ hdata).2 ⟨rfl, hexpected, fun hfield => hne ?_⟩
  -- Outside of the checksum both are the same, so the checksums have to differ.
  rw [← withField_checksumField hdata, ← withField_checksumField hbytes, withField, withField,
    hfront, hback, hfield]

/-- Other data with a right checksum is refused, unless the shortened hashes collide. -/
theorem Gated.refuses_of_sum (hgated : Gated hash reader)
    (hsum : checksumField bytes = sumBy hash bytes) (hlength : 6 ≤ data.length)
    (hfield : checksumField data = checksumField bytes) :
    sumBy hash data = sumBy hash bytes ∨
      Refuses reader data (checksumField bytes) (sumBy hash data) := by
  by_cases hcollision : sumBy hash data = sumBy hash bytes
  · exact .inl hcollision
  · refine .inr ((hgated _ _ _ hlength).2 ⟨hfield.symm, rfl, fun hequal => hcollision ?_⟩)
    rw [← hequal, hsum]

/-- Data that the right checksum is put into has the right checksum, and is not refused because of
it. -/
theorem Gated.not_refuses_withField (hgated : Gated hash reader) (hlength : 6 ≤ data.length) :
    checksumField (withField (sumBy hash data) data) =
        sumBy hash (withField (sumBy hash data) data) ∧
      ¬Refuses reader (withField (sumBy hash data) data) received calculated := by
  have hfield : (sumBy hash data).length = 4 :=
    List.length_take_of_le (by rw [(hash _).property]; decide)
  obtain ⟨hwhole, hfront, hback, hput⟩ := withField_spec (sumBy hash data) hlength hfield
  have hright : checksumField (withField (sumBy hash data) data) =
      sumBy hash (withField (sumBy hash data) data) :=
    hput.trans (sumBy_congr hfront hback).symm
  refine ⟨hright, fun hrefuses => ?_⟩
  obtain ⟨rfl, rfl, hne⟩ := (hgated _ _ _ (hwhole ▸ hlength)).1 hrefuses
  exact hne hright

end Gate

/-- The checksum is looked at before anything else. -/
theorem decode_header (registry : Registry) (version : UInt16) (field : Checksum) (body : Bytes) :
    decode registry (Bytes.ofUInt16 version ++ field.val ++ body) =
      if field = Checksum.of version body then decode registry (sealed version body)
      else .error (.checksumMismatch field (Checksum.of version body)) := by
  by_cases hsum : field = Checksum.of version body
  · rw [if_pos hsum, hsum, sealed]
  · rw [if_neg hsum, decode, decodeSections_header, if_neg hsum, error_bind]

/-- Sealed data is never refused because of its checksum. -/
theorem not_mismatched_sealed (registry : Registry) (version : UInt16) (body : Bytes) :
    ¬Mismatched registry (sealed version body) received calculated := by
  rintro ⟨found, expected, _, _, hdecode⟩
  rcases fault_of_decode_error hdecode with ⟨_, _, _, hfault⟩ | ⟨_, hshort | hsettled⟩
  · cases hfault
  · cases hshort
  · cases hsettled

/-- The reader of records is gated by its hash. -/
theorem gated_decode (registry : Registry) : Gated sha256 (decode registry) := by
  intro data received calculated hlength
  show _ ↔ received = _ ∧ calculated = expectedSum data ∧ _
  obtain ⟨version, field, body, rfl, _⟩ := exists_header (Nat.not_lt.2 hlength)
  rw [checksumField_header version body field.property,
    expectedSum_header version body field.property]
  by_cases hsum : field = Checksum.of version body
  · constructor
    · intro hmismatched
      rw [hsum] at hmismatched
      exact absurd hmismatched (not_mismatched_sealed registry version body)
    · rintro ⟨rfl, rfl, hne⟩
      exact absurd (congrArg Subtype.val hsum) hne
  · have hdecode := decode_header registry version field body
    rw [if_neg hsum] at hdecode
    constructor
    · rintro ⟨found, expected, rfl, rfl, hfault⟩
      rw [hdecode] at hfault
      cases hfault
      exact ⟨rfl, rfl, fun h => hsum (Subtype.ext h)⟩
    · rintro ⟨rfl, rfl, _⟩
      exact ⟨field, Checksum.of version body, rfl, rfl, hdecode⟩

theorem le_length_of_encode [Build] (h : record.encode = .ok bytes) : 6 ≤ bytes.length := by
  obtain ⟨body, _, rfl⟩ := encode_eq_ok_iff.1 h
  rw [length_sealed]
  exact Nat.le_add_right 6 _

/-- The checksum in an encoding is the hash of the encoding before the checksum was put in, and it
is the one that belongs to the encoding afterwards. -/
theorem checksumField_of_encode [Build] (h : record.encode = .ok bytes) :
    (∃ body, encodeBody record = .ok body ∧
        bytes = withField ((sha256 (unsealed record.version.code body)).val.take 4)
          (unsealed record.version.code body)) ∧
      checksumField bytes = expectedSum bytes ∧
      ∃ checksum, record.checksum = .ok checksum ∧ checksum.val = expectedSum bytes := by
  obtain ⟨body, hbody, rfl⟩ := encode_eq_ok_iff.1 h
  refine ⟨⟨body, hbody, ?_⟩, ?_, _, checksum_of_encodeBody hbody, ?_⟩
  · rw [unsealed, withField_header _ _ List.length_replicate]
    rfl
  · rw [checksumField_sealed, expectedSum_sealed]
  · rw [expectedSum_sealed]

/-- Data that is long enough to have a checksum is refused because of it exactly if it is not the
expected one, whatever else is wrong with the data and whatever the registry knows. The checksum in
an encoding is the expected one. So an encoding with another checksum is refused, and so is other
data with the checksum of an encoding, unless the shortened hashes collide. Data that the expected
checksum is put into is not refused because of it. -/
theorem checksum_gate [Build] :
    (∀ (registry : Registry) (data received calculated : Bytes), 6 ≤ data.length →
      (Mismatched registry data received calculated ↔
        received = checksumField data ∧ calculated = expectedSum data ∧ received ≠ calculated)) ∧
    (∀ (record : Record) (bytes : Bytes), record.encode = .ok bytes →
      ((∃ body, encodeBody record = .ok body ∧
          bytes = withField ((sha256 (unsealed record.version.code body)).val.take 4)
            (unsealed record.version.code body)) ∧
        checksumField bytes = expectedSum bytes ∧
        ∃ checksum, record.checksum = .ok checksum ∧ checksum.val = expectedSum bytes) ∧
      (∀ (registry : Registry) (data : Bytes), data.length = bytes.length →
        data.take 2 = bytes.take 2 → data.drop 6 = bytes.drop 6 → data ≠ bytes →
        Mismatched registry data (checksumField data) (checksumField bytes)) ∧
      (∀ (registry : Registry) (data : Bytes), 6 ≤ data.length →
        checksumField data = checksumField bytes →
        expectedSum data = expectedSum bytes ∨
          Mismatched registry data (checksumField bytes) (expectedSum data))) ∧
    (∀ (registry : Registry) (data received calculated : Bytes), 6 ≤ data.length →
      checksumField (resealed data) = expectedSum (resealed data) ∧
        ¬Mismatched registry (resealed data) received calculated) := by
  refine ⟨gated_decode, ?_, fun registry _ _ _ => (gated_decode registry).not_refuses_withField⟩
  intro record bytes h
  have hbytes := le_length_of_encode h
  obtain ⟨hspliced, hsum, hchecksum⟩ := checksumField_of_encode h
  refine ⟨⟨hspliced, hsum, hchecksum⟩, ?_, ?_⟩
  · intro registry data hlength hfront hback hne
    exact (gated_decode registry).refuses_of_field hbytes hsum hlength hfront hback hne
  · intro registry data hlength hfield
    exact (gated_decode registry).refuses_of_sum hsum hlength hfield

/-- The encoding of the sample with one added to each byte of its checksum. -/
def sampleMiscounted : Bytes :=
  withField ((Checksum.of 0xff01 sampleBody).val.map (· + 1)) (sealed 0xff01 sampleBody)

theorem map_add_one_ne {sum : Bytes} (h : sum ≠ []) : sum.map (· + 1) ≠ sum := by
  cases sum with
  | nil => exact absurd rfl h
  | cons first others =>
    rw [List.map_cons, Ne, List.cons.injEq]
    simp

theorem checksum_gate_sample :
    sample.encode = .ok (sealed 0xff01 sampleBody) ∧ sampleMiscounted ≠ sealed 0xff01 sampleBody ∧
      Mismatched .standard sampleMiscounted (checksumField sampleMiscounted)
        (checksumField (sealed 0xff01 sampleBody)) := by
  have hsum := (Checksum.of 0xff01 sampleBody).property
  obtain ⟨hlength, hfront, hback, hfield⟩ :=
    withField_spec ((Checksum.of 0xff01 sampleBody).val.map (· + 1))
      (le_length_of_encode encode_sample) (by rw [List.length_map, hsum])
  have hne : sampleMiscounted ≠ sealed 0xff01 sampleBody := by
    intro hequal
    have hfields := congrArg checksumField hequal
    rw [checksumField_sealed, sampleMiscounted, hfield] at hfields
    exact map_add_one_ne (List.ne_nil_of_length_eq_add_one hsum) hfields
  exact ⟨encode_sample, hne, (checksum_gate.2.1 sample _ encode_sample).2.1 .standard
    sampleMiscounted hlength hfront hback hne⟩

end Esni.Record
