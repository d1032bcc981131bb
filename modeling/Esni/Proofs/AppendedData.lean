import Esni.Proofs.ChecksumGate

/-!
# Data behind a record

Bytes appended to a record, with the checksum put right again, are never taken for a part of it:
no section looks at them, not even a decoder of an extension that takes all the rest of its list.
So a record with more data behind it is refused for that data, and a fault in a section is reported
as it is without the data.

## Main statements

- `Record.resealed_append` — appended data stands behind the sections
- `Record.decode_resealed_append` — what becomes of each outcome
-/

namespace Esni.Record

theorem resealed_append (version : UInt16) (body tail : Bytes) :
    resealed (sealed version body ++ tail) = sealed version (body ++ tail) := by
  rw [sealed, List.append_assoc]
  exact resealed_header version (body ++ tail) (Checksum.of version body).property

/-- Let data with the right checksum be read, and let more bytes be appended and the checksum be put
right again. If the data was a record, then the appended bytes are trailing data. If it had trailing
data, then the appended bytes are more of it. If a section was faulty, then the fault stays as it
was. -/
theorem decode_resealed_append (registry : Registry) {data tail : Bytes}
    (hlength : 6 ≤ data.length) (hsum : checksumField data = expectedSum data) (htail : tail ≠ []) :
    (∀ record, decode registry data = .ok record →
      decode registry (resealed (data ++ tail)) = .error (.trailingData tail.length)) ∧
    (∀ n, decode registry data = .error (.trailingData n) →
      decode registry (resealed (data ++ tail)) = .error (.trailingData (n + tail.length))) ∧
    (∀ fault : DecodeError, fault.Settled → decode registry data = .error fault →
      decode registry (resealed (data ++ tail)) = .error fault) := by
  obtain ⟨version, body, rfl⟩ := exists_sealed_of_expectedSum hlength hsum
  have hconfined := confined_decodeWhole registry ⟨version⟩
  rw [resealed_append]
  refine ⟨fun record hrecord => ?_, fun n htrailing => ?_, fun fault hsettled hfault => ?_⟩
  · have hmore := hconfined.ok_append (decodeWhole_of_decode_ok hrecord) tail
    rw [List.nil_append] at hmore
    rw [decode_sealed_of_ok hmore, if_neg htail]
  · rcases fault_of_decode_error htrailing with ⟨record, rest, hwhole, hlength⟩ | ⟨_, hkind⟩
    · cases hlength
      rw [decode_sealed_of_ok (hconfined.ok_append hwhole tail),
        if_neg (List.append_ne_nil_of_right_ne_nil rest htail), List.length_append]
    · -- Trailing data is no fault of a section.
      rcases hkind with hshort | hsettled
      · cases hshort
      · cases hsettled
  · rcases fault_of_decode_error hfault with ⟨_, _, _, rfl⟩ | ⟨hwhole, _⟩
    · cases hsettled
    · rcases hconfined.short_or_settled hwhole with hshort | ⟨_, hstays⟩
      · exact absurd hshort hsettled.not_short
      · exact decode_sealed_of_error (hstays tail)

theorem decode_resealed_append_sample :
    decode .extendedExact (resealed (sealed 0xff01 sampleBody ++ [0, 66])) =
        .error (.trailingData 2) ∧
      decode .standard (sealed 0xff02 [0]) = .error .emptyPublicName ∧
      decode .standard (resealed (sealed 0xff02 [0] ++ [5])) = .error .emptyPublicName := by
  have hempty : decode .standard (sealed 0xff02 [0]) = .error .emptyPublicName :=
    decode_sealed_of_error rfl
  obtain ⟨record, hdecode, _⟩ := exists_decode_of_encode faithful_sample encode_sample
  refine ⟨?_, hempty, ?_⟩
  · exact (decode_resealed_append .extendedExact (le_length_of_encode encode_sample)
      (checksumField_of_encode encode_sample).2.1 (by simp)).1 record hdecode
  · refine (decode_resealed_append .standard ?_ ?_ (by simp)).2.2 _ .emptyPublicName hempty
    · rw [length_sealed]
      decide
    · rw [checksumField_sealed, expectedSum_sealed]

end Esni.Record
