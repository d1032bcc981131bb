import Esni.Proofs.BufferWriting
import Esni.Proofs.CipherSuiteCodec

/-!
# The outcomes of writing and reading cipher suites

The length in front of a list of suites is twice their number, so it is even and its field bounds
the number. A list of more suites is refused before anything is appended. All other lists are read
back, whatever follows them. A reader looks at the length before it looks at what stands behind it:
that a length is odd is reported even if the data is too short for it.

## Main definitions

- `CipherSuites.write` — the steps that write a list

## Main statements

- `CipherSuites.outcome_write` — the steps come to what the encoder gives
- `CipherSuites.decode_numeral` — what is read behind a length
- `CipherSuites.encodeTo_and_decode` — the outcomes of all lists and of all data
-/

namespace Esni

open BufferWriter (append)
open Update (require outcome)

namespace CipherSuites

/-- The steps that write a list: the check that its length fits the field, the length, and one
suite after the other. -/
def write (suites : List CipherSuite) : BufferWriter CipherSuitesError Unit := do
  require (2 * suites.length ≤ 65535) (.tooManySuites suites.length)
  append (Bytes.ofNat 2 (2 * suites.length))
  suites.forM fun suite => append (Bytes.ofUInt16 suite.code)

section Writing

variable {suites : List CipherSuite} {buffer : Bytes}

theorem encodeTo_of_tooMany (h : 32767 < suites.length) :
    encodeTo suites buffer = (buffer, some (.tooManySuites suites.length)) := by
  rw [encodeTo, encode_eq, if_pos h]

theorem encodeTo_of_fits (h : suites.length ≤ 32767) :
    encodeTo suites buffer = (buffer ++ Bytes.framed 2 (suites.flatMap wire), none) := by
  rw [encodeTo, encode_eq, if_neg (Nat.not_lt_of_le h)]

/-- The steps come to what the encoder gives. -/
theorem outcome_write (suites : List CipherSuite) (buffer : Bytes) :
    outcome (write suites) buffer = encodeTo suites buffer := by
  rw [write, Update.outcome_require_bind]
  by_cases h : suites.length ≤ 32767
  · have hdouble : 2 * suites.length ≤ 65535 := by omega
    rw [if_pos (decide_eq_true hdouble), BufferWriter.outcome_append_bind,
      BufferWriter.outcome_forM_of_appends fun suite _ buffer => BufferWriter.outcome_append _,
      encodeTo_of_fits h, Bytes.framed, length_flatMap_wire, List.append_assoc]
    rfl
  · have hdouble : ¬2 * suites.length ≤ 65535 := by omega
    rw [if_neg (by simpa using hdouble), encodeTo_of_tooMany (Nat.lt_of_not_le h)]

end Writing

/-- What is read behind a length: nothing if the length is odd or there is less data than it tells,
and else as many suites as it has room for. -/
theorem decode_numeral {length : Nat} (h : length < 256 ^ 2) (behind : Bytes) :
    decode (Bytes.ofNat 2 length ++ behind) =
      if length % 2 = 1 then .error (.invalidListLength length)
      else if behind.length < length then .error .truncatedData
      else .ok (spelled (behind.take length), behind.drop length) := by
  by_cases hshort : behind.length < length
  · have hcut : Bytes.cut? length behind = none := Bytes.cut?_eq_none_iff.2 hshort
    rw [decode, Bytes.cutNat?_append h, orFault_some, ok_bind, if_pos hshort]
    dsimp only
    rw [hcut, orFault_none, error_bind]
  · have hbody : (behind.take length).length = length :=
      List.length_take_of_le (Nat.le_of_not_lt hshort)
    -- As many bytes as the length tells are a list in its frame, with the others behind it.
    have hframe : Bytes.ofNat 2 length ++ behind =
        Bytes.framed 2 (behind.take length) ++ behind.drop length := by
      rw [Bytes.framed, hbody, List.append_assoc, List.take_append_drop]
    have hread := decode_framed (hbody.symm ▸ h) (behind.drop length)
    rw [hbody] at hread
    rw [hframe, hread, if_neg hshort]

/-- A list that fills the length in front of it takes half as many suites as its length tells, and
is written as the bytes that it was read from. -/
theorem encodeTo_of_decode {data : Bytes} {length : Nat} {suites : List CipherSuite}
    (hlength : 2 + length ≤ data.length)
    (h : decode data = .ok (suites, data.drop (2 + length))) :
    2 * suites.length = length ∧ encodeTo suites [] = (data.take (2 + length), none) := by
  obtain ⟨bytes, hencode, hdata⟩ := encode_of_decode h
  have hcount : bytes.length = 2 + 2 * suites.length := by
    rw [(encode_eq_ok_iff.1 hencode).2, Bytes.length_framed, length_flatMap_wire]
  have hused : bytes.length = 2 + length := by
    have hall := congrArg List.length hdata
    rw [List.length_append, List.length_drop] at hall
    omega
  refine ⟨by omega, ?_⟩
  rw [encodeTo, hencode, hdata, List.take_left' hused]
  rfl

/-- A list is refused exactly if it has too many suites, and then the buffer stays as it is. Any
other list is appended as twice as many bytes as it has suites, with their length in front, and is
read back from them whatever follows. Data is read by its first two bytes: it is too short to have
them, or they tell an odd length, or there is less data than they tell, in this order. All other
data is read as half as many suites as the length tells, which are written as the front of the
data. -/
theorem encodeTo_and_decode :
    (∀ (suites : List CipherSuite) (buffer : Bytes),
      outcome (write suites) buffer = encodeTo suites buffer ∧
      (encodeTo suites buffer = (buffer, some (.tooManySuites suites.length)) ↔
        32767 < suites.length) ∧
      (suites.length ≤ 32767 → ∃ bytes : Bytes, bytes.length = 2 + 2 * suites.length ∧
        encodeTo suites buffer = (buffer ++ bytes, none) ∧
        ∀ tail, decode (bytes ++ tail) = .ok (suites, tail))) ∧
    (∀ data : Bytes, data.length < 2 → decode data = .error .truncatedData) ∧
    ∀ (data : Bytes) (length : Nat), 2 ≤ data.length → Bytes.toNat (data.take 2) = length →
      (length % 2 = 1 → decode data = .error (.invalidListLength length)) ∧
      (length % 2 = 0 → data.length < 2 + length → decode data = .error .truncatedData) ∧
      (length % 2 = 0 → 2 + length ≤ data.length →
        ∃ suites, decode data = .ok (suites, data.drop (2 + length)) ∧
          suites.length = length / 2 ∧
          encodeTo suites [] = (data.take (2 + length), none)) := by
  refine ⟨?_, ?_, ?_⟩
  · intro suites buffer
    refine ⟨outcome_write suites buffer, ⟨?_, encodeTo_of_tooMany⟩, ?_⟩
    · intro hrefused
      by_contra hfits
      rw [encodeTo_of_fits (Nat.le_of_not_lt hfits)] at hrefused
      obtain ⟨_, hnone⟩ := Prod.mk.inj hrefused
      cases hnone
    · intro hfits
      refine ⟨_, ?_, encodeTo_of_fits hfits, ?_⟩
      · rw [Bytes.length_framed, length_flatMap_wire]
      · exact decode_encode_append (encode_eq_ok_iff.2 ⟨hfits, rfl⟩)
  · intro data hshort
    rw [decode, Bytes.cutNat?_eq_none_iff.2 hshort, orFault_none, error_bind]
  · rintro data length htwo rfl
    have hsmall := Bytes.toNat_lt (data.take 2)
    rw [List.length_take_of_le htwo] at hsmall
    have hread := decode_numeral hsmall (data.drop 2)
    rw [← Bytes.eq_ofNat_append_drop htwo, List.length_drop, List.drop_drop] at hread
    refine ⟨?_, ?_, ?_⟩
    · intro hodd
      rw [hread, if_pos hodd]
    · intro heven hshort
      rw [hread, if_neg (by omega), if_pos (by omega)]
    · intro heven hlong
      rw [if_neg (by omega), if_neg (by omega)] at hread
      obtain ⟨hcount, hwritten⟩ := encodeTo_of_decode hlong hread
      exact ⟨_, hread, by omega, hwritten⟩

/-- Two suites and some more data. The length five is odd, and the length six is more than there
is. -/
theorem encodeTo_and_decode_pair :
    (∃ bytes : Bytes, bytes.length = 6 ∧
      encodeTo [⟨0x1301⟩, ⟨0x00ff⟩] [9] = ([9] ++ bytes, none) ∧
      decode (bytes ++ [7]) = .ok ([⟨0x1301⟩, ⟨0x00ff⟩], [7])) ∧
    decode [0] = .error .truncatedData ∧
    decode [0, 5, 0x13, 1] = .error (.invalidListLength 5) ∧
    decode [0, 6, 0x13, 1, 0, 0xff] = .error .truncatedData ∧
    ∃ suites, decode [0, 4, 0x13, 1, 0, 0xff, 7] = .ok (suites, [7]) ∧ suites.length = 2 ∧
      encodeTo suites [] = ([0, 4, 0x13, 1, 0, 0xff], none) := by
  obtain ⟨hwrite, hshort, hread⟩ := encodeTo_and_decode
  obtain ⟨bytes, hlength, hencode, hdecode⟩ :=
    (hwrite [⟨0x1301⟩, ⟨0x00ff⟩] [9]).2.2 (by decide)
  refine ⟨⟨bytes, hlength, hencode, hdecode [7]⟩, hshort [0] (by decide), ?_, ?_, ?_⟩
  · exact (hread [0, 5, 0x13, 1] 5 (by decide) rfl).1 rfl
  · exact (hread [0, 6, 0x13, 1, 0, 0xff] 6 (by decide) rfl).2.1 rfl (by decide)
  · exact (hread [0, 4, 0x13, 1, 0, 0xff, 7] 4 (by decide) rfl).2.2 rfl (by decide)

end CipherSuites

end Esni
