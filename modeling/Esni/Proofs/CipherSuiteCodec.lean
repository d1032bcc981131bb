import Esni.CipherSuites
import Esni.Proofs.Numerals
import Esni.Proofs.Readings

/-!
# Cipher suites on the wire

A list of suites is framed by its length, so it is read back whatever follows it, and every list
that is read has exactly one written form. Data of an even length spells suites and nothing else,
so the only fault inside a frame is an odd length.

## Main statements

- `CipherSuites.decode_encode_append` and `CipherSuites.encode_of_decode` — reading and writing
- `CipherSuites.decode_framed` — what a frame with arbitrary contents is read as
-/

namespace Esni

theorem Reading.toExcept_eq_ok_iff {ε α : Type} {reading : Reading ε α} {items : List α} :
    reading.toExcept = .ok items ↔ reading = ⟨items, none⟩ := by
  obtain ⟨found, fault⟩ := reading
  cases fault <;> simp [toExcept]

namespace CipherSuites

/-- The bytes of one suite. -/
def wire (suite : CipherSuite) : Bytes := Bytes.ofUInt16 suite.code

/-- The suites that data spells, two bytes each. A last single byte spells none. -/
def spelled : Bytes → List CipherSuite
  | high :: low :: rest => ⟨UInt16.ofNat (high.toNat * 256 + low.toNat)⟩ :: spelled rest
  | _ => []

theorem length_flatMap_wire (suites : List CipherSuite) :
    (suites.flatMap wire).length = 2 * suites.length := by
  induction suites with
  | nil => rfl
  | cons suite suites ih =>
    rw [List.flatMap_cons, List.length_append, wire, Bytes.length_ofUInt16, ih, List.length_cons]
    omega

theorem reader_read_eq_ok_iff {data rest : Bytes} {suite : CipherSuite} :
    reader.read data = .ok (suite, rest) ↔ True ∧ data = wire suite ++ rest := by
  obtain ⟨code⟩ := suite
  rw [true_and, wire, ← Bytes.cutUInt16?_eq_some_iff]
  constructor
  · intro h
    obtain ⟨⟨code', rest'⟩, hcut, hpair⟩ := Option.map_eq_some_iff.1 (orFault_eq_ok_iff.1 h)
    cases hpair
    exact hcut
  · intro h
    exact orFault_eq_ok_iff.2 (by rw [h]; rfl)

theorem wire_two_bytes (high low : UInt8) :
    wire ⟨UInt16.ofNat (high.toNat * 256 + low.toNat)⟩ = [high, low] := by
  have hhigh := high.toNat_lt
  have hlow := low.toNat_lt
  have hsmall : (high.toNat * 256 + low.toNat) % 2 ^ 16 = Bytes.toNat [high, low] := by
    rw [Nat.mod_eq_of_lt (by omega)]
    simp [Bytes.toNat]
  rw [wire, Bytes.ofUInt16, UInt16.toNat_ofNat', hsmall]
  exact Bytes.ofNat_toNat [high, low]

theorem flatMap_wire_spelled : ∀ data : Bytes, data.length % 2 = 0 →
    data = (spelled data).flatMap wire
  | [], _ => rfl
  | [_], h => by simp at h
  | high :: low :: rest, h => by
    have hrest : rest.length % 2 = 0 := by
      simp only [List.length_cons] at h
      omega
    rw [spelled, List.flatMap_cons, wire_two_bytes, ← flatMap_wire_spelled rest hrest]
    rfl

/-- Data of an even length is read as the suites that it spells. -/
theorem readAll_of_even {data : Bytes} (h : data.length % 2 = 0) :
    reader.readAll data = ⟨spelled data, none⟩ :=
  (reader.readAll_eq_iff reader_read_eq_ok_iff).2
    ⟨fun _ _ => trivial, flatMap_wire_spelled data h⟩

theorem spelled_flatMap_wire (suites : List CipherSuite) :
    spelled (suites.flatMap wire) = suites := by
  have heven : (suites.flatMap wire).length % 2 = 0 := by
    rw [length_flatMap_wire]
    omega
  have hread : reader.readAll (suites.flatMap wire) = ⟨suites, none⟩ :=
    (reader.readAll_eq_iff reader_read_eq_ok_iff).2 ⟨fun _ _ => trivial, rfl⟩
  rw [readAll_of_even heven] at hread
  exact congrArg Reading.items hread

/-- What a frame is read as: the suites that it spells, unless its length is odd. -/
theorem decode_framed {body : Bytes} (h : body.length < 256 ^ 2) (rest : Bytes) :
    decode (Bytes.framed 2 body ++ rest) =
      if body.length % 2 = 1 then .error (.invalidListLength body.length)
      else .ok (spelled body, rest) := by
  unfold decode
  rw [Bytes.cutNat?_framed h]
  simp only [orFault_some, ok_bind]
  by_cases hodd : body.length % 2 = 1
  · rw [if_pos hodd, if_pos hodd]
  · rw [if_neg hodd, if_neg hodd, Bytes.cut?_append rfl]
    simp only [orFault_some, ok_bind]
    rw [readAll_of_even (by omega)]
    rfl

theorem encode_eq_ok_iff {suites : List CipherSuite} {bytes : Bytes} :
    encode suites = .ok bytes ↔
      suites.length ≤ maxCount ∧ bytes = Bytes.framed 2 (suites.flatMap wire) := by
  unfold encode
  by_cases h : suites.length ≤ maxCount
  · rw [if_pos h, Except.ok.injEq, eq_comm, Bytes.framed, length_flatMap_wire]
    exact ⟨fun hbytes => ⟨h, hbytes⟩, fun hbytes => hbytes.2⟩
  · simp [h]

theorem encode_eq (suites : List CipherSuite) :
    encode suites =
      if 32767 < suites.length then .error (.tooManySuites suites.length)
      else .ok (Bytes.framed 2 (suites.flatMap wire)) := by
  by_cases hcount : 32767 < suites.length
  · rw [if_pos hcount, encode, maxCount, if_neg (Nat.not_le_of_lt hcount)]
  · rw [if_neg hcount]
    exact encode_eq_ok_iff.2 ⟨Nat.le_of_not_lt hcount, rfl⟩

theorem decode_encode_append {suites : List CipherSuite} {bytes : Bytes}
    (h : encode suites = .ok bytes) (rest : Bytes) :
    decode (bytes ++ rest) = .ok (suites, rest) := by
  obtain ⟨hcount, rfl⟩ := encode_eq_ok_iff.1 h
  have hlength := length_flatMap_wire suites
  have hsmall : (suites.flatMap wire).length < 256 ^ 2 := by
    unfold maxCount at hcount
    omega
  rw [decode_framed hsmall, if_neg (by omega), spelled_flatMap_wire]

theorem encode_of_decode {data rest : Bytes} {suites : List CipherSuite}
    (h : decode data = .ok (suites, rest)) :
    ∃ bytes, encode suites = .ok bytes ∧ data = bytes ++ rest := by
  rw [decode, bind_eq_ok_iff] at h
  obtain ⟨⟨length, mid⟩, hlength, h⟩ := h
  simp only at h
  split at h
  · cases h
  · rw [bind_eq_ok_iff] at h
    obtain ⟨⟨body, left⟩, hbody, h⟩ := h
    obtain ⟨hsmall, rfl⟩ :=
      Bytes.eq_framed_of_cuts (orFault_eq_ok_iff.1 hlength) (orFault_eq_ok_iff.1 hbody)
    rw [bind_eq_ok_iff] at h
    obtain ⟨found, hfound, h⟩ := h
    cases h
    obtain ⟨_, hwire⟩ := (reader.readAll_eq_iff reader_read_eq_ok_iff).1
      (Reading.toExcept_eq_ok_iff.1 hfound)
    simp only at hwire hsmall ⊢
    rw [hwire] at hsmall ⊢
    refine ⟨_, encode_eq_ok_iff.2 ⟨?_, rfl⟩, rfl⟩
    rw [length_flatMap_wire] at hsmall
    unfold maxCount
    omega

end CipherSuites

end Esni
