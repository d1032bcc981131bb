import Esni.Proofs.Numerals

/-!
# Reading by position

The decoders of this library cut items off the front of the data. A program that keeps the data in
one place reads by position instead, and each index and each slice of it can lie outside of the
data. Here every such access is an operation that may fail, so that it can be said that none does.

## Main definitions

- `Attempt` — a computation that ends with a result, a fault of the data, or a failed access
- `Bytes.byteAt`, `Bytes.slice` and `Bytes.copied` — the accesses that may fail
- `Tracks` — the computation finds what is cut off the front of the data

## Main statements

- `Bytes.slice?_eq_map_cut?` — a slice that is asked for carefully is what a cut gives
- `Tracks.bind_view` — computations that track are put one behind the other
-/

namespace Esni

/-- Why a computation ends without a result. -/
inductive Stop (ε : Type) where
  /-- An index or a slice is not within the data. -/
  | outOfRange
  /-- A loop has not ended after as many rounds as it was given. -/
  | outOfRounds
  /-- The data is faulty. -/
  | fault (error : ε)

/-- The same end, with another account of the fault. -/
def Stop.map {ε ε' : Type} (rename : ε → ε') : Stop ε → Stop ε'
  | outOfRange => outOfRange
  | outOfRounds => outOfRounds
  | fault error => fault (rename error)

/-- A computation that reads by position. -/
abbrev Attempt (ε α : Type) := Except (Stop ε) α

/-- The computation has a result, or a fault of the data is the reason why it has none. -/
structure Attempt.InRange {ε α : Type} (attempt : Attempt ε α) : Prop where
  not_outOfRange : attempt ≠ .error .outOfRange
  not_outOfRounds : attempt ≠ .error .outOfRounds

theorem Attempt.inRange_mapError {ε α : Type} (outcome : Except ε α) :
    Attempt.InRange (outcome.mapError Stop.fault) := by
  cases outcome with
  | ok value => exact ⟨by simp, by simp⟩
  | error fault => exact ⟨by simp, by simp⟩

namespace Bytes

variable {ε : Type} {data rest : Bytes} {offset n : Nat}

/-- The byte at a position. -/
def byteAt (data : Bytes) (position : Nat) : Attempt ε UInt8 :=
  orFault .outOfRange data[position]?

/-- The bytes from `start` up to `stop`, if both are positions of the data in this order. -/
def slice? (data : Bytes) (start stop : Nat) : Option Bytes :=
  if start ≤ stop ∧ stop ≤ data.length then some ((data.take stop).drop start) else none

/-- The bytes from `start` up to `stop`. -/
def slice (data : Bytes) (start stop : Nat) : Attempt ε Bytes :=
  orFault .outOfRange (data.slice? start stop)

/-- The bytes from `start` on. -/
def sliceFrom (data : Bytes) (start : Nat) : Attempt ε Bytes := data.slice start data.length

/-- The first `n` bytes, if there are that many. -/
def firstChunk? (n : Nat) (data : Bytes) : Option (Octets n) := (cut? n data).map Prod.fst

/-- A copy of the source in a place of `n` bytes, which must be as many as there are. -/
def copied (n : Nat) (source : Bytes) : Attempt ε (Octets n) :=
  if h : source.length = n then .ok ⟨source, h⟩ else .error .outOfRange

/-- The number in two bytes. -/
def uint16At (data : Bytes) (position : Nat) : Attempt ε UInt16 := do
  let high ← data.byteAt position
  let low ← data.byteAt (position + 1)
  return UInt16.ofNat (toNat [high, low])

theorem sliceFrom_eq (h : offset ≤ data.length) :
    (data.sliceFrom offset : Attempt ε Bytes) = .ok (data.drop offset) := by
  rw [sliceFrom, slice, slice?, if_pos ⟨h, Nat.le_refl _⟩, List.take_length, orFault_some]

/-- A slice that the program asks for carefully is what a cut gives. -/
theorem slice?_eq_map_cut? (h : offset ≤ data.length) :
    data.slice? offset (offset + n) = (cut? n (data.drop offset)).map fun cut => cut.1.val := by
  unfold slice?
  by_cases hlong : offset + n ≤ data.length
  · have hlength : ((data.drop offset).take n).length = n := by
      rw [List.length_take, List.length_drop]
      omega
    rw [if_pos ⟨Nat.le_add_right _ _, hlong⟩, cut?, dif_pos hlength, List.drop_take,
      Nat.add_sub_cancel_left]
    rfl
  · have hnone : cut? n (data.drop offset) = none := by
      rw [cut?_eq_none_iff, List.length_drop]
      omega
    rw [if_neg (fun h => hlong h.2), hnone]
    rfl

theorem slice_of_cut? {front : Octets n} (h : offset ≤ data.length)
    (hcut : cut? n (data.drop offset) = some (front, rest)) :
    (data.slice offset (offset + n) : Attempt ε Bytes) = .ok front.val := by
  rw [slice, slice?_eq_map_cut? h, hcut]
  rfl

theorem copied_slice (h : (data.take n).length = n) :
    (data.slice 0 n >>= copied n : Attempt ε (Octets n)) = .ok ⟨data.take n, h⟩ := by
  have hcut : cut? n (data.drop 0) = some (⟨data.take n, h⟩, data.drop n) := dif_pos h
  have hslice : (data.slice 0 (0 + n) : Attempt ε Bytes) = .ok (data.take n) :=
    slice_of_cut? (Nat.zero_le _) hcut
  rw [Nat.zero_add] at hslice
  rw [hslice, ok_bind, copied, dif_pos h]

theorem length_lt_of_cut?_eq_none (h : offset ≤ data.length)
    (hcut : cut? n (data.drop offset) = none) : data.length < offset + n := by
  have hlength := cut?_eq_none_iff.1 hcut
  rw [List.length_drop] at hlength
  omega

theorem drop_of_cut? {front : Octets n} (h : offset ≤ data.length)
    (hcut : cut? n (data.drop offset) = some (front, rest)) :
    offset + n ≤ data.length ∧ rest = data.drop (offset + n) := by
  have hdata := cut?_eq_some_iff.1 hcut
  constructor
  · have hlength := congrArg List.length hdata
    rw [List.length_drop, List.length_append, front.property] at hlength
    omega
  · rw [← List.drop_drop, hdata, List.drop_left' front.property]

theorem cutNat?_cons (byte : UInt8) (rest : Bytes) :
    cutNat? 1 (byte :: rest) = some (byte.toNat, rest) := by
  have hcut : cut? 1 (byte :: rest) = some (⟨[byte], rfl⟩, rest) :=
    cut?_eq_some_iff.2 rfl
  rw [cutNat?, hcut, Option.map_some]
  simp [toNat]

theorem exists_eq_cons_cons (h : 2 ≤ data.length) :
    ∃ high low rest, data = high :: low :: rest := by
  match data, h with
  | high :: low :: rest, _ => exact ⟨high, low, rest, rfl⟩

theorem cutNat?_cons_cons (high low : UInt8) (rest : Bytes) :
    cutNat? 2 (high :: low :: rest) = some (toNat [high, low], rest) := by
  have hcut : cut? 2 (high :: low :: rest) = some (⟨[high, low], rfl⟩, rest) :=
    cut?_eq_some_iff.2 rfl
  rw [cutNat?, hcut]
  rfl

theorem cutUInt16?_cons_cons (high low : UInt8) (rest : Bytes) :
    cutUInt16? (high :: low :: rest) = some (UInt16.ofNat (toNat [high, low]), rest) := by
  rw [cutUInt16?, cutNat?_cons_cons]
  rfl

theorem toNat_ofNat_two (high low : UInt8) :
    (UInt16.ofNat (toNat [high, low])).toNat = toNat [high, low] := by
  have hsmall : toNat [high, low] < 256 ^ 2 := toNat_lt [high, low]
  rw [UInt16.toNat_ofNat', Nat.mod_eq_of_lt (by omega)]

theorem ofNat_two_eq_zero_iff (high low : UInt8) :
    UInt16.ofNat (toNat [high, low]) = 0 ↔ toNat [high, low] = 0 := by
  rw [← UInt16.toNat_inj, toNat_ofNat_two]
  rfl

theorem uint16At_zero (high low : UInt8) (rest : Bytes) :
    (uint16At (high :: low :: rest) 0 : Attempt ε UInt16) =
      .ok (UInt16.ofNat (toNat [high, low])) := rfl

theorem uint16At_ofUInt16 (n : UInt16) (rest : Bytes) :
    (uint16At (ofUInt16 n ++ rest) 0 : Attempt ε UInt16) = .ok n := by
  have hcut := cutUInt16?_append n rest
  have hlength : 2 ≤ (ofUInt16 n ++ rest).length := by
    rw [List.length_append, length_ofUInt16]
    exact Nat.le_add_right _ _
  obtain ⟨high, low, left, hdata⟩ := exists_eq_cons_cons hlength
  rw [hdata, cutUInt16?_cons_cons, Option.some.injEq, Prod.mk.injEq] at hcut
  rw [hdata, uint16At_zero, hcut.1]

end Bytes

/-- The computation reads what a reader takes off the front of the data: the same value or the
same fault, and it goes on at the position of what the reader leaves. -/
structure Tracks {ε α : Type} (data : Bytes) (attempt : Attempt ε (α × Nat))
    (reading : Except ε (α × Bytes)) : Prop where
  fault : ∀ error, reading = .error error → attempt = .error (.fault error)
  value : ∀ found rest, reading = .ok (found, rest) →
    ∃ offset ≤ data.length, attempt = .ok (found, offset) ∧ rest = data.drop offset

namespace Tracks

variable {ε α : Type} {data : Bytes}

theorem of_error (error : ε) :
    Tracks data (.error (.fault error) : Attempt ε (α × Nat)) (.error error) where
  fault _ h := by
    cases h
    rfl
  value _ _ h := nomatch h

theorem of_ok {found : α} {offset : Nat} {rest : Bytes} (h : offset ≤ data.length)
    (hrest : rest = data.drop offset) :
    Tracks data (.ok (found, offset) : Attempt ε (α × Nat)) (.ok (found, rest)) where
  fault _ h := nomatch h
  value _ _ heq := by
    cases heq
    exact ⟨offset, h, rfl, hrest⟩

theorem inRange {attempt : Attempt ε (α × Nat)} {reading : Except ε (α × Bytes)}
    (h : Tracks data attempt reading) : attempt.InRange := by
  cases hreading : reading with
  | error error =>
    rw [h.fault error hreading]
    exact ⟨by simp, by simp⟩
  | ok value =>
    obtain ⟨found, rest⟩ := value
    obtain ⟨offset, _, hattempt, _⟩ := h.value found rest hreading
    rw [hattempt]
    exact ⟨by simp, by simp⟩

theorem mapError {ε' : Type} {attempt : Attempt ε (α × Nat)} {reading : Except ε (α × Bytes)}
    (h : Tracks data attempt reading) (rename : ε → ε') :
    Tracks data (attempt.mapError (Stop.map rename)) (reading.mapError rename) := by
  cases hreading : reading with
  | error error =>
    rw [h.fault error hreading]
    exact .of_error _
  | ok value =>
    obtain ⟨found, rest⟩ := value
    obtain ⟨offset, hoffset, hattempt, hrest⟩ := h.value found rest hreading
    rw [hattempt]
    exact .of_ok hoffset hrest

/-- The part of the data that starts at a position is read as the data itself from there on. -/
theorem of_drop {attempt : Attempt ε (α × Nat)} {reading : Except ε (α × Bytes)} {offset : Nat}
    (hoffset : offset ≤ data.length) (h : Tracks (data.drop offset) attempt reading) :
    Tracks data (attempt.map fun found => (found.1, offset + found.2)) reading := by
  cases hreading : reading with
  | error error =>
    rw [h.fault error hreading]
    exact .of_error _
  | ok value =>
    obtain ⟨found, rest⟩ := value
    obtain ⟨length, hlength, hattempt, hrest⟩ := h.value found rest hreading
    rw [List.length_drop] at hlength
    rw [List.drop_drop] at hrest
    rw [hattempt]
    exact .of_ok (by omega) hrest

/-- What comes after a value can be read from the rest of the data or from the position behind the
value, which may have to be worked out from what was returned. -/
theorem bind_view {β γ : Type} {attempt : Attempt ε γ} {view : γ → α × Nat}
    {reading : Except ε (α × Bytes)} {next : γ → Attempt ε β} {next' : α × Bytes → Except ε β}
    (h : Tracks data (attempt.map view) reading)
    (hnext : ∀ found, (view found).2 ≤ data.length →
      next found = (next' ((view found).1, data.drop (view found).2)).mapError .fault) :
    attempt >>= next = (reading >>= next').mapError .fault := by
  cases hreading : reading with
  | error error =>
    have hattempt := h.fault error hreading
    cases attempt with
    | error stop =>
      cases hattempt
      rfl
    | ok found => cases hattempt
  | ok value =>
    obtain ⟨found, rest⟩ := value
    obtain ⟨offset, hoffset, hattempt, rfl⟩ := h.value found rest hreading
    cases attempt with
    | error stop => cases hattempt
    | ok found' =>
      have hview : view found' = (found, offset) := Except.ok.inj hattempt
      have hequal := hnext found'
      rw [hview] at hequal
      rw [ok_bind, ok_bind]
      exact hequal hoffset

theorem bind {β : Type} {attempt : Attempt ε (α × Nat)} {reading : Except ε (α × Bytes)}
    {next : α × Nat → Attempt ε β} {next' : α × Bytes → Except ε β}
    (h : Tracks data attempt reading)
    (hnext : ∀ found, found.2 ≤ data.length →
      next found = (next' (found.1, data.drop found.2)).mapError .fault) :
    attempt >>= next = (reading >>= next').mapError .fault := by
  have hview : Tracks data (attempt.map id) reading := by rwa [Except.map_id]
  exact bind_view hview hnext

end Tracks

end Esni
