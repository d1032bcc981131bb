import Esni.Bytes
import Mathlib

/-!
# Numerals and cuts

A numeral of a fixed width and the number that it spells determine each other, as long as the
number has that many digits. So a reader that cuts a numeral off the data has seen the one numeral
that a writer would have written, and a writer's numeral is read back whatever follows it.

## Main statements

- `Bytes.toNat_ofNat` and `Bytes.ofNat_toNat` — numbers and numerals
- `Bytes.cutNat?_eq_some_iff` and `Bytes.cutUInt16?_eq_some_iff` — cuts as appends
- `Bytes.framed` — bytes behind their own length, and the cuts that undo it
- `bind_eq_ok_iff` — the two halves of a computation that may fail
-/

namespace Esni

section Outcomes

variable {ε ε' α β : Type}

/-- Two steps succeed exactly if the first does and the second does with its result. -/
theorem bind_eq_ok_iff {step : Except ε α} {next : α → Except ε β} {found : β} :
    (step >>= next) = .ok found ↔ ∃ value, step = .ok value ∧ next value = .ok found := by
  cases step <;> simp [bind, Except.bind]

@[simp] theorem ok_bind (value : α) (next : α → Except ε β) :
    ((.ok value : Except ε α) >>= next) = next value := rfl

@[simp] theorem error_bind (fault : ε) (next : α → Except ε β) :
    ((.error fault : Except ε α) >>= next) = .error fault := rfl

@[simp] theorem mapError_eq_ok_iff {rename : ε → ε'} {step : Except ε α} {found : α} :
    step.mapError rename = .ok found ↔ step = .ok found := by
  cases step <;> simp [Except.mapError]

@[simp] theorem mapError_ok (rename : ε → ε') (value : α) :
    (.ok value : Except ε α).mapError rename = .ok value := rfl

@[simp] theorem mapError_error (rename : ε → ε') (fault : ε) :
    (.error fault : Except ε α).mapError rename = .error (rename fault) := rfl

@[simp] theorem orFault_some (fault : ε) (value : α) :
    orFault fault (some value) = .ok value := rfl

@[simp] theorem orFault_none (fault : ε) :
    orFault fault (none : Option α) = .error fault := rfl

end Outcomes

namespace Bytes

theorem toNat_lt (data : Bytes) : toNat data < 256 ^ data.length := by
  induction data using List.reverseRecOn with
  | nil => simp
  | append_singleton data byte ih =>
    have hbyte := byte.toNat_lt
    rw [toNat_concat, List.length_append, List.length_singleton, Nat.pow_succ]
    omega

/-- A numeral spells the number that it was written for, up to the digits that do not fit. -/
theorem toNat_ofNat (width n : Nat) : toNat (ofNat width n) = n % 256 ^ width := by
  induction width generalizing n with
  | zero => simp [ofNat, Nat.mod_one]
  | succ width ih =>
    calc toNat (ofNat (width + 1) n)
        = n / 256 % 256 ^ width * 256 + n % 256 := by
          rw [ofNat, toNat_concat, ih, UInt8.toNat_ofNat']
      _ = n % 256 + 256 * (n / 256 % 256 ^ width) := by omega
      _ = n % 256 ^ (width + 1) := by rw [← Nat.mod_mul, Nat.pow_succ']

theorem toNat_ofNat_of_lt {width n : Nat} (h : n < 256 ^ width) :
    toNat (ofNat width n) = n := by
  rw [toNat_ofNat, Nat.mod_eq_of_lt h]

/-- Bytes are the numeral of the number that they spell: leading zeros are kept by the width. -/
theorem ofNat_toNat (data : Bytes) : ofNat data.length (toNat data) = data := by
  -- The last digit is the remainder by the base, so the induction takes bytes off the end.
  induction data using List.reverseRecOn with
  | nil => rfl
  | append_singleton data byte ih =>
    have hbyte := byte.toNat_lt
    have hfront : (toNat data * 256 + byte.toNat) / 256 = toNat data := by omega
    have hlast : UInt8.ofNat (toNat data * 256 + byte.toNat) = byte := by
      apply UInt8.toNat_inj.1
      rw [UInt8.toNat_ofNat']
      omega
    rw [List.length_append, List.length_singleton, ofNat, toNat_concat, hfront, hlast, ih]

/-- Data of as many bytes as a numeral has is a numeral and what is behind it. -/
theorem eq_ofNat_append_drop {width : Nat} {data : Bytes} (h : width ≤ data.length) :
    data = ofNat width (toNat (data.take width)) ++ data.drop width := by
  have hnumeral := ofNat_toNat (data.take width)
  rw [List.length_take_of_le h] at hnumeral
  rw [hnumeral, List.take_append_drop]

theorem cut?_append {front : Bytes} {n : Nat} (h : front.length = n) (rest : Bytes) :
    cut? n (front ++ rest) = some (⟨front, h⟩, rest) :=
  cut?_eq_some_iff.2 rfl

theorem cutNat?_eq_some_iff {width n : Nat} {data rest : Bytes} :
    cutNat? width data = some (n, rest) ↔ n < 256 ^ width ∧ data = ofNat width n ++ rest := by
  constructor
  · intro h
    obtain ⟨⟨⟨front, hfront⟩, rest'⟩, hcut, hpair⟩ := Option.map_eq_some_iff.1 h
    obtain ⟨rfl, rfl⟩ := Prod.mk.inj hpair
    subst hfront
    exact ⟨toNat_lt front, by rw [cut?_eq_some_iff.1 hcut, ofNat_toNat]⟩
  · rintro ⟨hn, rfl⟩
    unfold cutNat?
    rw [cut?_append (length_ofNat width n)]
    simp [toNat_ofNat_of_lt hn]

theorem cutNat?_eq_none_iff {width : Nat} {data : Bytes} :
    cutNat? width data = none ↔ data.length < width := by
  rw [cutNat?, Option.map_eq_none_iff, cut?_eq_none_iff]

theorem cutNat?_append {width n : Nat} (h : n < 256 ^ width) (rest : Bytes) :
    cutNat? width (ofNat width n ++ rest) = some (n, rest) :=
  cutNat?_eq_some_iff.2 ⟨h, rfl⟩

theorem cutUInt16?_eq_some_iff {n : UInt16} {data rest : Bytes} :
    cutUInt16? data = some (n, rest) ↔ data = ofUInt16 n ++ rest := by
  constructor
  · intro h
    obtain ⟨⟨value, rest'⟩, hcut, hpair⟩ := Option.map_eq_some_iff.1 h
    obtain ⟨rfl, rfl⟩ := Prod.mk.inj hpair
    obtain ⟨hvalue, rfl⟩ := cutNat?_eq_some_iff.1 hcut
    have hsmall : value < 2 ^ 16 := by omega
    rw [ofUInt16, UInt16.toNat_ofNat', Nat.mod_eq_of_lt hsmall]
  · rintro rfl
    unfold cutUInt16? ofUInt16
    rw [cutNat?_append n.toNat_lt]
    simp

theorem cutUInt16?_eq_none_iff {data : Bytes} :
    cutUInt16? data = none ↔ data.length < 2 := by
  rw [cutUInt16?, Option.map_eq_none_iff, cutNat?_eq_none_iff]

theorem cutUInt16?_append (n : UInt16) (rest : Bytes) :
    cutUInt16? (ofUInt16 n ++ rest) = some (n, rest) :=
  cutUInt16?_eq_some_iff.2 rfl

theorem ofUInt16_injective : Function.Injective ofUInt16 := by
  intro n m h
  have hcut := cutUInt16?_append n []
  rw [h, cutUInt16?_append] at hcut
  exact (Prod.mk.inj (Option.some.inj hcut)).1.symm

/-- Bytes behind their own length, which takes `width` bytes. -/
def framed (width : Nat) (body : Bytes) : Bytes := ofNat width body.length ++ body

@[simp] theorem length_framed (width : Nat) (body : Bytes) :
    (framed width body).length = width + body.length := by
  rw [framed, List.length_append, length_ofNat]

theorem cutNat?_framed {width : Nat} {body : Bytes} (h : body.length < 256 ^ width)
    (rest : Bytes) :
    cutNat? width (framed width body ++ rest) = some (body.length, body ++ rest) := by
  rw [framed, List.append_assoc, cutNat?_append h]

/-- A length and as many bytes as it tells are a frame. -/
theorem eq_framed_of_cuts {width n : Nat} {data mid rest : Bytes} {body : Octets n}
    (hlength : cutNat? width data = some (n, mid)) (hbody : cut? n mid = some (body, rest)) :
    body.val.length < 256 ^ width ∧ data = framed width body.val ++ rest := by
  obtain ⟨hn, rfl⟩ := cutNat?_eq_some_iff.1 hlength
  obtain rfl := cut?_eq_some_iff.1 hbody
  refine ⟨body.property.symm ▸ hn, ?_⟩
  rw [framed, List.append_assoc, body.property]

end Bytes

end Esni
