/-!
# Byte strings

A byte string is a list of bytes. Two things are done with them everywhere: a number is written
with a fixed number of bytes, most significant first, and a front part of a known length is cut
off. A cut that asks for more than there is gives `none`, so no reader ever looks past the end.

## Main definitions

- `Bytes.ofNat` and `Bytes.toNat` — big-endian numerals of a fixed width
- `Octets` — byte strings of one length
- `orFault` — a failed cut as an error
- `Bytes.cut?` — the first `n` bytes and the rest
- `Bytes.cutNat?` — a numeral of a fixed width and the rest
- `Bytes.ofUInt16` and `Bytes.cutUInt16?` — the same for sixteen-bit numbers
-/

namespace Esni

abbrev Bytes := List UInt8

/-- The byte strings of length `n`. -/
abbrev Octets (n : Nat) := { data : Bytes // data.length = n }

/-- What a cut gave, or the given fault if the data was too short. -/
def orFault {ε α : Type} (fault : ε) : Option α → Except ε α
  | none => .error fault
  | some found => .ok found

@[simp] theorem orFault_eq_ok_iff {ε α : Type} {fault : ε} {cut : Option α} {found : α} :
    orFault fault cut = .ok found ↔ cut = some found := by
  cases cut <;> simp [orFault]

@[simp] theorem orFault_eq_error_iff {ε α : Type} {fault fault' : ε} {cut : Option α} :
    orFault fault cut = .error fault' ↔ cut = none ∧ fault = fault' := by
  cases cut <;> simp [orFault]

namespace Bytes

/-- The last `width` base-256 digits of `n`, most significant first. -/
def ofNat : (width : Nat) → (n : Nat) → Bytes
  | 0, _ => []
  | width + 1, n => ofNat width (n / 256) ++ [UInt8.ofNat n]

/-- The number that a byte string spells in base 256, most significant digit first. -/
def toNat (data : Bytes) : Nat :=
  data.foldl (fun n byte => n * 256 + byte.toNat) 0

@[simp] theorem length_ofNat (width n : Nat) : (ofNat width n).length = width := by
  induction width generalizing n with
  | zero => rfl
  | succ width ih => simp [ofNat, ih]

@[simp] theorem toNat_nil : toNat [] = 0 := rfl

@[simp] theorem toNat_concat (data : Bytes) (byte : UInt8) :
    toNat (data ++ [byte]) = toNat data * 256 + byte.toNat := by
  simp [toNat]

/-- The first `n` bytes and what follows them, if there are that many. -/
def cut? (n : Nat) (data : Bytes) : Option (Octets n × Bytes) :=
  if h : (data.take n).length = n then some (⟨data.take n, h⟩, data.drop n) else none

/-- A cut gives back the two parts of the data, the first of the length asked for. -/
theorem cut?_eq_some_iff {n : Nat} {data rest : Bytes} {front : Octets n} :
    cut? n data = some (front, rest) ↔ data = front.val ++ rest := by
  obtain ⟨front, hfront⟩ := front
  unfold cut?
  constructor
  · intro h
    split at h
    · obtain ⟨rfl, rfl⟩ := h
      simp
    · cases h
  · rintro rfl
    have htake : List.take n (front ++ rest) = front := by simp [← hfront]
    have hdrop : List.drop n (front ++ rest) = rest := by simp [← hfront]
    simp [htake, hdrop, hfront]

theorem cut?_eq_none_iff {n : Nat} {data : Bytes} : cut? n data = none ↔ data.length < n := by
  unfold cut?
  split <;> rename_i h <;> simp at h ⊢ <;> omega

theorem length_of_cut? {n : Nat} {data rest : Bytes} {front : Octets n}
    (h : cut? n data = some (front, rest)) : data.length = n + rest.length := by
  rw [cut?_eq_some_iff] at h
  simp [h, front.property]

/-- A numeral of `width` bytes at the front of the data, and what follows it. -/
def cutNat? (width : Nat) (data : Bytes) : Option (Nat × Bytes) :=
  (cut? width data).map fun (front, rest) => (toNat front.val, rest)

theorem length_of_cutNat? {width n : Nat} {data rest : Bytes}
    (h : cutNat? width data = some (n, rest)) : data.length = width + rest.length := by
  obtain ⟨⟨front, _⟩, hcut, h⟩ := Option.map_eq_some_iff.1 h
  cases h
  exact length_of_cut? hcut

def ofUInt16 (n : UInt16) : Bytes := ofNat 2 n.toNat

@[simp] theorem length_ofUInt16 (n : UInt16) : (ofUInt16 n).length = 2 := length_ofNat _ _

/-- A sixteen-bit number at the front of the data, and what follows it. -/
def cutUInt16? (data : Bytes) : Option (UInt16 × Bytes) :=
  (cutNat? 2 data).map fun (n, rest) => (UInt16.ofNat n, rest)

theorem length_of_cutUInt16? {n : UInt16} {data rest : Bytes}
    (h : cutUInt16? data = some (n, rest)) : data.length = 2 + rest.length := by
  obtain ⟨⟨m, _⟩, hcut, h⟩ := Option.map_eq_some_iff.1 h
  cases h
  exact length_of_cutNat? hcut

end Bytes

end Esni
