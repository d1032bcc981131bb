import Esni.Bytes

/-!
# Items in sequence

Three of the lists in a record are written as items one after the other, with no count: each item
says by itself where it ends. Such a list is read by taking items off the front of the data until
nothing is left or an item is faulty.

## Main definitions

- `ItemReader` — reads one item from the front of a byte string, and always uses some of it
- `ItemReader.readAll` — item after item, up to the end of the data or the first fault
- `Reading` — what was read, and the fault that ended the reading
- `totalLength` — the number of bytes that the items of a list take together
-/

namespace Esni

/-- The number of bytes that the items of a list take together, `length` being that of one. -/
def totalLength {α : Type} (length : α → Nat) (items : List α) : Nat :=
  items.foldr (fun item total => length item + total) 0

@[simp] theorem totalLength_nil {α : Type} (length : α → Nat) : totalLength length [] = 0 := rfl

@[simp] theorem totalLength_cons {α : Type} (length : α → Nat) (item : α) (items : List α) :
    totalLength length (item :: items) = length item + totalLength length items := rfl

/-- No item is longer than all of them together. -/
theorem length_le_totalLength {α : Type} {length : α → Nat} {item : α} {items : List α}
    (h : item ∈ items) : length item ≤ totalLength length items := by
  induction items with
  | nil => cases h
  | cons first others ih =>
    rw [totalLength_cons]
    rcases List.mem_cons.1 h with rfl | hmem
    · exact Nat.le_add_right _ _
    · exact Nat.le_trans (ih hmem) (Nat.le_add_left _ _)

theorem totalLength_map {α β : Type} (length : β → Nat) (view : α → β) (items : List α) :
    totalLength length (items.map view) = totalLength (fun item => length (view item)) items := by
  induction items with
  | nil => rfl
  | cons item items ih => rw [List.map_cons, totalLength_cons, totalLength_cons, ih]

/-- Items that take `n` bytes at least take `n` times their number together. -/
theorem mul_length_le_totalLength {α : Type} {length : α → Nat} {n : Nat}
    (h : ∀ item, n ≤ length item) (items : List α) :
    n * items.length ≤ totalLength length items := by
  induction items with
  | nil => exact Nat.le_refl 0
  | cons item items ih =>
    rw [List.length_cons, totalLength_cons, Nat.mul_succ, Nat.add_comm]
    exact Nat.add_le_add (h item) ih

/-- If every item takes as many bytes as `length` says, so do all of them together. -/
theorem length_flatMap_eq_totalLength {α : Type} {length : α → Nat} {wire : α → Bytes}
    {items : List α} (h : ∀ item ∈ items, (wire item).length = length item) :
    (items.flatMap wire).length = totalLength length items := by
  induction items with
  | nil => rfl
  | cons item items ih =>
    rw [List.flatMap_cons, List.length_append, totalLength_cons, h item (by simp),
      ih fun other hmem => h other (by simp [hmem])]

/-- A way to read one item from the front of a byte string. Each item takes at least one byte, so
reading item after item comes to an end. -/
structure ItemReader (ε α : Type) where
  /-- The item at the front and the data that follows it, or what is wrong with the item. -/
  read : Bytes → Except ε (α × Bytes)
  /-- What follows an item is shorter than the data that the item was read from. -/
  shrinks : ∀ {data item rest}, read data = .ok (item, rest) → rest.length < data.length

/-- What reading a sequence of items came to. -/
structure Reading (ε α : Type) where
  /-- The items before the end of the data or the first fault, in order. -/
  items : List α
  /-- The fault that ended the reading, if it was not the end of the data. -/
  fault : Option ε

/-- A reading counts as a success only if it came to the end of the data. -/
def Reading.toExcept {ε α : Type} (reading : Reading ε α) : Except ε (List α) :=
  match reading.fault with
  | none => .ok reading.items
  | some fault => .error fault

namespace ItemReader

variable {ε α : Type}

/-- Reads on behind the items of `done`, which is in reverse order. -/
def readFrom (reader : ItemReader ε α) (done : List α) (data : Bytes) : Reading ε α :=
  if data = [] then ⟨done.reverse, none⟩
  else
    match h : reader.read data with
    | .error fault => ⟨done.reverse, some fault⟩
    | .ok (item, rest) =>
      have := reader.shrinks h
      reader.readFrom (item :: done) rest
termination_by data.length

/-- Reads items until nothing is left or an item is faulty. -/
def readAll (reader : ItemReader ε α) (data : Bytes) : Reading ε α :=
  reader.readFrom [] data

/-- The items read so far stay at the front. -/
theorem readFrom_eq (reader : ItemReader ε α) (done : List α) (data : Bytes) :
    reader.readFrom done data =
      ⟨done.reverse ++ (reader.readAll data).items, (reader.readAll data).fault⟩ := by
  unfold readAll
  induction h : data.length using Nat.strongRecOn generalizing done data with
  | ind n ih =>
    subst h
    rw [readFrom, readFrom]
    split
    · simp
    · split
      · simp
      · rename_i item rest hread
        have hlt := reader.shrinks hread
        rw [ih _ hlt _ _ rfl, ih _ hlt [item] _ rfl]
        simp

@[simp] theorem readAll_nil (reader : ItemReader ε α) : reader.readAll [] = ⟨[], none⟩ := by
  rw [readAll, readFrom]
  simp

/-- A faulty item ends the reading with nothing read. -/
theorem readAll_of_error (reader : ItemReader ε α) {data : Bytes} {fault : ε}
    (hdata : data ≠ []) (h : reader.read data = .error fault) :
    reader.readAll data = ⟨[], some fault⟩ := by
  rw [readAll, readFrom, if_neg hdata]
  split
  · rename_i fault' h'
    simp_all
  · simp_all

/-- A sound item comes first, and the reading goes on behind it. -/
theorem readAll_of_ok (reader : ItemReader ε α) {data rest : Bytes} {item : α}
    (h : reader.read data = .ok (item, rest)) :
    reader.readAll data =
      ⟨item :: (reader.readAll rest).items, (reader.readAll rest).fault⟩ := by
  have hdata : data ≠ [] := by
    rintro rfl
    exact absurd (reader.shrinks h) (by simp)
  rw [readAll, readFrom, if_neg hdata]
  split
  · simp_all
  · rename_i item' rest' h'
    rw [h] at h'
    obtain ⟨rfl, rfl⟩ := h'
    rw [readFrom_eq]
    simp

/-- Items that read back from the bytes that they are written as come first, and the reading goes
on behind them. -/
theorem readAll_flatMap_append (reader : ItemReader ε α) {wire : α → Bytes} {items : List α}
    (h : ∀ item ∈ items, ∀ rest, reader.read (wire item ++ rest) = .ok (item, rest))
    (rest : Bytes) :
    reader.readAll (items.flatMap wire ++ rest) =
      ⟨items ++ (reader.readAll rest).items, (reader.readAll rest).fault⟩ := by
  induction items with
  | nil => simp
  | cons item items ih =>
    rw [List.flatMap_cons, List.append_assoc, readAll_of_ok reader (h item (by simp) _),
      ih fun other hmem => h other (by simp [hmem])]
    rfl

end ItemReader

end Esni
