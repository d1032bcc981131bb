import Esni.Items

/-!
# Readings and what they leave

A reading follows the data: at its end it stops, at a faulty item it stops with the fault, and
behind a sound item it goes on. The statements below carry facts about one item over to all items
of a reading by this one induction.

## Main statements

- `ItemReader.data_induction` — the induction along a reading
- `ItemReader.exists_eq_flatMap_append` — the items read are written as the front of the data
- `ItemReader.readAll_eq_iff` and `ItemReader.readAll_eq_fault_iff` — a reading to the end is the
  inverse of writing, and where a reading ends with a fault
- `ItemReader.isPrefix_items` — no items that the data starts with are passed over
- `ItemReader.totalLength_of_readAll` — a reading to the end accounts for every byte
- `ItemReader.not_takesRest_of_mem_dropLast` — an item that takes the rest is the last one
-/

namespace Esni.ItemReader

variable {ε α : Type}

/-- A fact about data holds for all of it if it holds at the end of the data and at a faulty item,
and is carried from what follows a sound item to the data with the item in front. -/
theorem data_induction (reader : ItemReader ε α) {motive : Bytes → Prop}
    (nil : motive [])
    (fault : ∀ data fault, data ≠ [] → reader.read data = .error fault → motive data)
    (item : ∀ data item rest, reader.read data = .ok (item, rest) → motive rest → motive data)
    (data : Bytes) : motive data := by
  induction h : data.length using Nat.strongRecOn generalizing data with
  | ind n ih =>
    subst h
    by_cases hdata : data = []
    · exact hdata ▸ nil
    · cases hread : reader.read data with
      | error error => exact fault data error hdata hread
      | ok found =>
        obtain ⟨first, rest⟩ := found
        exact item data first rest hread (ih rest.length (reader.shrinks hread) rest rfl)

/-- If every item that is read in the data is valid and was written in front of what follows it,
then all items of a reading are valid and written one after the other as the front of the data.
Nothing is left behind them unless the reading ended with a fault. -/
theorem exists_eq_flatMap_append (reader : ItemReader ε α) {wire : α → Bytes} {Valid : α → Prop}
    {data : Bytes}
    (h : ∀ {part item rest}, part.length ≤ data.length → reader.read part = .ok (item, rest) →
      Valid item ∧ part = wire item ++ rest) :
    ∃ left, data = (reader.readAll data).items.flatMap wire ++ left ∧
      ((reader.readAll data).fault = none → left = []) ∧
      ∀ item ∈ (reader.readAll data).items, Valid item := by
  induction data using reader.data_induction with
  | nil => exact ⟨[], by simp, by simp, by simp⟩
  | fault data error hdata hread =>
    rw [readAll_of_error reader hdata hread]
    exact ⟨data, by simp, by simp, by simp⟩
  | item data item rest hread ih =>
    have hshorter := Nat.le_of_lt (reader.shrinks hread)
    obtain ⟨left, hrest, hend, hvalid⟩ := ih fun hpart => h (Nat.le_trans hpart hshorter)
    obtain ⟨hitem, hdata⟩ := h (Nat.le_refl _) hread
    rw [readAll_of_ok reader hread]
    refine ⟨left, ?_, hend, ?_⟩
    · rw [hdata, List.flatMap_cons, List.append_assoc, ← hrest]
    · intro other hmem
      rcases List.mem_cons.1 hmem with rfl | hmem
      · exact hitem
      · exact hvalid other hmem

/-- If reading an item is the inverse of writing a valid one, then a reading comes to the end of
the data exactly if the data is valid items written one after the other. -/
theorem readAll_eq_iff (reader : ItemReader ε α) {wire : α → Bytes} {Valid : α → Prop}
    (h : ∀ {data item rest}, reader.read data = .ok (item, rest) ↔
      Valid item ∧ data = wire item ++ rest) {data : Bytes} {items : List α} :
    reader.readAll data = ⟨items, none⟩ ↔
      (∀ item ∈ items, Valid item) ∧ data = items.flatMap wire := by
  constructor
  · intro hread
    obtain ⟨left, hdata, hend, hvalid⟩ := exists_eq_flatMap_append reader fun _ => h.1
    rw [hread] at hdata hend hvalid
    exact ⟨hvalid, by simpa [hend rfl] using hdata⟩
  · rintro ⟨hvalid, rfl⟩
    have hreads : ∀ item ∈ items, ∀ rest, reader.read (wire item ++ rest) = .ok (item, rest) :=
      fun item hmem rest => h.2 ⟨hvalid item hmem, rfl⟩
    have hread := readAll_flatMap_append reader hreads []
    simpa using hread

/-- If reading an item is the inverse of writing a valid one, then a reading ends with a fault
exactly if something follows the valid items that the fault is found in. -/
theorem readAll_eq_fault_iff (reader : ItemReader ε α) {wire : α → Bytes} {Valid : α → Prop}
    (h : ∀ {data item rest}, reader.read data = .ok (item, rest) ↔
      Valid item ∧ data = wire item ++ rest) {data : Bytes} {items : List α} {fault : ε} :
    reader.readAll data = ⟨items, some fault⟩ ↔
      (∀ item ∈ items, Valid item) ∧ ∃ left, left ≠ [] ∧ reader.read left = .error fault ∧
        data = items.flatMap wire ++ left := by
  constructor
  · intro hread
    induction data using reader.data_induction generalizing items with
    | nil => simp at hread
    | fault data error hdata herror =>
      rw [readAll_of_error reader hdata herror] at hread
      cases hread
      exact ⟨by simp, data, hdata, herror, rfl⟩
    | item data item rest hitem ih =>
      rw [readAll_of_ok reader hitem] at hread
      obtain ⟨rfl, hfault⟩ := Reading.mk.inj hread
      obtain ⟨hvalid, left, hleft, herror, hrest⟩ := ih (by rw [← hfault])
      obtain ⟨hfirst, hdata⟩ := h.1 hitem
      refine ⟨List.forall_mem_cons.2 ⟨hfirst, hvalid⟩, left, hleft, herror, ?_⟩
      rw [hdata, List.flatMap_cons, List.append_assoc, ← hrest]
  · rintro ⟨hvalid, left, hleft, herror, rfl⟩
    have hreads : ∀ item ∈ items, ∀ rest, reader.read (wire item ++ rest) = .ok (item, rest) :=
      fun item hmem rest => h.2 ⟨hvalid item hmem, rfl⟩
    rw [readAll_flatMap_append reader hreads, readAll_of_error reader hleft herror, List.append_nil]

/-- Items that the data starts with are the first ones that are read. -/
theorem isPrefix_items (reader : ItemReader ε α) {wire : α → Bytes} {data rest : Bytes}
    {items : List α}
    (h : ∀ item ∈ items, ∀ rest, reader.read (wire item ++ rest) = .ok (item, rest))
    (hdata : data = items.flatMap wire ++ rest) : items <+: (reader.readAll data).items := by
  rw [hdata, readAll_flatMap_append reader h]
  exact List.prefix_append _ _

/-- If every item that is read takes as many bytes as `length` says, then a reading that comes to
the end of the data has read items that take as many bytes as there are. -/
theorem totalLength_of_readAll (reader : ItemReader ε α) {length : α → Nat}
    (h : ∀ {data item rest}, reader.read data = .ok (item, rest) →
      data.length = length item + rest.length) {data : Bytes} {items : List α}
    (hread : reader.readAll data = ⟨items, none⟩) : totalLength length items = data.length := by
  induction data using reader.data_induction generalizing items with
  | nil =>
    rw [readAll_nil] at hread
    cases hread
    rfl
  | fault data error hdata herror =>
    rw [readAll_of_error reader hdata herror] at hread
    cases hread
  | item data item rest hitem ih =>
    rw [readAll_of_ok reader hitem] at hread
    obtain ⟨rfl, hfault⟩ := Reading.mk.inj hread
    rw [totalLength_cons, ih (by rw [← hfault]), h hitem]

/-- If nothing follows an item that takes the rest, such an item can only be the last one. -/
theorem not_takesRest_of_mem_dropLast (reader : ItemReader ε α) {TakesRest : α → Prop}
    {data : Bytes}
    (h : ∀ {part item rest}, part.length ≤ data.length → reader.read part = .ok (item, rest) →
      TakesRest item → rest = []) :
    ∀ item ∈ (reader.readAll data).items.dropLast, ¬TakesRest item := by
  induction data using reader.data_induction with
  | nil => simp
  | fault data error hdata hread => simp [readAll_of_error reader hdata hread]
  | item data first rest hread ih =>
    rw [readAll_of_ok reader hread]
    intro item hmem htakes
    cases hitems : (reader.readAll rest).items with
    | nil => simp [hitems] at hmem
    | cons second others =>
      rw [hitems, List.dropLast_cons_cons] at hmem
      rcases List.mem_cons.1 hmem with rfl | hmem
      · -- The first item takes the rest, so there is no data for a second one.
        simp [h (Nat.le_refl _) hread htakes] at hitems
      · have hshorter := Nat.le_of_lt (reader.shrinks hread)
        exact ih (fun hpart => h (Nat.le_trans hpart hshorter)) item (hitems ▸ hmem) htakes

end Esni.ItemReader
