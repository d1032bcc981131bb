import Esni.Items
import Esni.Proofs.IndexedReading

/-!
# Loops over a region

Three lists of a record are read by a loop that moves an offset through a region of the data, by as
much as each item says. A loop is run here for a bounded number of rounds, so that it can be said
that the bound is not reached. If the loop finds the items that a reader takes off the front of the
region, and each of them takes some bytes of the region, the offset stays in the region and the
loop comes to what the reader comes to.

## Main definitions

- `Loop` — a loop over the items of a region, and `Loop.run` for a bounded number of rounds
- `Loop.Tracks` — the loop finds the items of a reader
- `LoopEnd.Within` — the loop has come to an end of its own within its region

## Main statements

- `Loop.result_run` — a loop that tracks a reader comes to what is gathered of the reading
- `Loop.within_run` — it ends in its region, and its items cannot be too many
-/

namespace Esni

/-- A loop that takes items from a region, one a round, and gathers them in a `σ`. -/
structure Loop (ε α σ : Type) where
  itemAt : Nat → Attempt ε α
  /-- The number of bytes to go on behind the item. -/
  width : α → Nat
  add : σ → α → Except ε σ

/-- Where a loop is. -/
structure Cursor (σ : Type) where
  offset : Nat
  gathered : σ

/-- Where a loop ended, and why if it was not the end of the region. -/
structure LoopEnd (ε σ : Type) where
  cursor : Cursor σ
  stop : Option (Stop ε)

namespace LoopEnd

variable {ε σ : Type}

/-- What the loop gives to the program around it. -/
def result (ended : LoopEnd ε σ) : Attempt ε σ :=
  match ended.stop with
  | none => .ok ended.cursor.gathered
  | some stop => .error stop

/-- The loop has come to an end of its own inside of its region, with so few items that each of
them has taken `least` bytes of the region. -/
structure Within (ended : LoopEnd ε σ) (size least : Nat) (count : σ → Nat) : Prop where
  inRange : ended.result.InRange
  offset_le : ended.cursor.offset ≤ size
  count_le : count ended.cursor.gathered ≤ size / least

end LoopEnd

namespace Loop

variable {ε α σ : Type}

/-- One round: the item is read, the position moves behind it, and it is added to the others. -/
def round (loop : Loop ε α σ) (cursor : Cursor σ) : LoopEnd ε σ :=
  match loop.itemAt cursor.offset with
  | .error stop => ⟨cursor, some stop⟩
  | .ok item =>
    let offset := cursor.offset + loop.width item
    match loop.add cursor.gathered item with
    | .error fault => ⟨⟨offset, cursor.gathered⟩, some (.fault fault)⟩
    | .ok gathered => ⟨⟨offset, gathered⟩, none⟩

/-- Goes on as long as the position is within a region of the given size, for the given number of
rounds at most. -/
def run (loop : Loop ε α σ) (size : Nat) : (rounds : Nat) → Cursor σ → LoopEnd ε σ
  | 0, cursor => ⟨cursor, if cursor.offset < size then some .outOfRounds else none⟩
  | rounds + 1, cursor =>
    if cursor.offset < size then
      match loop.round cursor with
      | ⟨cursor, none⟩ => loop.run size rounds cursor
      | ended => ended
    else ⟨cursor, none⟩

/-- At each position of the region the loop finds the item that the reader takes off the rest of
the region. An item has `least` bytes or more, all of them in the data that it is read from, and
the reader goes on where the loop does. -/
structure Tracks (loop : Loop ε α σ) (reader : ItemReader ε α) (region : Bytes) (least : Nat) :
    Prop where
  itemAt_eq : ∀ offset < region.length,
    loop.itemAt offset = ((reader.read (region.drop offset)).map Prod.fst).mapError .fault
  width_of_read : ∀ {data item rest}, reader.read data = .ok (item, rest) →
    least ≤ loop.width item ∧ loop.width item ≤ data.length ∧ rest = data.drop (loop.width item)

end Loop

/-- What is gathered of a reading: items are added up to the first that is refused, and a fault
behind the items counts only if none is. -/
def Reading.gather {ε α σ : Type} (add : σ → α → Except ε σ) (start : σ)
    (reading : Reading ε α) : Except ε σ := do
  let gathered ← reading.items.foldlM add start
  match reading.fault with
  | none => .ok gathered
  | some fault => .error fault

theorem Reading.gather_append {ε α β : Type} {add : List β → α → Except ε (List β)} {view : α → β}
    (hadd : ∀ gathered item, add gathered item = .ok (gathered ++ [view item]))
    (reading : Reading ε α) (start : List β) :
    reading.gather add start = reading.toExcept.map fun items => start ++ items.map view := by
  have hitems (items : List α) : items.foldlM add start = .ok (start ++ items.map view) := by
    induction items generalizing start with
    | nil =>
      rw [List.map_nil, List.append_nil]
      rfl
    | cons item items ih =>
      rw [List.foldlM_cons, hadd, ok_bind, ih, List.append_assoc]
      rfl
  obtain ⟨items, fault⟩ := reading
  rw [Reading.gather, hitems, ok_bind]
  cases fault with
  | none => rfl
  | some fault => rfl

namespace Loop

variable {ε α σ : Type} {loop : Loop ε α σ} {reader : ItemReader ε α} {region : Bytes}
  {least size rounds : Nat} {cursor : Cursor σ}

theorem Tracks.itemAt_of_error {offset : Nat} {error : ε}
    (htracks : loop.Tracks reader region least) (h : offset < region.length)
    (hread : reader.read (region.drop offset) = .error error) :
    loop.itemAt offset = .error (.fault error) := by
  rw [htracks.itemAt_eq offset h, hread]
  rfl

theorem Tracks.itemAt_of_ok {offset : Nat} {item : α} {rest : Bytes}
    (htracks : loop.Tracks reader region least) (h : offset < region.length)
    (hread : reader.read (region.drop offset) = .ok (item, rest)) :
    loop.itemAt offset = .ok item ∧ least ≤ loop.width item ∧
      offset + loop.width item ≤ region.length ∧ rest = region.drop (offset + loop.width item) := by
  obtain ⟨hleast, hwithin, hrest⟩ := htracks.width_of_read hread
  rw [List.length_drop] at hwithin
  rw [List.drop_drop] at hrest
  refine ⟨?_, hleast, by omega, hrest⟩
  rw [htracks.itemAt_eq offset h, hread]
  rfl

theorem run_of_le (h : size ≤ cursor.offset) : loop.run size rounds cursor = ⟨cursor, none⟩ := by
  cases rounds with
  | zero => rw [run, if_neg (Nat.not_lt.2 h)]
  | succ rounds => rw [run, if_neg (Nat.not_lt.2 h)]

theorem run_of_itemAt_error {stop : Stop ε} (hoffset : cursor.offset < size)
    (h : loop.itemAt cursor.offset = .error stop) :
    loop.run size (rounds + 1) cursor = ⟨cursor, some stop⟩ := by
  rw [run, if_pos hoffset, round, h]

theorem run_of_add_error {item : α} {error : ε} (hoffset : cursor.offset < size)
    (hitem : loop.itemAt cursor.offset = .ok item)
    (hadd : loop.add cursor.gathered item = .error error) :
    loop.run size (rounds + 1) cursor =
      ⟨⟨cursor.offset + loop.width item, cursor.gathered⟩, some (.fault error)⟩ := by
  rw [run, if_pos hoffset, round, hitem]
  dsimp only
  rw [hadd]

theorem run_of_add_ok {item : α} {gathered : σ} (hoffset : cursor.offset < size)
    (hitem : loop.itemAt cursor.offset = .ok item)
    (hadd : loop.add cursor.gathered item = .ok gathered) :
    loop.run size (rounds + 1) cursor =
      loop.run size rounds ⟨cursor.offset + loop.width item, gathered⟩ := by
  rw [run, if_pos hoffset, round, hitem]
  dsimp only
  rw [hadd]

theorem rounds_left {width : Nat} (hleast : 0 < least) (hwidth : least ≤ width)
    (h : cursor.offset + width ≤ size)
    (hrounds : (size - cursor.offset) / least < rounds + 1) :
    (size - (cursor.offset + width)) / least < rounds := by
  have hquotient :
      (size - (cursor.offset + width)) / least + 1 ≤ (size - cursor.offset) / least := by
    rw [← Nat.add_div_right _ hleast]
    apply Nat.div_le_div_right
    omega
  omega

/-- A loop that takes the items of a reader comes to what is gathered of the reading. -/
theorem result_run (htracks : loop.Tracks reader region least) (hleast : 0 < least)
    (hoffset : cursor.offset ≤ region.length)
    (hrounds : (region.length - cursor.offset) / least < rounds) :
    (loop.run region.length rounds cursor).result =
      ((reader.readAll (region.drop cursor.offset)).gather loop.add cursor.gathered).mapError
        .fault := by
  induction rounds generalizing cursor with
  | zero => exact absurd hrounds (Nat.not_lt_zero _)
  | succ rounds ih =>
    rcases Nat.eq_or_lt_of_le hoffset with hend | hmore
    · have hpast : region.length ≤ cursor.offset := Nat.le_of_eq hend.symm
      rw [run_of_le hpast, List.drop_of_length_le hpast, ItemReader.readAll_nil]
      rfl
    · have hdata : region.drop cursor.offset ≠ [] := by
        rw [Ne, List.drop_eq_nil_iff]
        omega
      cases hread : reader.read (region.drop cursor.offset) with
      | error error =>
        have hitem := htracks.itemAt_of_error hmore hread
        rw [run_of_itemAt_error hmore hitem, ItemReader.readAll_of_error reader hdata hread]
        rfl
      | ok found =>
        obtain ⟨item, rest⟩ := found
        obtain ⟨hitem, hwidth, hwithin, rfl⟩ := htracks.itemAt_of_ok hmore hread
        rw [ItemReader.readAll_of_ok reader hread]
        unfold Reading.gather
        rw [List.foldlM_cons]
        cases hadd : loop.add cursor.gathered item with
        | error error =>
          rw [run_of_add_error hmore hitem hadd]
          rfl
        | ok gathered =>
          -- There is one round less for a region that is shorter by `least` bytes or more.
          rw [run_of_add_ok hmore hitem hadd, ok_bind]
          exact ih hwithin (rounds_left hleast hwidth hwithin hrounds)

/-- What holds of the cursor of a loop at each round: it is in the region, and every item that was
gathered has taken `least` bytes of what lies before it. -/
structure Invariant (size least : Nat) (count : σ → Nat) (cursor : Cursor σ) : Prop where
  offset_le : cursor.offset ≤ size
  count_le : least * count cursor.gathered ≤ cursor.offset

theorem invariant_run {count : σ → Nat} (htracks : loop.Tracks reader region least)
    (hcount : ∀ {gathered item gathered'}, loop.add gathered item = .ok gathered' →
      count gathered' = count gathered + 1)
    (h : Invariant region.length least count cursor) :
    Invariant region.length least count (loop.run region.length rounds cursor).cursor := by
  induction rounds generalizing cursor with
  | zero => exact h
  | succ rounds ih =>
    by_cases hmore : cursor.offset < region.length
    · cases hread : reader.read (region.drop cursor.offset) with
      | error error =>
        rw [run_of_itemAt_error hmore (htracks.itemAt_of_error hmore hread)]
        exact h
      | ok found =>
        obtain ⟨item, rest⟩ := found
        obtain ⟨hitem, hwidth, hwithin, _⟩ := htracks.itemAt_of_ok hmore hread
        cases hadd : loop.add cursor.gathered item with
        | error error =>
          -- The offset has moved behind an item that is not gathered.
          rw [run_of_add_error hmore hitem hadd]
          exact ⟨hwithin, Nat.le_trans h.count_le (Nat.le_add_right _ _)⟩
        | ok gathered =>
          rw [run_of_add_ok hmore hitem hadd]
          refine ih ⟨hwithin, ?_⟩
          show least * count gathered ≤ cursor.offset + loop.width item
          rw [hcount hadd, Nat.mul_succ]
          exact Nat.add_le_add h.count_le hwidth
    · rw [run_of_le (Nat.le_of_not_lt hmore)]
      exact h

/-- From the start of a region, with a round for each item that could be in it and one more, the
loop comes to its own end within the region. -/
theorem within_run {count : σ → Nat} {start : σ} (htracks : loop.Tracks reader region least)
    (hcount : ∀ {gathered item gathered'}, loop.add gathered item = .ok gathered' →
      count gathered' = count gathered + 1)
    (hstart : count start = 0) (hleast : 0 < least) (hrounds : region.length / least < rounds) :
    (loop.run region.length rounds ⟨0, start⟩).Within region.length least count := by
  have hzero : least * count start = 0 := by rw [hstart, Nat.mul_zero]
  have hinvariant : Invariant region.length least count ⟨0, start⟩ :=
    ⟨Nat.zero_le _, Nat.le_of_eq hzero⟩
  have hend : Invariant region.length least count
      (loop.run region.length rounds ⟨0, start⟩).cursor := invariant_run htracks hcount hinvariant
  refine ⟨?_, hend.offset_le, ?_⟩
  · rw [result_run htracks hleast (Nat.zero_le _) hrounds]
    exact Attempt.inRange_mapError _
  · rw [Nat.le_div_iff_mul_le hleast, Nat.mul_comm]
    exact Nat.le_trans hend.count_le hend.offset_le

end Loop

end Esni
