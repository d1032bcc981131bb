import Esni.Proofs.KeyShareCodec

/-!
# The outcome of reading key shares

Reading key shares and building a list from them come to the same: the entries are added in their
order, and the first one of a group that is there already ends it. Only data can also break off in
the middle of an entry. What is looked at first then is whether the entry is complete, so its group
does not matter.

## Main definitions

- `KeyShareList.FirstRepeat` — the group of the first entry that repeats an earlier one
- `KeyShareList.Shape` — what data looks like to a reader of key shares, and what it is read as

## Main statements

- `KeyShareList.decode_of_shape` — the shape of the data tells the outcome
- `KeyShareList.existsUnique_shape` — all data has one shape
- `KeyShareList.decode_builds` — reading as building
-/

namespace Esni

namespace KeyShare

/-- The data ends before the entry at its front does: it has no whole header, or less of the key
than the header tells. -/
def Incomplete (data : Bytes) : Prop :=
  data.length < 4 ∨ data.length < 4 + Bytes.toNat ((data.drop 2).take 2)

theorem read?_eq_none_iff {data : Bytes} : read? data = none ↔ Incomplete data := by
  cases hgroup : Bytes.cutUInt16? data with
  | none =>
    have hlength := Bytes.cutUInt16?_eq_none_iff.1 hgroup
    have hincomplete : Incomplete data := .inl (by omega)
    simp [read?, hgroup, hincomplete]
  | some found =>
    obtain ⟨code, behind⟩ := found
    obtain rfl := Bytes.cutUInt16?_eq_some_iff.1 hgroup
    cases hlength : Bytes.cutNat? 2 behind with
    | none =>
      have hshort := Bytes.cutNat?_eq_none_iff.1 hlength
      have hincomplete : Incomplete (Bytes.ofUInt16 code ++ behind) := by
        left
        rw [List.length_append, Bytes.length_ofUInt16]
        omega
      simp [read?, hgroup, hlength, hincomplete]
    | some found =>
      obtain ⟨length, rest⟩ := found
      obtain ⟨hsmall, rfl⟩ := Bytes.cutNat?_eq_some_iff.1 hlength
      have hread : read? (Bytes.ofUInt16 code ++ (Bytes.ofNat 2 length ++ rest)) = none ↔
          Bytes.cut? length rest = none := by
        cases hkey : Bytes.cut? length rest <;> simp [read?, hgroup, hlength, hkey]
      rw [hread, Bytes.cut?_eq_none_iff, Incomplete, List.drop_left' (Bytes.length_ofUInt16 code),
        List.take_left' (Bytes.length_ofNat 2 length), Bytes.toNat_ofNat_of_lt hsmall,
        List.length_append, List.length_append, Bytes.length_ofUInt16, Bytes.length_ofNat]
      omega

theorem reader_read_eq_error_iff {data : Bytes} {fault : KeyShareError} :
    reader.read data = .error fault ↔ Incomplete data ∧ fault = .truncatedEntry := by
  rw [← read?_eq_none_iff, eq_comm (a := fault)]
  exact orFault_eq_error_iff

end KeyShare

namespace KeyShareList

/-- The first repeat stands behind groups without one, and it is one of these or was seen before. -/
theorem firstRepeat?_eq_some_iff {seen groups : List NamedGroup} {group : NamedGroup} :
    firstRepeat? seen groups = some group ↔
      ∃ before after, groups = before ++ group :: after ∧ firstRepeat? seen before = none ∧
        (group ∈ before ∨ group ∈ seen) := by
  induction groups generalizing seen with
  | nil => simp [firstRepeat?]
  | cons first others ih =>
    by_cases hseen : first ∈ seen
    · rw [firstRepeat?, if_pos (any_code_iff.2 hseen), Option.some.injEq]
      constructor
      · rintro rfl
        exact ⟨[], others, rfl, rfl, .inr hseen⟩
      · rintro ⟨before, after, hgroups, hnone, _⟩
        cases before with
        | nil => exact (List.cons.inj hgroups).1
        | cons first' before =>
          -- The first group would be a repeat before the first repeat.
          obtain ⟨rfl, _⟩ := List.cons.inj hgroups
          exact absurd hseen ((firstRepeat?_eq_none_iff.1 hnone).2 first (by simp))
    · have hnew : ¬seen.any (·.code == first.code) = true := fun hany =>
        hseen (any_code_iff.1 hany)
      rw [firstRepeat?, if_neg hnew, ih]
      constructor
      · rintro ⟨before, after, rfl, hnone, hmem⟩
        refine ⟨first :: before, after, rfl, ?_, ?_⟩
        · rw [firstRepeat?, if_neg hnew, hnone]
        · rw [List.mem_cons] at hmem ⊢
          tauto
      · rintro ⟨before, after, hgroups, hnone, hmem⟩
        cases before with
        | nil =>
          obtain ⟨rfl, _⟩ := List.cons.inj hgroups
          simp [hseen] at hmem
        | cons first' before =>
          obtain ⟨rfl, rfl⟩ := List.cons.inj hgroups
          rw [firstRepeat?, if_neg hnew] at hnone
          refine ⟨before, after, rfl, hnone, ?_⟩
          rw [List.mem_cons] at hmem ⊢
          tauto

/-- The group of the first entry that repeats the group of an earlier one. All entries before it are
of distinct groups, and what is behind it does not matter. -/
def FirstRepeat (entries : List KeyShare) (group : NamedGroup) : Prop :=
  ∃ (list : KeyShareList) (entry : KeyShare) (after : List KeyShare),
    entries = list.entries ++ entry :: after ∧ entry.group = group ∧
      group ∈ list.entries.map (·.group)

theorem firstRepeat_iff {entries : List KeyShare} {group : NamedGroup} :
    FirstRepeat entries group ↔ firstRepeat? [] (entries.map (·.group)) = some group := by
  rw [firstRepeat?_eq_some_iff]
  constructor
  · rintro ⟨list, entry, after, rfl, rfl, hmem⟩
    refine ⟨list.entries.map (·.group), after.map (·.group), List.map_append, ?_, .inl hmem⟩
    exact firstRepeat?_eq_none_iff.2 ⟨list.distinct, by simp⟩
  · rintro ⟨before, after, hgroups, hnone, hmem⟩
    obtain ⟨front, behind, rfl, rfl, hbehind⟩ := List.map_eq_append_iff.1 hgroups
    obtain ⟨entry, others, rfl, hgroup, _⟩ := List.map_eq_cons_iff.1 hbehind
    refine ⟨⟨front, (firstRepeat?_eq_none_iff.1 hnone).1⟩, entry, others, rfl, hgroup, ?_⟩
    simpa using hmem

theorem ofList_eq_error_iff_firstRepeat {entries : List KeyShare} {fault : KeyShareError} :
    ofList entries = .error fault ↔
      ∃ group, fault = .duplicateGroup group ∧ FirstRepeat entries group := by
  rw [ofList_eq_error_iff]
  simp only [firstRepeat_iff, and_comm]

/-- Entries are those of a list, or one of them is the first repeat. -/
theorem exists_list_or_firstRepeat (entries : List KeyShare) :
    (∃ list : KeyShareList, list.entries = entries) ∨ ∃ group, FirstRepeat entries group := by
  cases hlist : ofList entries with
  | ok list => exact .inl ⟨list, ofList_eq_ok_iff.1 hlist⟩
  | error fault =>
    obtain ⟨group, _, hfirst⟩ := ofList_eq_error_iff_firstRepeat.1 hlist
    exact .inr ⟨group, hfirst⟩

/-- The data is the entries of the list one after the other, and all their keys fit. -/
def Written (list : KeyShareList) (data : Bytes) : Prop :=
  (∀ entry ∈ list.entries, entry.fits = true) ∧ data = list.entries.flatMap KeyShare.wire

/-- What data looks like to a reader of key shares. -/
inductive Shape where
  | whole (list : KeyShareList)
  | repeated (group : NamedGroup)
  | brokenOff

/-- The data looks like this. Whole data is entries of distinct groups and nothing else. A group is
repeated by a complete entry that follows entries of distinct groups. Data that is broken off has
something behind such entries that is not a complete entry, whatever its group may be. -/
def Shape.Of (data : Bytes) : Shape → Prop
  | whole list => list.Written data
  | repeated group => ∃ (list : KeyShareList) (entry : KeyShare) (front rest : Bytes),
    list.Written front ∧ entry.fits = true ∧ entry.group = group ∧
      group ∈ list.entries.map (·.group) ∧ data = front ++ entry.wire ++ rest
  | brokenOff => ∃ (list : KeyShareList) (front left : Bytes),
    list.Written front ∧ left ≠ [] ∧ KeyShare.Incomplete left ∧ data = front ++ left

/-- What data of this shape is read as. -/
def Shape.outcome : Shape → Except KeyShareError KeyShareList
  | whole list => .ok list
  | repeated group => .error (.duplicateGroup group)
  | brokenOff => .error .truncatedEntry

theorem Shape.outcome_injective {a b : Shape} (h : a.outcome = b.outcome) : a = b := by
  cases a <;> cases b <;> simp_all [outcome]

/-- Entries that fit are read as they are built. -/
theorem decode_flatMap_wire {entries : List KeyShare}
    (h : ∀ entry ∈ entries, entry.fits = true) :
    decode (entries.flatMap KeyShare.wire) = ofList entries := by
  have hread : KeyShare.reader.readAll (entries.flatMap KeyShare.wire) = ⟨entries, none⟩ :=
    (KeyShare.reader.readAll_eq_iff KeyShare.reader_read_eq_ok_iff).2 ⟨h, rfl⟩
  exact decode_of_readAll hread

/-- A repeat is found whatever follows it. -/
theorem decode_of_firstRepeat {entries : List KeyShare} {group : NamedGroup}
    (hfits : ∀ entry ∈ entries, entry.fits = true) (hfirst : FirstRepeat entries group)
    (rest : Bytes) :
    decode (entries.flatMap KeyShare.wire ++ rest) = .error (.duplicateGroup group) := by
  have hreads : ∀ entry ∈ entries, ∀ rest,
      KeyShare.reader.read (entry.wire ++ rest) = .ok (entry, rest) :=
    fun entry hmem rest => KeyShare.reader_read_eq_ok_iff.2 ⟨hfits entry hmem, rfl⟩
  obtain ⟨list, entry, after, rfl, hgroup, hmem⟩ := hfirst
  apply decode_of_ofList_eq_error
  rw [KeyShare.reader.readAll_flatMap_append hreads rest]
  refine ofList_eq_error_iff_firstRepeat.2 ⟨group, rfl, list, entry,
    after ++ (KeyShare.reader.readAll rest).items, ?_, hgroup, hmem⟩
  rw [List.append_assoc, List.cons_append]

theorem decode_of_shape {data : Bytes} {shape : Shape} (h : shape.Of data) :
    decode data = shape.outcome := by
  cases shape with
  | whole list => exact decode_eq_ok_iff.2 h
  | repeated group =>
    obtain ⟨list, entry, front, rest, ⟨hfits, rfl⟩, hentry, hgroup, hmem, rfl⟩ := h
    have hall : ∀ other ∈ list.entries ++ [entry], other.fits = true := by
      simpa [or_imp, forall_and] using ⟨hfits, hentry⟩
    have hread := decode_of_firstRepeat hall ⟨list, entry, [], rfl, hgroup, hmem⟩ rest
    rwa [List.flatMap_append, List.flatMap_singleton] at hread
  | brokenOff =>
    obtain ⟨list, front, left, ⟨hfits, rfl⟩, hleft, hincomplete, rfl⟩ := h
    have herror := KeyShare.reader_read_eq_error_iff.2 ⟨hincomplete, rfl⟩
    have hread : KeyShare.reader.readAll (list.entries.flatMap KeyShare.wire ++ left) =
        ⟨list.entries, some .truncatedEntry⟩ :=
      (KeyShare.reader.readAll_eq_fault_iff KeyShare.reader_read_eq_ok_iff).2
        ⟨hfits, left, hleft, herror, rfl⟩
    exact decode_of_readAll_fault hread

theorem exists_shape (data : Bytes) : ∃ shape : Shape, shape.Of data := by
  have hitem {data rest : Bytes} {entry : KeyShare}
      (h : KeyShare.reader.read data = .ok (entry, rest)) :
      entry.fits = true ∧ data = entry.wire ++ rest := KeyShare.reader_read_eq_ok_iff.1 h
  cases hread : KeyShare.reader.readAll data with
  | mk items fault =>
    rcases exists_list_or_firstRepeat items with ⟨list, rfl⟩ | ⟨group, hfirst⟩
    · cases fault with
      | none =>
        exact ⟨.whole list, (KeyShare.reader.readAll_eq_iff KeyShare.reader_read_eq_ok_iff).1 hread⟩
      | some fault =>
        obtain ⟨hfits, left, hleft, herror, hdata⟩ :=
          (KeyShare.reader.readAll_eq_fault_iff KeyShare.reader_read_eq_ok_iff).1 hread
        have hincomplete := (KeyShare.reader_read_eq_error_iff.1 herror).1
        exact ⟨.brokenOff, list, _, left, ⟨hfits, rfl⟩, hleft, hincomplete, hdata⟩
    · obtain ⟨left, hdata, _, hfits⟩ := KeyShare.reader.exists_eq_flatMap_append fun _ => hitem
      obtain ⟨list, entry, after, rfl, hgroup, hmem⟩ := hfirst
      rw [hread] at hdata hfits
      refine ⟨.repeated group, list, entry, _, after.flatMap KeyShare.wire ++ left,
        ⟨fun other hother => hfits other (by simp [hother]), rfl⟩, hfits entry (by simp), hgroup,
        hmem, ?_⟩
      rw [hdata, List.flatMap_append, List.flatMap_cons]
      simp only [List.append_assoc]

/-- Data of two shapes would have two outcomes. -/
theorem existsUnique_shape (data : Bytes) : ∃! shape : Shape, shape.Of data := by
  obtain ⟨shape, hshape⟩ := exists_shape data
  refine ⟨shape, hshape, fun other hother => Shape.outcome_injective ?_⟩
  rw [← decode_of_shape hother, decode_of_shape hshape]

/-- Whole data has the length of its list and is what the list is written as. -/
theorem Written.encodes {list : KeyShareList} {data : Bytes} (h : list.Written data) :
    list.encodedLength = data.length ∧
      ∀ buffer, list.encodeTo buffer = (buffer ++ data, none) := by
  obtain ⟨hfits, rfl⟩ := h
  exact ⟨list.length_flatMap_wire.symm, encodeTo_of_fits hfits⟩

/-- Entries with keys that fit are read from the bytes that they make as a list is built from them,
by adding one after the other: as these entries if their groups are distinct, and otherwise with the
fault of the first one that repeats a group. And all data is of exactly one shape, which tells what
it is read as. The list of whole data has its length and is written as it. -/
theorem decode_builds :
    (∀ entries : List KeyShare, (∀ entry ∈ entries, entry.fits = true) →
      decode (entries.flatMap KeyShare.wire) = ofList entries ∧
        ofList entries = entries.foldlM push .empty ∧
        ((∃ list, ofList entries = .ok list) ↔ (entries.map (·.group)).Nodup) ∧
        (∀ list, ofList entries = .ok list ↔ list.entries = entries) ∧
        (∀ fault, ofList entries = .error fault ↔
          ∃ group, fault = .duplicateGroup group ∧ FirstRepeat entries group)) ∧
    (∀ data : Bytes, (∃! shape : Shape, shape.Of data) ∧
      ∀ shape : Shape, shape.Of data → decode data = shape.outcome) ∧
    (∀ (list : KeyShareList) (data : Bytes), list.Written data →
      list.encodedLength = data.length ∧
        ∀ buffer, list.encodeTo buffer = (buffer ++ data, none)) := by
  refine ⟨fun entries hfits => ?_, fun data => ?_, fun list data h => h.encodes⟩
  · refine ⟨decode_flatMap_wire hfits, (foldlM_push_empty entries).symm, ?_,
      fun list => ofList_eq_ok_iff, fun fault => ofList_eq_error_iff_firstRepeat⟩
    constructor
    · rintro ⟨list, hlist⟩
      rw [← ofList_eq_ok_iff.1 hlist]
      exact list.distinct
    · intro hdistinct
      exact ⟨⟨entries, hdistinct⟩, ofList_eq_ok_iff.2 rfl⟩
  · exact ⟨existsUnique_shape data, fun shape => decode_of_shape⟩

/-- One key share, of the group that the data below repeats. -/
def single : KeyShareList := ⟨[⟨⟨0x1d⟩, [7]⟩], by simp⟩

/-- The same group again ends the reading as it ends the building, and so it does with more data
behind it. Without its last byte the second entry is only known to be incomplete. -/
theorem decode_builds_single :
    single.Written [0, 0x1d, 0, 1, 7] ∧
      single.encodeTo [0xff] = ([0xff, 0, 0x1d, 0, 1, 7], none) ∧
      decode ((single.entries ++ single.entries).flatMap KeyShare.wire) =
        ofList (single.entries ++ single.entries) ∧
      ofList (single.entries ++ single.entries) = .error (.duplicateGroup ⟨0x1d⟩) ∧
      decode [0, 0x1d, 0, 1, 7, 0, 0x1d, 0, 1, 8, 0xff] = .error (.duplicateGroup ⟨0x1d⟩) ∧
      decode [0, 0x1d, 0, 1, 7, 0, 0x1d, 0, 1] = .error .truncatedEntry := by
  obtain ⟨hbuild, hshape, hwritten⟩ := decode_builds
  have hsingle : single.Written [0, 0x1d, 0, 1, 7] := ⟨by decide, rfl⟩
  have htwice := hbuild (single.entries ++ single.entries) (by decide)
  have hrepeated : (Shape.repeated ⟨0x1d⟩).Of [0, 0x1d, 0, 1, 7, 0, 0x1d, 0, 1, 8, 0xff] :=
    ⟨single, ⟨⟨0x1d⟩, [8]⟩, [0, 0x1d, 0, 1, 7], [0xff], hsingle, by decide, rfl, by decide, rfl⟩
  have hbroken : Shape.brokenOff.Of [0, 0x1d, 0, 1, 7, 0, 0x1d, 0, 1] :=
    ⟨single, [0, 0x1d, 0, 1, 7], [0, 0x1d, 0, 1], hsingle, by decide, .inr (by decide), rfl⟩
  exact ⟨hsingle, (hwritten single _ hsingle).2 [0xff], htwice.1, rfl,
    (hshape _).2 _ hrepeated, (hshape _).2 _ hbroken⟩

end KeyShareList

end Esni
