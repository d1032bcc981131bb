import Esni.KeyShare
import Esni.Proofs.Numerals
import Esni.Proofs.Readings

/-!
# Key shares on the wire

An entry says by itself where it ends, so entries that follow each other can be told apart, and a
list that was written is the one list that is read back.

## Main statements

- `KeyShareList.decode_eq_ok_iff` — a list is read exactly from the bytes that it is written as
- `KeyShareList.encode_eq_ok_iff` — a list is written exactly if all its keys fit
- `KeyShareList.ofList_eq_ok_iff` and `KeyShareList.foldlM_push_empty` — a list is built exactly
  from its own entries, by adding them one after the other
-/

namespace Esni

namespace KeyShare

@[simp] theorem length_wire (entry : KeyShare) : entry.wire.length = entry.encodedLength := by
  simp only [wire, List.length_append, Bytes.length_ofUInt16, Bytes.length_ofNat, encodedLength]

theorem fits_iff {entry : KeyShare} : entry.fits = true ↔ entry.key.length < 256 ^ 2 := by
  rw [fits, decide_eq_true_eq, maxKeyLength]
  omega

theorem read?_eq_some_iff {data rest : Bytes} {entry : KeyShare} :
    read? data = some (entry, rest) ↔ entry.fits = true ∧ data = entry.wire ++ rest := by
  obtain ⟨⟨code⟩, key⟩ := entry
  rw [fits_iff]
  simp only [read?, wire, Option.bind_eq_bind, Option.bind_eq_some_iff, Prod.exists,
    Option.pure_def, Option.some.injEq, Prod.mk.injEq, KeyShare.mk.injEq, NamedGroup.mk.injEq,
    Bytes.cutUInt16?_eq_some_iff, Bytes.cutNat?_eq_some_iff, Bytes.cut?_eq_some_iff]
  constructor
  · rintro ⟨_, _, rfl, _, _, ⟨hlength, rfl⟩, ⟨key, rfl⟩, _, rfl, ⟨rfl, rfl⟩, rfl⟩
    exact ⟨hlength, by simp⟩
  · rintro ⟨hlength, rfl⟩
    exact ⟨code, _, by simp, key.length, _, ⟨hlength, rfl⟩, ⟨key, rfl⟩, rest, rfl, ⟨rfl, rfl⟩, rfl⟩

theorem reader_read_eq_ok_iff {data rest : Bytes} {entry : KeyShare} :
    reader.read data = .ok (entry, rest) ↔ entry.fits = true ∧ data = entry.wire ++ rest := by
  rw [← read?_eq_some_iff]
  exact orFault_eq_ok_iff

end KeyShare

namespace KeyShareList

/-- A list is built from entries exactly if they are the entries of the list. That the groups are
distinct is then known from the list. -/
theorem ofList_eq_ok_iff {entries : List KeyShare} {list : KeyShareList} :
    ofList entries = .ok list ↔ list.entries = entries := by
  unfold ofList
  constructor
  · intro h
    split at h
    · cases h
    · cases h
      rfl
  · rintro rfl
    have hnone : firstRepeat? [] (list.entries.map (·.group)) = none :=
      firstRepeat?_eq_none_iff.2 ⟨list.distinct, by simp⟩
    split
    · rename_i group hsome
      rw [hnone] at hsome
      cases hsome
    · rfl

theorem length_of_push {list pushed : KeyShareList} {entry : KeyShare}
    (h : list.push entry = .ok pushed) : pushed.length = list.length + 1 := by
  by_cases hmem : entry.group ∈ list.entries.map (·.group)
  · rw [push_of_mem hmem] at h
    cases h
  · rw [push_of_not_mem hmem] at h
    cases h
    exact List.length_append

theorem ofList_of_repeat {entries : List KeyShare} {group : NamedGroup}
    (h : firstRepeat? [] (entries.map (·.group)) = some group) :
    ofList entries = .error (.duplicateGroup group) := by
  unfold ofList
  split
  · rename_i group' hgroup
    rw [h, Option.some.injEq] at hgroup
    rw [hgroup]
  · rename_i hnone
    rw [h] at hnone
    cases hnone

/-- Entries are refused exactly if a group repeats, and then because of the first repeat. -/
theorem ofList_eq_error_iff {entries : List KeyShare} {fault : KeyShareError} :
    ofList entries = .error fault ↔
      ∃ group, firstRepeat? [] (entries.map (·.group)) = some group ∧
        fault = .duplicateGroup group := by
  cases hrepeat : firstRepeat? [] (entries.map (·.group)) with
  | some group =>
    rw [ofList_of_repeat hrepeat]
    simp [eq_comm]
  | none =>
    have hlist : ofList entries = .ok ⟨entries, (firstRepeat?_eq_none_iff.1 hrepeat).1⟩ :=
      ofList_eq_ok_iff.2 rfl
    simp [hlist]

/-- Adding entries one after the other is refused at the first repeat of a group. -/
theorem foldlM_push (entries : List KeyShare) (list : KeyShareList) (seen : List NamedGroup)
    (hseen : ∀ group, group ∈ seen ↔ group ∈ list.entries.map (·.group)) :
    match firstRepeat? seen (entries.map (·.group)) with
    | some group => entries.foldlM push list = .error (.duplicateGroup group)
    | none => ∃ found, entries.foldlM push list = .ok found ∧
        found.entries = list.entries ++ entries := by
  induction entries generalizing list seen with
  | nil => exact ⟨list, rfl, (List.append_nil _).symm⟩
  | cons entry entries ih =>
    rw [List.map_cons, firstRepeat?, List.foldlM_cons]
    -- The groups that were seen are those of the list, in another order.
    by_cases hrepeat : entry.group ∈ list.entries.map (·.group)
    · rw [if_pos (any_code_iff.2 ((hseen _).2 hrepeat)), push_of_mem hrepeat]
      rfl
    · have hnew : ¬seen.any (·.code == entry.group.code) = true := fun hany =>
        hrepeat ((hseen _).1 (any_code_iff.1 hany))
      have hentries : (list.concat entry hrepeat).entries = list.entries ++ [entry] := rfl
      have hgroups (group : NamedGroup) : group ∈ entry.group :: seen ↔
          group ∈ (list.concat entry hrepeat).entries.map (·.group) := by
        rw [hentries, List.mem_cons, hseen, List.map_append, List.mem_append, List.map_singleton,
          List.mem_singleton, or_comm]
      have hrest := ih (list.concat entry hrepeat) (entry.group :: seen) hgroups
      rw [hentries, List.append_assoc, List.singleton_append] at hrest
      rw [if_neg hnew, push_of_not_mem hrepeat, ok_bind]
      exact hrest

theorem foldlM_push_empty (entries : List KeyShare) :
    entries.foldlM push .empty = ofList entries := by
  have hpush := foldlM_push entries .empty [] fun _ => Iff.rfl
  cases hrepeat : firstRepeat? [] (entries.map (·.group)) with
  | some group =>
    rw [hrepeat] at hpush
    rw [hpush, ofList_of_repeat hrepeat]
  | none =>
    rw [hrepeat] at hpush
    obtain ⟨found, hfound, hentries⟩ := hpush
    rw [hfound]
    exact (ofList_eq_ok_iff.2 hentries).symm

theorem decode_of_readAll {data : Bytes} {items : List KeyShare}
    (h : KeyShare.reader.readAll data = ⟨items, none⟩) : decode data = ofList items := by
  rw [decode, h]
  cases ofList items with
  | ok list => rfl
  | error fault => rfl

/-- A fault behind the entries of a list is reported, since none of these is refused. -/
theorem decode_of_readAll_fault {data : Bytes} {list : KeyShareList} {fault : KeyShareError}
    (h : KeyShare.reader.readAll data = ⟨list.entries, some fault⟩) :
    decode data = .error fault := by
  rw [decode, h, ofList_eq_ok_iff.2 rfl, ok_bind]

/-- If the entries that could be read are refused, it does not matter how the reading ended. -/
theorem decode_of_ofList_eq_error {data : Bytes} {fault : KeyShareError}
    (h : ofList (KeyShare.reader.readAll data).items = .error fault) :
    decode data = .error fault := by
  rw [decode, h, error_bind]

/-- A list is read exactly from the bytes that it is written as, if all keys fit. -/
theorem decode_eq_ok_iff {data : Bytes} {list : KeyShareList} :
    decode data = .ok list ↔
      (∀ entry ∈ list.entries, entry.fits = true) ∧ data = list.entries.flatMap KeyShare.wire := by
  rw [← KeyShare.reader.readAll_eq_iff KeyShare.reader_read_eq_ok_iff]
  constructor
  · intro h
    cases hread : KeyShare.reader.readAll data with
    | mk items fault =>
      cases hlist : ofList items with
      | error refusal =>
        rw [decode_of_ofList_eq_error (by rw [hread]; exact hlist)] at h
        cases h
      | ok found =>
        obtain rfl := ofList_eq_ok_iff.1 hlist
        cases fault with
        | none =>
          rw [decode_of_readAll hread, hlist] at h
          cases h
          rfl
        | some fault =>
          rw [decode_of_readAll_fault hread] at h
          cases h
  · intro hread
    rw [decode_of_readAll hread]
    exact ofList_eq_ok_iff.2 rfl

/-- A list whose keys all fit is appended whole. -/
theorem encodeTo_of_fits {list : KeyShareList} (h : ∀ entry ∈ list.entries, entry.fits = true)
    (buffer : Bytes) :
    list.encodeTo buffer = (buffer ++ list.entries.flatMap KeyShare.wire, none) := by
  have hnone : list.entries.find? (fun entry => !entry.fits) = none := by
    rw [List.find?_eq_none]
    intro entry hmem
    simp [h entry hmem]
  rw [encodeTo, hnone, List.takeWhile_eq_self_iff.2 h, Option.map_none]

theorem encode_eq_ok_iff {list : KeyShareList} {bytes : Bytes} :
    list.encode = .ok bytes ↔
      (∀ entry ∈ list.entries, entry.fits = true) ∧ bytes = list.entries.flatMap KeyShare.wire := by
  by_cases hfits : ∀ entry ∈ list.entries, entry.fits = true
  · rw [encode, encodeTo_of_fits hfits, List.nil_append, Except.ok.injEq, eq_comm]
    exact ⟨fun h => ⟨hfits, h⟩, fun h => h.2⟩
  · have hsome : ∃ entry, list.entries.find? (fun entry => !entry.fits) = some entry := by
      rw [← Option.isSome_iff_exists, List.find?_isSome]
      simpa using hfits
    obtain ⟨entry, hentry⟩ := hsome
    simp [encode, encodeTo, hentry, hfits]

theorem length_flatMap_wire (list : KeyShareList) :
    (list.entries.flatMap KeyShare.wire).length = list.encodedLength :=
  length_flatMap_eq_totalLength fun entry _ => entry.length_wire

theorem length_of_encode {list : KeyShareList} {bytes : Bytes} (h : list.encode = .ok bytes) :
    bytes.length = list.encodedLength := by
  rw [(encode_eq_ok_iff.1 h).2, length_flatMap_wire]

/-- A key that does not fit its length field is longer than a whole list may be. -/
theorem fits_of_encodedLength_le {list : KeyShareList} (h : list.encodedLength ≤ 65535) :
    ∀ entry ∈ list.entries, entry.fits = true := by
  intro entry hmem
  have hle : entry.encodedLength ≤ list.encodedLength := length_le_totalLength hmem
  rw [KeyShare.fits_iff]
  unfold KeyShare.encodedLength at hle
  omega

/-- Every entry takes four bytes at least, so only the empty list has the length zero. -/
theorem encodedLength_eq_zero_iff {list : KeyShareList} :
    list.encodedLength = 0 ↔ list.isEmpty = true := by
  unfold encodedLength isEmpty
  cases list.entries with
  | nil => simp
  | cons entry entries =>
    rw [totalLength_cons, KeyShare.encodedLength]
    simp

end KeyShareList

end Esni
