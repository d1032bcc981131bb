import Esni.Proofs.BufferWriting
import Esni.Proofs.KeyShareCodec

/-!
# Writing key shares

The entries of a list are written one after the other, and each is looked at only when its turn
comes. So a key that is too long for its length field is found when the entries before it are
already in the buffer. What stays there is whole all the same: it is what the list of these entries
is written as, with nothing of the entry that was refused.

## Main definitions

- `KeyShareList.write` — the steps that write a list
- `KeyShareList.StopsAt` — the entry that the writing of a list stops at, and the list before it

## Main statements

- `KeyShareList.outcome_write` — the steps come to what the encoder gives
- `KeyShareList.encodeTo_wholeEntries` — what a list leaves in the buffer, whether it fits or not
-/

namespace Esni

open BufferWriter (append)
open Update (require outcome)

namespace KeyShare

variable {entry : KeyShare}

theorem fits_iff_length_le : entry.fits = true ↔ entry.key.length ≤ 65535 := decide_eq_true_iff

theorem forall_fits_iff {entries : List KeyShare} :
    (∀ entry ∈ entries, entry.fits = true) ↔ ∀ entry ∈ entries, entry.key.length ≤ 65535 :=
  forall₂_congr fun _ _ => fits_iff_length_le

/-- The steps that write an entry. The length of its key is looked at before anything is
appended. -/
def write (entry : KeyShare) : BufferWriter KeyShareError Unit := do
  require entry.fits (.keyTooLong entry.group entry.key.length)
  append (Bytes.ofUInt16 entry.group.code)
  append (Bytes.ofNat 2 entry.key.length)
  append entry.key

theorem outcome_write_of_fits (h : entry.fits = true) (buffer : Bytes) :
    outcome entry.write buffer = (buffer ++ entry.wire, none) := by
  rw [write, Update.outcome_require_bind, if_pos h, BufferWriter.outcome_append_bind,
    BufferWriter.outcome_append_bind, BufferWriter.outcome_append, wire, List.append_assoc,
    List.append_assoc, List.append_assoc]

theorem outcome_write_of_not_fits (h : entry.fits = false) (buffer : Bytes) :
    outcome entry.write buffer = (buffer, some (.keyTooLong entry.group entry.key.length)) := by
  rw [write, Update.outcome_require_bind, h, if_neg Bool.false_ne_true]

end KeyShare

namespace KeyShareList

variable {list front : KeyShareList} {entry : KeyShare}

/-- The steps that write a list: those of its entries, one after the other. -/
def write (list : KeyShareList) : BufferWriter KeyShareError Unit :=
  list.entries.forM KeyShare.write

/-- The first entry with a key that is too long, and the list of the entries before it. -/
structure StopsAt (list front : KeyShareList) (entry : KeyShare) : Prop where
  split : ∃ after, list.entries = front.entries ++ entry :: after
  front_fits : ∀ other ∈ front.entries, other.key.length ≤ 65535
  too_long : 65535 < entry.key.length

theorem StopsAt.fits_of_mem (h : list.StopsAt front entry) :
    ∀ other ∈ front.entries, other.fits = true :=
  KeyShare.forall_fits_iff.2 h.front_fits

theorem StopsAt.not_fits (h : list.StopsAt front entry) : entry.fits = false :=
  decide_eq_false (Nat.not_le_of_lt h.too_long)

/-- If not all keys fit, one of them is the first that does not. -/
theorem exists_stopsAt (h : ¬∀ entry ∈ list.entries, entry.key.length ≤ 65535) :
    ∃ front entry, list.StopsAt front entry := by
  rw [← KeyShare.forall_fits_iff] at h
  cases hfind : list.entries.find? (fun entry => !entry.fits) with
  | none => exact absurd (by simpa using hfind) h
  | some entry =>
    obtain ⟨hlong, before, after, hsplit, hbefore⟩ := List.find?_eq_some_iff_append.1 hfind
    have hdistinct : (before.map (·.group)).Nodup := by
      have hall := list.distinct
      rw [hsplit, List.map_append] at hall
      exact hall.of_append_left
    refine ⟨⟨before, hdistinct⟩, entry, ⟨after, hsplit⟩, ?_, ?_⟩
    · exact KeyShare.forall_fits_iff.1 (by simpa using hbefore)
    · rw [Bool.not_eq_true'] at hlong
      exact Nat.lt_of_not_le (of_decide_eq_false hlong)

theorem encodeTo_of_stopsAt (h : list.StopsAt front entry) (buffer : Bytes) :
    list.encodeTo buffer = (buffer ++ front.entries.flatMap KeyShare.wire,
      some (.keyTooLong entry.group entry.key.length)) := by
  obtain ⟨after, hsplit⟩ := h.split
  have hlong := h.not_fits
  -- Both halves of what the encoder gives come from the place where the list splits.
  have hfind : list.entries.find? (fun entry => !entry.fits) = some entry := by
    refine List.find?_eq_some_iff_append.2 ⟨by simp [hlong], _, after, hsplit, ?_⟩
    intro other hmem
    simp [h.fits_of_mem other hmem]
  have htake : list.entries.takeWhile KeyShare.fits = front.entries := by
    rw [hsplit, List.takeWhile_append_of_pos h.fits_of_mem,
      List.takeWhile_cons_of_neg (by simp [hlong]), List.append_nil]
  rw [encodeTo, hfind, htake, Option.map_some]

/-- The steps come to what the encoder gives, to their end or up to the first entry that is
refused. -/
theorem outcome_write (list : KeyShareList) (buffer : Bytes) :
    outcome list.write buffer = list.encodeTo buffer := by
  by_cases h : ∀ entry ∈ list.entries, entry.key.length ≤ 65535
  · have hfits := KeyShare.forall_fits_iff.2 h
    rw [encodeTo_of_fits hfits]
    exact BufferWriter.outcome_forM_of_appends
      (fun entry hmem => KeyShare.outcome_write_of_fits (hfits entry hmem)) buffer
  · obtain ⟨front, entry, hstop⟩ := exists_stopsAt h
    obtain ⟨after, hsplit⟩ := hstop.split
    rw [encodeTo_of_stopsAt hstop, write, hsplit]
    exact BufferWriter.outcome_forM_of_refused
      (fun other hmem => KeyShare.outcome_write_of_fits (hstop.fits_of_mem other hmem))
      (KeyShare.outcome_write_of_not_fits hstop.not_fits) after buffer

/-- Writing a list goes entry by entry and succeeds exactly if all keys fit. Then the buffer is
followed by all entries in their order, as many bytes as the list says. Otherwise there is a first
entry with a key that is too long. It is the one that is reported, and the buffer is followed by the
entries before it and by nothing of the entry itself. Either way the list that was written is read
back from what was appended. -/
theorem encodeTo_wholeEntries (list : KeyShareList) (buffer : Bytes) :
    outcome list.write buffer = list.encodeTo buffer ∧
    ((list.encodeTo buffer).2 = none ↔ ∀ entry ∈ list.entries, entry.key.length ≤ 65535) ∧
    ((∀ entry ∈ list.entries, entry.key.length ≤ 65535) →
      ∃ bytes, bytes = list.entries.flatMap KeyShare.wire ∧ bytes.length = list.encodedLength ∧
        list.encodeTo buffer = (buffer ++ bytes, none) ∧ decode bytes = .ok list) ∧
    ((∃ entry ∈ list.entries, 65535 < entry.key.length) →
      ∃ front entry, list.StopsAt front entry) ∧
    ∀ front entry, list.StopsAt front entry →
      ∃ bytes, bytes = front.entries.flatMap KeyShare.wire ∧ bytes.length = front.encodedLength ∧
        list.encodeTo buffer =
          (buffer ++ bytes, some (.keyTooLong entry.group entry.key.length)) ∧
        decode bytes = .ok front := by
  refine ⟨outcome_write list buffer, ?_, ?_, ?_, ?_⟩
  · constructor
    · intro hnone
      by_contra h
      obtain ⟨front, entry, hstop⟩ := exists_stopsAt h
      rw [encodeTo_of_stopsAt hstop] at hnone
      cases hnone
    · intro h
      rw [encodeTo_of_fits (KeyShare.forall_fits_iff.2 h)]
  · intro h
    have hfits := KeyShare.forall_fits_iff.2 h
    exact ⟨_, rfl, list.length_flatMap_wire, encodeTo_of_fits hfits buffer,
      decode_eq_ok_iff.2 ⟨hfits, rfl⟩⟩
  · rintro ⟨entry, hmem, hlong⟩
    exact exists_stopsAt fun h => Nat.not_le_of_lt hlong (h entry hmem)
  · intro front entry hstop
    exact ⟨_, rfl, front.length_flatMap_wire, encodeTo_of_stopsAt hstop buffer,
      decode_eq_ok_iff.2 ⟨hstop.fits_of_mem, rfl⟩⟩

/-- An entry with a key of one byte too many. -/
def overlong : KeyShare := ⟨⟨0x1e⟩, List.replicate 65536 0⟩

theorem length_key_overlong : overlong.key.length = 65536 := List.length_replicate

/-- The first entry is appended and read back. Of the second one only its length is told. -/
theorem encodeTo_wholeEntries_overlong :
    StopsAt ⟨[⟨⟨0x1d⟩, [7]⟩, overlong], by decide⟩ ⟨[⟨⟨0x1d⟩, [7]⟩], by decide⟩ overlong ∧
      encodeTo ⟨[⟨⟨0x1d⟩, [7]⟩, overlong], by decide⟩ [0xff] =
        ([0xff, 0, 0x1d, 0, 1, 7], some (.keyTooLong ⟨0x1e⟩ 65536)) ∧
      decode [0, 0x1d, 0, 1, 7] = .ok ⟨[⟨⟨0x1d⟩, [7]⟩], by decide⟩ := by
  have hstop : StopsAt ⟨[⟨⟨0x1d⟩, [7]⟩, overlong], by decide⟩ ⟨[⟨⟨0x1d⟩, [7]⟩], by decide⟩
      overlong := by
    refine ⟨⟨[], rfl⟩, by decide, ?_⟩
    rw [length_key_overlong]
    omega
  obtain ⟨_, _, _, _, hstops⟩ :=
    encodeTo_wholeEntries ⟨[⟨⟨0x1d⟩, [7]⟩, overlong], by decide⟩ [0xff]
  obtain ⟨bytes, hbytes, _, hencode, hdecode⟩ := hstops _ _ hstop
  obtain rfl : bytes = [0, 0x1d, 0, 1, 7] := hbytes
  rw [length_key_overlong] at hencode
  exact ⟨hstop, hencode, hdecode⟩

end KeyShareList

end Esni
