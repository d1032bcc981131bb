import Esni.Proofs.BufferWriting
import Esni.Proofs.ExtensionKinds

/-!
# The payload of an address set

Addresses have two sizes and follow each other without a length, so where one starts depends on the
tags of all before it. Still any data splits in one way: into the addresses that it starts with, as
many as there are, and what is left, which starts with no address. If nothing is left, the data is
the payload of these addresses and of no others. Otherwise the first byte that is left tells what is
wrong with the data.

## Main definitions

- `AddressSet.write` — the steps that write a payload
- `Address.LongestFront` — the addresses that data starts with, as many as there are
- `Address.Rejected` — data that starts with no address, and why

## Main statements

- `Address.readAll_of_rejected` — addresses in front of something else
- `Address.longestFront_iff` and `Address.existsUnique_longestFront` — how any data splits
- `AddressSet.payloads_correspond` — writing and reading payloads
-/

namespace Esni

open BufferWriter (append)
open Update (outcome)

namespace Address

variable {data rest : Bytes} {addresses : List Address} {fault : AddressError}

/-- The steps that write an address: the tag of its family and its bytes. -/
def write {ε : Type} (address : Address) : BufferWriter ε Unit := do
  append [address.family]
  append address.octets

theorem outcome_write {ε : Type} (address : Address) (buffer : Bytes) :
    outcome (address.write : BufferWriter ε Unit) buffer = (buffer ++ address.wire, none) := by
  rw [write, BufferWriter.outcome_append_bind, BufferWriter.outcome_append, wire,
    List.append_assoc, List.singleton_append]

/-- The data starts with these addresses and with no longer list of addresses, and `rest` is left
behind them. -/
structure LongestFront (data : Bytes) (addresses : List Address) (rest : Bytes) : Prop where
  data_eq : data = addresses.flatMap wire ++ rest
  longest : ∀ (others : List Address) (left : Bytes), data = others.flatMap wire ++ left →
    others.length ≤ addresses.length

/-- The data starts with no address, for this reason. A tag of no family is the reason even if it is
all there is. -/
inductive Rejected : Bytes → AddressError → Prop where
  | unsupported {family : UInt8} (behind : Bytes) (not_ipv4 : family ≠ 4) (not_ipv6 : family ≠ 6) :
    Rejected (family :: behind) (.unsupportedFamily family)
  | truncated_ipv4 {behind : Bytes} (short : behind.length < 4) :
    Rejected (4 :: behind) .truncatedAddress
  | truncated_ipv6 {behind : Bytes} (short : behind.length < 16) :
    Rejected (6 :: behind) .truncatedAddress

theorem Rejected.read_eq_error (h : Rejected data fault) : read data = .error fault := by
  cases h with
  | unsupported behind not_ipv4 not_ipv6 =>
    rw [read, ipv4Family, ipv6Family, if_neg not_ipv4, if_neg not_ipv6]
  | truncated_ipv4 short =>
    rw [read, ipv4Family, if_pos rfl, Bytes.cut?_eq_none_iff.2 short]
    rfl
  | truncated_ipv6 short =>
    rw [read, ipv4Family, ipv6Family, if_neg (by decide), if_pos rfl,
      Bytes.cut?_eq_none_iff.2 short]
    rfl

theorem rejected_of_read_eq_error {tag : UInt8} {behind : Bytes}
    (h : read (tag :: behind) = .error fault) : Rejected (tag :: behind) fault := by
  by_cases hipv4 : tag = ipv4Family
  · rw [read, if_pos hipv4] at h
    obtain ⟨hcut, rfl⟩ := orFault_eq_error_iff.1 h
    rw [hipv4]
    exact .truncated_ipv4 (Bytes.cut?_eq_none_iff.1 (Option.map_eq_none_iff.1 hcut))
  rw [read, if_neg hipv4] at h
  by_cases hipv6 : tag = ipv6Family
  · rw [if_pos hipv6] at h
    obtain ⟨hcut, rfl⟩ := orFault_eq_error_iff.1 h
    rw [hipv6]
    exact .truncated_ipv6 (Bytes.cut?_eq_none_iff.1 (Option.map_eq_none_iff.1 hcut))
  · rw [if_neg hipv6] at h
    cases h
    exact .unsupported behind hipv4 hipv6

theorem rejected_iff : Rejected data fault ↔ data ≠ [] ∧ read data = .error fault := by
  constructor
  · intro h
    refine ⟨?_, h.read_eq_error⟩
    rintro rfl
    cases h
  · rintro ⟨hdata, herror⟩
    cases data with
    | nil => exact absurd rfl hdata
    | cons tag behind => exact rejected_of_read_eq_error herror

/-- Addresses in front of data that starts with none are read up to there. -/
theorem readAll_of_rejected (h : Rejected rest fault) (addresses : List Address) :
    reader.readAll (addresses.flatMap wire ++ rest) = ⟨addresses, some fault⟩ := by
  obtain ⟨hrest, herror⟩ := rejected_iff.1 h
  exact (reader.readAll_eq_fault_iff reader_read_eq_ok_iff).2
    ⟨fun _ _ => trivial, rest, hrest, herror, rfl⟩

theorem readAll_flatMap_wire (addresses : List Address) :
    reader.readAll (addresses.flatMap wire) = ⟨addresses, none⟩ :=
  (reader.readAll_eq_iff reader_read_eq_ok_iff).2 ⟨fun _ _ => trivial, rfl⟩

/-- Any data is addresses and something that is either nothing or starts with no address. -/
theorem exists_split (data : Bytes) : ∃ (addresses : List Address) (rest : Bytes),
    data = addresses.flatMap wire ++ rest ∧ (rest = [] ∨ ∃ fault, Rejected rest fault) := by
  cases hread : reader.readAll data with
  | mk addresses fault =>
    cases fault with
    | none =>
      obtain ⟨_, hdata⟩ := (reader.readAll_eq_iff reader_read_eq_ok_iff).1 hread
      exact ⟨addresses, [], by rw [List.append_nil, hdata], .inl rfl⟩
    | some fault =>
      obtain ⟨_, rest, hrest, herror, hdata⟩ :=
        (reader.readAll_eq_fault_iff reader_read_eq_ok_iff).1 hread
      exact ⟨addresses, rest, hdata, .inr ⟨fault, rejected_iff.2 ⟨hrest, herror⟩⟩⟩

/-- The addresses of such a split are those that are read. -/
theorem items_of_split (hdata : data = addresses.flatMap wire ++ rest)
    (hrest : rest = [] ∨ ∃ fault, Rejected rest fault) :
    (reader.readAll data).items = addresses := by
  rcases hrest with rfl | ⟨fault, hrejected⟩
  · rw [hdata, List.append_nil, readAll_flatMap_wire]
  · rw [hdata, readAll_of_rejected hrejected]

/-- A list of addresses at the front is the longest one exactly if no address follows it. -/
theorem longestFront_iff : LongestFront data addresses rest ↔
    data = addresses.flatMap wire ++ rest ∧ (rest = [] ∨ ∃ fault, Rejected rest fault) := by
  have hitem (address : Address) (rest : Bytes) :
      reader.read (address.wire ++ rest) = .ok (address, rest) := read_wire_append address rest
  have hread (others : List Address) (left : Bytes) (h : data = others.flatMap wire ++ left) :
      others <+: (reader.readAll data).items :=
    reader.isPrefix_items (fun address _ => hitem address) h
  constructor
  · intro h
    refine ⟨h.data_eq, ?_⟩
    obtain ⟨others, left, hdata, hleft⟩ := exists_split data
    have hitems := items_of_split hdata hleft
    -- The addresses come first among those that are read, and there are no more of these.
    have hprefix := hread addresses rest h.data_eq
    rw [hitems] at hprefix
    obtain rfl := hprefix.eq_of_length_le (h.longest others left hdata)
    have hsame := h.data_eq.symm.trans hdata
    rw [List.append_cancel_left_eq] at hsame
    exact hsame ▸ hleft
  · rintro ⟨hdata, hrest⟩
    refine ⟨hdata, ?_⟩
    intro others left hothers
    rw [← items_of_split hdata hrest]
    exact (hread others left hothers).length_le

theorem LongestFront.unique {others : List Address} {left : Bytes}
    (h : LongestFront data addresses rest) (h' : LongestFront data others left) :
    others = addresses ∧ left = rest := by
  obtain ⟨hdata, hrest⟩ := longestFront_iff.1 h
  obtain ⟨hothers, hleft⟩ := longestFront_iff.1 h'
  obtain rfl : others = addresses := by
    rw [← items_of_split hothers hleft, items_of_split hdata hrest]
  have hsame := hothers.symm.trans hdata
  rw [List.append_cancel_left_eq] at hsame
  exact ⟨rfl, hsame⟩

theorem existsUnique_longestFront (data : Bytes) :
    ∃! front : List Address × Bytes, LongestFront data front.1 front.2 := by
  obtain ⟨addresses, rest, hsplit⟩ := exists_split data
  have hfront : LongestFront data addresses rest := longestFront_iff.2 hsplit
  refine ⟨(addresses, rest), hfront, ?_⟩
  rintro ⟨others, left⟩ hothers
  obtain ⟨rfl, rfl⟩ := hfront.unique hothers
  rfl

end Address

namespace AddressSet

variable {data rest : Bytes} {addresses : List Address} {fault : AddressError}

/-- The steps that write a payload: those of its addresses, one after the other. -/
def write {ε : Type} (set : AddressSet) : BufferWriter ε Unit := set.addresses.forM Address.write

theorem outcome_write {ε : Type} (set : AddressSet) (buffer : Bytes) :
    outcome (set.write : BufferWriter ε Unit) buffer = (buffer ++ set.payload, none) :=
  BufferWriter.outcome_forM_of_appends (fun address _ => address.outcome_write) buffer

theorem decode_of_rejected (h : Address.Rejected rest fault) (addresses : List Address) :
    decode (addresses.flatMap Address.wire ++ rest) = .error fault := by
  rw [decode, Address.readAll_of_rejected h]
  rfl

/-- A set takes over what a payload holds, whatever it held before. -/
theorem replaceBy_of_ok {decoded : AddressSet} (h : decode data = .ok decoded) (set : AddressSet) :
    set.replaceBy data = (decoded, none) :=
  Update.outcome_replace_of_ok h

/-- The payload is read before anything is taken over, so a faulty one changes nothing. -/
theorem replaceBy_of_error (h : decode data = .error fault) (set : AddressSet) :
    set.replaceBy data = (set, some fault) :=
  Update.outcome_replace_of_error h

/-- Address sets and their payloads correspond. A set writes as many bytes as it reports, and they
are read as the same addresses again, each in its family. Any data splits in one way into the
longest list of addresses that it starts with and a rest. If there is no rest, the data is read as
these addresses, which are written as it. Otherwise the rest starts with no address, and why it does
not is the fault of the data. A set takes over the addresses that are read in the place of all of
its own, and stays as it is if there is a fault. -/
theorem payloads_correspond :
    (∀ (set : AddressSet) (buffer : Bytes),
      outcome (set.write : BufferWriter AddressError Unit) buffer = (buffer ++ set.payload, none) ∧
      set.payload.length = set.payloadLength ∧ decode set.payload = .ok set) ∧
    (∀ data : Bytes, ∃! front : List Address × Bytes, Address.LongestFront data front.1 front.2) ∧
    ∀ (data : Bytes) (addresses : List Address) (rest : Bytes),
      Address.LongestFront data addresses rest →
      (rest = [] ∨ ∃ fault, Address.Rejected rest fault) ∧
      (rest = [] → decode data = .ok ⟨addresses⟩ ∧ payload ⟨addresses⟩ = data ∧
        ∀ set : AddressSet, set.replaceBy data = (⟨addresses⟩, none)) ∧
      ∀ fault, Address.Rejected rest fault → decode data = .error fault ∧
        ∀ set : AddressSet, set.replaceBy data = (set, some fault) := by
  refine ⟨?_, Address.existsUnique_longestFront, ?_⟩
  · intro set buffer
    exact ⟨set.outcome_write buffer, set.length_payload, decode_eq_ok_iff.2 rfl⟩
  · intro data addresses rest hfront
    obtain ⟨hdata, hrest⟩ := Address.longestFront_iff.1 hfront
    refine ⟨hrest, ?_, ?_⟩
    · rintro rfl
      rw [List.append_nil] at hdata
      have hdecode : decode data = .ok ⟨addresses⟩ := decode_eq_ok_iff.2 hdata
      exact ⟨hdecode, hdata.symm, replaceBy_of_ok hdecode⟩
    · intro fault hrejected
      have hdecode : decode data = .error fault := hdata ▸ decode_of_rejected hrejected addresses
      exact ⟨hdecode, replaceBy_of_error hdecode⟩

/-- An address that embeds an IPv4 address, and that IPv4 address itself. -/
def embedded : AddressSet :=
  ⟨[.ipv6 ⟨Address.ipv4Mapped ++ [198, 51, 100, 7], rfl⟩, .ipv4 ⟨[198, 51, 100, 7], rfl⟩]⟩

/-- The two are told apart. Behind them a tag of no family is a fault even at the end of the data,
and so is a tag of a family with too few bytes. -/
theorem payloads_correspond_embedded :
    decode embedded.payload = .ok embedded ∧
    (Address.LongestFront (embedded.payload ++ [5]) embedded.addresses [5] ∧
      decode (embedded.payload ++ [5]) = .error (.unsupportedFamily 5) ∧
      empty.replaceBy (embedded.payload ++ [5]) = (empty, some (.unsupportedFamily 5))) ∧
    (Address.LongestFront (embedded.payload ++ [4, 198]) embedded.addresses [4, 198] ∧
      decode (embedded.payload ++ [4, 198]) = .error .truncatedAddress) := by
  obtain ⟨hsets, _, hdata⟩ := payloads_correspond
  have htag : Address.Rejected [5] (.unsupportedFamily 5) :=
    .unsupported [] (by decide) (by decide)
  have hshort : Address.Rejected [4, 198] .truncatedAddress := .truncated_ipv4 (by decide)
  have hfirst : Address.LongestFront (embedded.payload ++ [5]) embedded.addresses [5] :=
    Address.longestFront_iff.2 ⟨rfl, .inr ⟨_, htag⟩⟩
  have hsecond : Address.LongestFront (embedded.payload ++ [4, 198]) embedded.addresses [4, 198] :=
    Address.longestFront_iff.2 ⟨rfl, .inr ⟨_, hshort⟩⟩
  obtain ⟨hdecode, hreplace⟩ := (hdata _ _ _ hfirst).2.2 _ htag
  exact ⟨(hsets embedded []).2.2, ⟨hfirst, hdecode, hreplace empty⟩, hsecond,
    ((hdata _ _ _ hsecond).2.2 _ hshort).1⟩

end AddressSet

end Esni
