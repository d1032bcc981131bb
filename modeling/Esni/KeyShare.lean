import Esni.Identifier
import Esni.Items
import Esni.Listing
import Esni.Update

/-!
# Key shares

A record offers public keys of the server, each in a group of its own. A list of key shares never
holds two entries of one group: every way to build one refuses the second.

On the wire an entry is its group, the length of its key in two bytes, and the key. The entries
follow each other with no count. Writing a list appends entry by entry and stops at the first key
that is too long for its length field; what was written before it stays.

## Main definitions

- `KeyShare` and `KeyShareList` — an entry, and entries of distinct groups
- `KeyShareList.add`, `KeyShareList.push` and `KeyShareList.ofList` — checked construction
- `KeyShareList.encodeTo` and `KeyShareList.decode` — the wire form
-/

namespace Esni

/-- A public key for agreeing on the key that encrypts the server name. -/
structure KeyShare where
  group : NamedGroup
  key : Bytes
  deriving DecidableEq

inductive KeyShareError where
  | truncatedEntry
  | duplicateGroup (group : NamedGroup)
  | keyTooLong (group : NamedGroup) (length : Nat)
  deriving DecidableEq

def KeyShareError.message : KeyShareError → String
  | truncatedEntry => "truncated key share entry"
  | duplicateGroup group => s!"duplicate key share group {group.text}"
  | keyTooLong group length => s!"key exchange of group {group.text} is too long: {length} bytes"

namespace KeyShare

def maxKeyLength : Nat := 65535

def fits (entry : KeyShare) : Bool := entry.key.length ≤ maxKeyLength

def encodedLength (entry : KeyShare) : Nat := 4 + entry.key.length

/-- The bytes of the entry on the wire, if it fits. -/
def wire (entry : KeyShare) : Bytes :=
  Bytes.ofUInt16 entry.group.code ++ Bytes.ofNat 2 entry.key.length ++ entry.key

/-- The entry at the front of the data and what follows it, if the entry is complete. -/
def read? (data : Bytes) : Option (KeyShare × Bytes) := do
  let (code, data) ← Bytes.cutUInt16? data
  let (length, data) ← Bytes.cutNat? 2 data
  let (key, data) ← Bytes.cut? length data
  return (⟨⟨code⟩, key.val⟩, data)

theorem length_of_read? {data rest : Bytes} {entry : KeyShare}
    (h : read? data = some (entry, rest)) : data.length = entry.encodedLength + rest.length := by
  simp only [read?, Option.bind_eq_bind, Option.bind_eq_some_iff, Option.pure_def,
    Option.some.injEq] at h
  obtain ⟨⟨code, data₁⟩, h₁, ⟨length, data₂⟩, h₂, ⟨key, data₃⟩, h₃, h⟩ := h
  cases h
  have := Bytes.length_of_cutUInt16? h₁
  have := Bytes.length_of_cutNat? h₂
  have := Bytes.length_of_cut? h₃
  have := key.property
  simp only [encodedLength] at *
  omega

def reader : ItemReader KeyShareError KeyShare where
  read data := orFault .truncatedEntry (read? data)
  shrinks h := by
    have := length_of_read? (orFault_eq_ok_iff.1 h)
    simp only [encodedLength] at this
    omega

def text (entry : KeyShare) : String :=
  "\x7bGroup:" ++ entry.group.text ++ ", Value:" ++ Hex.text entry.key ++ "\x7d"

end KeyShare

/-- Key shares in order, at most one for each group. -/
structure KeyShareList where
  entries : List KeyShare
  /-- No two entries have the same group. -/
  distinct : (entries.map (·.group)).Nodup := by simp
  deriving DecidableEq

namespace KeyShareList

def empty : KeyShareList := ⟨[], by simp⟩

def contains (list : KeyShareList) (group : NamedGroup) : Bool :=
  list.entries.any (·.group = group)

def find? (list : KeyShareList) (group : NamedGroup) : Option KeyShare :=
  list.entries.find? (·.group = group)

def length (list : KeyShareList) : Nat := list.entries.length

def isEmpty (list : KeyShareList) : Bool := list.entries.isEmpty

-- An entry takes more bytes in memory than on the wire, so unlike a plug-in's reported
-- lengths these sums always fit into a word.
def encodedLength (list : KeyShareList) : Nat :=
  totalLength KeyShare.encodedLength list.entries

/-- The list with an entry of a new group at its end. -/
def concat (list : KeyShareList) (entry : KeyShare)
    (h : entry.group ∉ list.entries.map (·.group)) : KeyShareList :=
  ⟨list.entries ++ [entry], by
    rw [List.map_append, List.nodup_append]
    refine ⟨list.distinct, by simp, ?_⟩
    rintro group hgroup _ hlast rfl
    simp only [List.map_cons, List.map_nil, List.mem_singleton] at hlast
    exact h (hlast ▸ hgroup)⟩

/-- Adds an entry at the end. An entry of a group that is already there is refused. -/
def add (entry : KeyShare) : Update KeyShareList KeyShareError Unit := do
  let list ← get
  if h : entry.group ∈ list.entries.map (·.group) then throw (.duplicateGroup entry.group)
  else set (list.concat entry h)

/-- The list with the entry added to it. -/
def push (list : KeyShareList) (entry : KeyShare) : Except KeyShareError KeyShareList :=
  Update.result (add entry) list

theorem outcome_add_of_mem {list : KeyShareList} {entry : KeyShare}
    (h : entry.group ∈ list.entries.map (·.group)) :
    Update.outcome (add entry) list = (list, some (.duplicateGroup entry.group)) := by
  rw [add, Update.outcome_get_bind, dif_pos h, Update.outcome_throw]

theorem outcome_add_of_not_mem {list : KeyShareList} {entry : KeyShare}
    (h : entry.group ∉ list.entries.map (·.group)) :
    Update.outcome (add entry) list = (list.concat entry h, none) := by
  rw [add, Update.outcome_get_bind, dif_neg h, Update.outcome_set]

theorem push_of_mem {list : KeyShareList} {entry : KeyShare}
    (h : entry.group ∈ list.entries.map (·.group)) :
    list.push entry = .error (.duplicateGroup entry.group) :=
  Update.result_of_some (outcome_add_of_mem h)

theorem push_of_not_mem {list : KeyShareList} {entry : KeyShare}
    (h : entry.group ∉ list.entries.map (·.group)) : list.push entry = .ok (list.concat entry h) :=
  Update.result_of_none (outcome_add_of_not_mem h)

/-- The first group that occurs in `seen` or earlier in the list. -/
def firstRepeat? (seen : List NamedGroup) : List NamedGroup → Option NamedGroup
  | [] => none
  | group :: groups =>
    if seen.any (·.code == group.code) then some group else firstRepeat? (group :: seen) groups

theorem any_code_iff {seen : List NamedGroup} {group : NamedGroup} :
    seen.any (·.code == group.code) = true ↔ group ∈ seen := by
  rw [List.any_eq_true]
  constructor
  · rintro ⟨⟨code⟩, hmem, hcode⟩
    obtain rfl : code = group.code := by simpa using hcode
    exact hmem
  · intro hmem
    exact ⟨group, hmem, by simp⟩

/-- There is no repeat exactly if the groups are distinct and none was seen before. -/
theorem firstRepeat?_eq_none_iff {seen groups : List NamedGroup} :
    firstRepeat? seen groups = none ↔ groups.Nodup ∧ ∀ group ∈ groups, group ∉ seen := by
  induction groups generalizing seen with
  | nil => simp [firstRepeat?]
  | cons group groups ih =>
    unfold firstRepeat?
    split
    · rename_i h
      simp [any_code_iff.1 h]
    · rename_i h
      rw [any_code_iff] at h
      simp only [ih, List.nodup_cons, List.mem_cons, not_or, forall_eq_or_imp]
      grind

/-- The list of the given entries. If a group repeats, the first repeat is reported. -/
def ofList (entries : List KeyShare) : Except KeyShareError KeyShareList :=
  match h : firstRepeat? [] (entries.map (·.group)) with
  | some group => .error (.duplicateGroup group)
  | none => .ok ⟨entries, (firstRepeat?_eq_none_iff.1 h).1⟩

/-- Appends the entries to `buffer`. The first key that is too long ends the writing and is
reported; the entries before it have been appended. -/
def encodeTo (list : KeyShareList) (buffer : Bytes) : Bytes × Option KeyShareError :=
  (buffer ++ (list.entries.takeWhile KeyShare.fits).flatMap KeyShare.wire,
    (list.entries.find? fun entry => !entry.fits).map fun entry =>
      .keyTooLong entry.group entry.key.length)

/-- The bytes of the entries, if every key fits. -/
def encode (list : KeyShareList) : Except KeyShareError Bytes :=
  match list.encodeTo [] with
  | (bytes, none) => .ok bytes
  | (_, some fault) => .error fault

/-- Reads entries up to the end of the data. A repeated group is reported before a later entry
that is not complete, and an incomplete entry before its group is looked at. -/
def decode (data : Bytes) : Except KeyShareError KeyShareList := do
  let reading := KeyShare.reader.readAll data
  let list ← ofList reading.items
  match reading.fault with
  | none => .ok list
  | some fault => .error fault

def text (list : KeyShareList) : String :=
  listing (list.entries.map KeyShare.text)

end KeyShareList

end Esni
