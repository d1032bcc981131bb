import Esni.Proofs.DistinctKeys
import Esni.Proofs.KeyShareOutcome
import Esni.Proofs.RoundTrip

/-!
# Runs of operations on key shares

A program holds a list of key shares, by itself or in a record, and works on it: it adds entries,
puts the list that some data or some entries make in its place, and asks it. What each operation
does is said here for plain entries, without the promise that their groups are distinct, and a run
on a list is shown to come to the same. So it is the operations that keep the groups apart, each by
what it refuses, and over a run of any length.

## Main definitions

- `KeyShareList.Operation` and `KeyShareList.run` — operations, one after the other
- `KeyShareList.Operation.effect` — what an operation does to plain entries
- `KeyShareList.LooksUp` — a group is looked up as the one entry that has it
- `Record.Operation` and `Record.run` — the same for a record with its keys

## Main statements

- `KeyShareList.entries_run` and `KeyShareList.nodup_effects` — the step and the run lemma
- `KeyShareList.run_push` — the survivors of a run of pushes
- `Record.exists_run_keys` — a run on a record is a run on its keys
- `KeyShareList.runs_keep_groups_distinct` — all of it together
-/

namespace Esni

namespace KeyShareList

/-- What can be done with a list. -/
inductive Operation where
  | push (entry : KeyShare)
  /-- Puts the list that the data holds in the place of the list. -/
  | takeData (data : Bytes)
  /-- Puts the list of the entries in the place of the list. -/
  | takeEntries (entries : List KeyShare)
  | contains (group : NamedGroup)
  | find (group : NamedGroup)
  | encodeTo (buffer : Bytes)
  /-- Goes through all entries. -/
  | all

inductive Answer where
  | done
  | refused (fault : KeyShareError)
  | contained (present : Bool)
  | found (entry : Option KeyShare)
  | written (buffer : Bytes) (fault : Option KeyShareError)
  | listed (entries : List KeyShare)
  deriving DecidableEq

/-- The operation could not be done, or not to its end. -/
def Answer.fails : Answer → Bool
  | refused _ => true
  | written _ fault => fault.isSome
  | _ => false

/-- What an update that was refused or not answers. -/
def Answer.ofRefusal : Option KeyShareError → Answer
  | none => done
  | some fault => refused fault

/-- The list after an update, and what the update answers. -/
def updated (list : KeyShareList) (update : Update KeyShareList KeyShareError Unit) :
    KeyShareList × Answer :=
  ((Update.outcome update list).1, .ofRefusal (Update.outcome update list).2)

/-- The list after an operation, and what the operation answers. -/
def step (list : KeyShareList) : Operation → KeyShareList × Answer
  | .push entry => list.updated (add entry)
  | .takeData data => list.updated (Update.replace (decode data))
  | .takeEntries entries => list.updated (Update.replace (ofList entries))
  | .contains group => (list, .contained (list.contains group))
  | .find group => (list, .found (list.find? group))
  | .encodeTo buffer => (list, .written (list.encodeTo buffer).1 (list.encodeTo buffer).2)
  | .all => (list, .listed list.entries)

/-- The list after operations one after the other, and what each of them answers. -/
def run (list : KeyShareList) : List Operation → KeyShareList × List Answer
  | [] => (list, [])
  | operation :: operations =>
    let (next, answer) := list.step operation
    let (last, answers) := run next operations
    (last, answer :: answers)

/-- What an operation does to plain entries: an entry is added if no entry has its group, and the
entries that data or a list holds are taken over if they are complete and of distinct groups. -/
def Operation.effect (entries : List KeyShare) : Operation → List KeyShare
  | push entry =>
    if entry.group ∈ entries.map (·.group) then entries else entries ++ [entry]
  | takeData data =>
    match KeyShare.reader.readAll data with
    | ⟨found, none⟩ => if (found.map (·.group)).Nodup then found else entries
    | ⟨_, some _⟩ => entries
  | takeEntries found => if (found.map (·.group)).Nodup then found else entries
  | contains _ | find _ | encodeTo _ | all => entries

section Runs

variable {list : KeyShareList} {entries : List KeyShare} {entry : KeyShare} {group : NamedGroup}

theorem updated_of_none {update : Update KeyShareList KeyShareError Unit} {left : KeyShareList}
    (h : Update.outcome update list = (left, none)) : list.updated update = (left, .done) := by
  rw [updated, h]
  rfl

theorem updated_of_some {update : Update KeyShareList KeyShareError Unit} {left : KeyShareList}
    {fault : KeyShareError} (h : Update.outcome update list = (left, some fault)) :
    list.updated update = (left, .refused fault) := by
  rw [updated, h]
  rfl

theorem entries_updated_ofList (list : KeyShareList) (found : List KeyShare) :
    (list.updated (Update.replace (ofList found))).1.entries =
      if (found.map (·.group)).Nodup then found else list.entries := by
  by_cases hdistinct : (found.map (·.group)).Nodup
  · have hfound : ofList found = .ok ⟨found, hdistinct⟩ := ofList_eq_ok_iff.2 rfl
    rw [if_pos hdistinct, updated_of_none (Update.outcome_replace_of_ok hfound)]
  · rw [if_neg hdistinct]
    cases hfound : ofList found with
    | ok made => exact absurd made.distinct (ofList_eq_ok_iff.1 hfound ▸ hdistinct)
    | error fault => rw [updated_of_some (Update.outcome_replace_of_error rfl)]

/-- The step lemma: an operation on a list does to its entries what it does to plain ones. -/
theorem entries_step (list : KeyShareList) (operation : Operation) :
    (list.step operation).1.entries = operation.effect list.entries := by
  cases operation with
  | push entry =>
    rw [step, Operation.effect]
    by_cases hmem : entry.group ∈ list.entries.map (·.group)
    · rw [updated_of_some (outcome_add_of_mem hmem), if_pos hmem]
    · rw [updated_of_none (outcome_add_of_not_mem hmem), if_neg hmem]
      rfl
  | takeData data =>
    rw [step, Operation.effect]
    cases hread : KeyShare.reader.readAll data with
    | mk found fault =>
      cases fault with
      | none =>
        rw [decode_of_readAll hread]
        exact entries_updated_ofList list found
      | some fault =>
        cases hfound : ofList found with
        | ok made =>
          obtain rfl := ofList_eq_ok_iff.1 hfound
          rw [updated_of_some (Update.outcome_replace_of_error (decode_of_readAll_fault hread))]
        | error refusal =>
          have hdecode : decode data = .error refusal :=
            decode_of_ofList_eq_error (by rw [hread]; exact hfound)
          rw [updated_of_some (Update.outcome_replace_of_error hdecode)]
  | takeEntries found => exact entries_updated_ofList list found
  | contains group => rfl
  | find group => rfl
  | encodeTo buffer => rfl
  | all => rfl

/-- An operation that fails leaves the list as it was. -/
theorem step_of_fails {operation : Operation} (h : (list.step operation).2.fails = true) :
    (list.step operation).1 = list := by
  -- Each update checks before it changes anything.
  have hreplace {found : Except KeyShareError KeyShareList}
      (hfails : (list.updated (Update.replace found)).2.fails = true) :
      (list.updated (Update.replace found)).1 = list := by
    cases hfound : found with
    | ok made =>
      rw [updated_of_none (Update.outcome_replace_of_ok hfound)] at hfails
      cases hfails
    | error fault => rw [updated_of_some (Update.outcome_replace_of_error rfl)]
  cases operation with
  | push entry =>
    rw [step] at h ⊢
    by_cases hmem : entry.group ∈ list.entries.map (·.group)
    · rw [updated_of_some (outcome_add_of_mem hmem)]
    · rw [updated_of_none (outcome_add_of_not_mem hmem)] at h
      cases h
  | takeData data => exact hreplace h
  | takeEntries found => exact hreplace h
  | contains group => rfl
  | find group => rfl
  | encodeTo buffer => rfl
  | all => rfl

/-- The run lemma: so does a whole run. -/
theorem entries_run (list : KeyShareList) (operations : List Operation) :
    (list.run operations).1.entries = operations.foldl Operation.effect list.entries := by
  induction operations generalizing list with
  | nil => rfl
  | cons operation operations ih =>
    rw [List.foldl_cons, ← entries_step]
    exact ih _

/-- No operation brings in a group for the second time. -/
theorem nodup_effect (h : (entries.map (·.group)).Nodup) (operation : Operation) :
    ((operation.effect entries).map (·.group)).Nodup := by
  cases operation with
  | push entry =>
    rw [Operation.effect]
    by_cases hmem : entry.group ∈ entries.map (·.group)
    · rwa [if_pos hmem]
    · rw [if_neg hmem, List.map_append, List.map_singleton, ← List.concat_eq_append]
      exact (List.nodup_concat _ _).2 ⟨hmem, h⟩
  | takeData data =>
    rw [Operation.effect]
    split
    · split
      · assumption
      · exact h
    · exact h
  | takeEntries found =>
    rw [Operation.effect]
    split
    · assumption
    · exact h
  | contains group => exact h
  | find group => exact h
  | encodeTo buffer => exact h
  | all => exact h

theorem nodup_effects (h : (entries.map (·.group)).Nodup) (operations : List Operation) :
    ((operations.foldl Operation.effect entries).map (·.group)).Nodup := by
  induction operations generalizing entries with
  | nil => exact h
  | cons operation operations ih => exact ih (nodup_effect h operation)

theorem run_append (list : KeyShareList) (operations : List Operation) (operation : Operation) :
    list.run (operations ++ [operation]) =
      (((list.run operations).1.step operation).1,
        (list.run operations).2 ++ [((list.run operations).1.step operation).2]) := by
  induction operations generalizing list with
  | nil => rfl
  | cons first operations ih =>
    show (let (last, answers) := run (list.step first).1 (operations ++ [operation])
      (last, (list.step first).2 :: answers)) = _
    rw [ih]
    rfl

/-- Before the entry at this place of those that are pushed there is one of its group, in the list
or among those pushed earlier. -/
def repeats (list : KeyShareList) (pushed : List KeyShare) (place : Nat) (entry : KeyShare) :
    Bool :=
  (list.entries ++ pushed.take place).any (·.group = entry.group)

/-- The pushed entries, each with whether its group was there before. -/
def judged (list : KeyShareList) (pushed : List KeyShare) : List (KeyShare × Bool) :=
  pushed.zipIdx.map fun (entry, place) => (entry, list.repeats pushed place entry)

/-- The pushed entries whose groups were not there before, in their order. -/
def survivors (list : KeyShareList) (pushed : List KeyShare) : List KeyShare :=
  ((list.judged pushed).filter fun (_, again) => !again).map (·.1)

/-- What the pushes answer: those of entries whose groups were there are refused. -/
def pushAnswers (list : KeyShareList) (pushed : List KeyShare) : List Answer :=
  (list.judged pushed).map fun (entry, again) =>
    if again then .refused (.duplicateGroup entry.group) else .done

theorem judged_append (pushed : List KeyShare) (entry : KeyShare) :
    list.judged (pushed ++ [entry]) = list.judged pushed ++
      [(entry, (list.entries ++ pushed).any (·.group = entry.group))] := by
  rw [judged, List.zipIdx_append, List.map_append]
  congr 1
  · apply List.map_congr_left
    rintro ⟨other, place⟩ hmem
    have hplace : place ≤ pushed.length := by
      have hlt := List.snd_lt_of_mem_zipIdx hmem
      simp only [Nat.add_zero] at hlt
      exact Nat.le_of_lt hlt
    dsimp only
    rw [repeats, List.take_append_of_le_length hplace, repeats]
  · simp [repeats]

theorem survivors_append (pushed : List KeyShare) (entry : KeyShare) :
    list.survivors (pushed ++ [entry]) = list.survivors pushed ++
      if (list.entries ++ pushed).any (·.group = entry.group) then [] else [entry] := by
  rw [survivors, judged_append, List.filter_append, List.map_append]
  cases (list.entries ++ pushed).any (·.group = entry.group) <;> rfl

theorem pushAnswers_append (pushed : List KeyShare) (entry : KeyShare) :
    list.pushAnswers (pushed ++ [entry]) = list.pushAnswers pushed ++
      [if (list.entries ++ pushed).any (·.group = entry.group) then
        .refused (.duplicateGroup entry.group) else .done] := by
  rw [pushAnswers, judged_append, List.map_append]
  rfl

theorem any_group_iff {group : NamedGroup} :
    entries.any (·.group = group) = true ↔ group ∈ entries.map (·.group) := by
  rw [List.any_eq_true, List.mem_map]
  simp only [decide_eq_true_eq]

/-- The groups that a run of pushes leaves are those of the list and of all entries that were
pushed, whether they were refused or not. -/
theorem mem_groups_survivors (pushed : List KeyShare) :
    group ∈ (list.entries ++ list.survivors pushed).map (·.group) ↔
      group ∈ (list.entries ++ pushed).map (·.group) := by
  induction pushed using List.reverseRecOn with
  | nil => rfl
  | append_singleton pushed entry ih =>
    have hlast (before : List KeyShare) :
        group ∈ (list.entries ++ (before ++ [entry])).map (·.group) ↔
          group ∈ (list.entries ++ before).map (·.group) ∨ group = entry.group := by
      rw [← List.append_assoc, List.map_append, List.mem_append, List.map_singleton,
        List.mem_singleton]
    rw [survivors_append, hlast, ← ih]
    by_cases hagain : (list.entries ++ pushed).any (·.group = entry.group) = true
    · rw [if_pos hagain, List.append_nil]
      have hthere (h : group = entry.group) :
          group ∈ (list.entries ++ list.survivors pushed).map (·.group) :=
        ih.2 (h ▸ any_group_iff.1 hagain)
      exact (or_iff_left_of_imp hthere).symm
    · rw [if_neg hagain, hlast]

/-- A run of pushes adds the entries whose groups were not there, and refuses exactly the others. -/
theorem run_push (list : KeyShareList) (pushed : List KeyShare) :
    (list.run (pushed.map .push)).1.entries = list.entries ++ list.survivors pushed ∧
      (list.run (pushed.map .push)).2 = list.pushAnswers pushed := by
  -- The last push finds the groups of all that were pushed before it: induction on the end.
  induction pushed using List.reverseRecOn with
  | nil => exact ⟨(List.append_nil _).symm, rfl⟩
  | append_singleton pushed entry ih =>
    obtain ⟨hentries, hanswers⟩ := ih
    have hgroups : entry.group ∈ (list.run (pushed.map .push)).1.entries.map (·.group) ↔
        (list.entries ++ pushed).any (·.group = entry.group) = true := by
      rw [hentries, mem_groups_survivors, any_group_iff]
    rw [List.map_append, List.map_singleton, run_append, step, hanswers, survivors_append,
      pushAnswers_append, ← List.append_assoc, ← hentries]
    by_cases hagain : (list.entries ++ pushed).any (·.group = entry.group) = true
    · rw [updated_of_some (outcome_add_of_mem (hgroups.2 hagain)), if_pos hagain, if_pos hagain]
      exact ⟨(List.append_nil _).symm, rfl⟩
    · rw [updated_of_none (outcome_add_of_not_mem fun hmem => hagain (hgroups.1 hmem)),
        if_neg hagain, if_neg hagain]
      exact ⟨rfl, rfl⟩

/-- The group is looked up as the entry that has it, which is the only one, if there is one. -/
structure LooksUp (list : KeyShareList) (group : NamedGroup) : Prop where
  contains_iff : list.contains group = true ↔ (list.find? group).isSome = true
  find?_eq_some_iff : ∀ entry, list.find? group = some entry ↔
    entry ∈ list.entries ∧ entry.group = group
  only_one : ∀ entry, list.find? group = some entry →
    list.entries.filter (·.group = group) = [entry]

theorem looksUp (list : KeyShareList) (group : NamedGroup) : list.LooksUp group := by
  have hfind (entry : KeyShare) : list.find? group = some entry ↔
      entry ∈ list.entries ∧ entry.group = group := find?_key_eq_some_iff list.distinct
  refine ⟨?_, hfind, fun entry h => ?_⟩
  · rw [contains, find?, List.find?_isSome, List.any_eq_true]
  · obtain ⟨hmem, rfl⟩ := (hfind entry).1 h
    exact filter_key_of_mem list.distinct hmem

end Runs

end KeyShareList

namespace Record

/-- What can be done with a record. -/
inductive Operation where
  /-- Gives all fields but the keys the values that they have in another record. -/
  | setOthers (fields : Record)
  | onKeys (operation : KeyShareList.Operation)
  /-- Puts the record that the data holds in the place of the record. -/
  | takeData (registry : Registry) (data : Bytes)
  | encode

inductive Answer where
  | done
  | ofKeys (answer : KeyShareList.Answer)
  | undecodable (fault : DecodeError)
  | written (data : Bytes)
  | unwritten (fault : EncodeError)
  | ended (cause : Panic)
  deriving DecidableEq

def Answer.fails : Answer → Bool
  | ofKeys answer => answer.fails
  | undecodable _ | unwritten _ | ended _ => true
  | done | written _ => false

/-- The record after an operation, and what the operation answers. -/
def step [Build] (record : Record) : Operation → Record × Answer
  | .setOthers fields => ({ fields with keys := record.keys }, .done)
  | .onKeys operation =>
    ({ record with keys := (record.keys.step operation).1 },
      .ofKeys (record.keys.step operation).2)
  | .takeData registry data =>
    match Update.outcome (Update.replace (decode registry data)) record with
    | (next, none) => (next, .done)
    | (next, some fault) => (next, .undecodable fault)
  | .encode =>
    match record.encode with
    | .ok data => (record, .written data)
    | .error (.fault fault) => (record, .unwritten fault)
    | .error (.panic cause) => (record, .ended cause)

/-- The record after operations one after the other. -/
def run [Build] (record : Record) (operations : List Operation) : Record :=
  operations.foldl (fun record operation => (record.step operation).1) record

/-- A record is not changed by its being written. -/
theorem step_encode [Build] (record : Record) :
    record.step .encode = (record, (record.step .encode).2) := by
  rw [step]
  split <;> rfl

/-- An operation that fails leaves the record as it was. -/
theorem step_of_fails [Build] {record : Record} {operation : Operation}
    (h : (record.step operation).2.fails = true) : (record.step operation).1 = record := by
  cases operation with
  | setOthers fields => cases h
  | onKeys operation =>
    rw [step, KeyShareList.step_of_fails h]
  | takeData registry data =>
    rw [step] at h ⊢
    cases hdecode : decode registry data with
    | ok found =>
      rw [Update.outcome_replace_of_ok hdecode] at h
      cases h
    | error fault => rw [Update.outcome_replace_of_error rfl]
  | encode => exact congrArg Prod.fst (step_encode record)

/-- The data has these bytes as a section behind its own length. -/
def HasSection (data region : Bytes) : Prop :=
  ∃ front rest, data = front ++ Bytes.framed 2 region ++ rest

/-- The keys of a record that was read are the list that a section of the data holds. -/
theorem exists_section_of_decode {registry : Registry} {data : Bytes} {record : Record}
    (h : decode registry data = .ok record) :
    ∃ region, HasSection data region ∧ KeyShareList.decode region = .ok record.keys := by
  obtain ⟨front, wire, hfront, _, _, rfl⟩ := exists_sections_of_decode h
  obtain ⟨name, keys, suites, _, hkeys, _, rfl⟩ := encodeFront_eq_ok_iff.1 hfront
  obtain ⟨region, hencode, _, _, rfl⟩ := encodeKeys_eq_ok_iff.1 hkeys
  refine ⟨region, ?_, KeyShareList.decode_eq_ok_iff.2 (KeyShareList.encode_eq_ok_iff.1 hencode)⟩
  let body := record.bodyFront name (Bytes.framed 2 region) suites ++ wire
  refine ⟨Bytes.ofUInt16 record.version.code ++ (Checksum.of record.version.code body).val ++ name,
    suites ++ Bytes.ofUInt16 record.paddedLength ++ record.notBefore.wire ++
      record.notAfter.wire ++ wire, ?_⟩
  simp only [body, sealed, bodyFront, List.append_assoc]

/-- What an operation on a record is for its keys: itself, the taking over of a section of data, or
just a look at them. -/
inductive Operation.ForKeys : Operation → KeyShareList.Operation → Prop where
  | onKeys (operation : KeyShareList.Operation) : ForKeys (.onKeys operation) operation
  | takeData {registry : Registry} {data region : Bytes} {found : Record}
    (decoded : decode registry data = .ok found) (inData : HasSection data region)
    (keys : KeyShareList.decode region = .ok found.keys) :
    ForKeys (.takeData registry data) (.takeData region)
  | undecodable {registry : Registry} {data : Bytes} {fault : DecodeError}
    (h : decode registry data = .error fault) : ForKeys (.takeData registry data) .all
  | setOthers (fields : Record) : ForKeys (.setOthers fields) .all
  | encode : ForKeys .encode .all

theorem exists_step_keys [Build] (record : Record) (operation : Operation) :
    ∃ forKeys, operation.ForKeys forKeys ∧
      (record.step operation).1.keys = (record.keys.step forKeys).1 := by
  cases operation with
  | setOthers fields => exact ⟨.all, .setOthers fields, rfl⟩
  | onKeys operation => exact ⟨operation, .onKeys operation, rfl⟩
  | takeData registry data =>
    cases hdecode : decode registry data with
    | ok found =>
      obtain ⟨region, hsection, hregion⟩ := exists_section_of_decode hdecode
      refine ⟨.takeData region, .takeData hdecode hsection hregion, ?_⟩
      rw [step, Update.outcome_replace_of_ok hdecode, KeyShareList.step,
        KeyShareList.updated_of_none (Update.outcome_replace_of_ok hregion)]
    | error fault =>
      refine ⟨.all, .undecodable hdecode, ?_⟩
      rw [step, Update.outcome_replace_of_error hdecode]
      rfl
  | encode =>
    refine ⟨.all, .encode, ?_⟩
    rw [step_encode]
    rfl

/-- A run on a record is a run on its keys, with one operation on them for each on the record. -/
theorem exists_run_keys [Build] (record : Record) (operations : List Operation) :
    ∃ forKeys, List.Forall₂ Operation.ForKeys operations forKeys ∧
      (record.run operations).keys = (record.keys.run forKeys).1 := by
  induction operations generalizing record with
  | nil => exact ⟨[], .nil, rfl⟩
  | cons operation operations ih =>
    obtain ⟨first, hfirst, hstep⟩ := record.exists_step_keys operation
    obtain ⟨others, hothers, hrun⟩ := ih (record.step operation).1
    refine ⟨first :: others, .cons hfirst hothers, ?_⟩
    rw [hstep] at hrun
    exact hrun

end Record

namespace KeyShareList

/-- A run from the empty list does to it what its operations do to plain entries, which keeps their
groups distinct, and every group is looked up as the one entry that has it. An operation that fails
changes nothing. A run of pushes adds the entries whose groups are new to the list and to the pushes
before them, and refuses exactly the others. All this holds of the keys of a record too: they go
through a run of their own, with one operation for each on the record. -/
theorem runs_keep_groups_distinct [Build] :
    (∀ operations : List Operation,
      (run .empty operations).1.entries = operations.foldl Operation.effect [] ∧
        ((operations.foldl Operation.effect []).map (·.group)).Nodup ∧
        ∀ group, (run .empty operations).1.LooksUp group) ∧
    (∀ (list : KeyShareList) (operation : Operation),
      (list.step operation).2.fails = true → (list.step operation).1 = list) ∧
    (∀ (list : KeyShareList) (pushed : List KeyShare),
      (list.run (pushed.map .push)).1.entries = list.entries ++ list.survivors pushed ∧
        (list.run (pushed.map .push)).2 = list.pushAnswers pushed) ∧
    (∀ (record : Record) (operation : Record.Operation),
      (record.step operation).2.fails = true → (record.step operation).1 = record) ∧
    (∀ (record : Record) (operations : List Record.Operation),
      ∃ forKeys, List.Forall₂ Record.Operation.ForKeys operations forKeys ∧
        (record.run operations).keys = (record.keys.run forKeys).1 ∧
        (record.run operations).keys.entries =
          forKeys.foldl Operation.effect record.keys.entries ∧
        ((forKeys.foldl Operation.effect record.keys.entries).map (·.group)).Nodup ∧
        ∀ group, (record.run operations).keys.LooksUp group) := by
  refine ⟨fun operations => ⟨entries_run .empty operations, nodup_effects empty.distinct operations,
    fun group => looksUp _ group⟩, fun list operation => step_of_fails,
    fun list pushed => run_push list pushed, fun record operation => Record.step_of_fails, ?_⟩
  intro record operations
  obtain ⟨forKeys, hforKeys, hkeys⟩ := record.exists_run_keys operations
  refine ⟨forKeys, hforKeys, hkeys, ?_, nodup_effects record.keys.distinct forKeys,
    fun group => looksUp _ group⟩
  rw [hkeys, entries_run]

/-- The group of the single entry is pushed twice, so the second entry is dropped and refused, and
so it is in a record with this entry. Data that breaks off changes nothing either. -/
theorem runs_keep_groups_distinct_single :
    (run .empty ([⟨⟨0x1d⟩, [7]⟩, ⟨⟨0x1d⟩, [8]⟩, ⟨⟨0x17⟩, []⟩].map .push)).1.entries =
        [⟨⟨0x1d⟩, [7]⟩, ⟨⟨0x17⟩, []⟩] ∧
      (run .empty ([⟨⟨0x1d⟩, [7]⟩, ⟨⟨0x1d⟩, [8]⟩, ⟨⟨0x17⟩, []⟩].map .push)).2 =
        [.done, .refused (.duplicateGroup ⟨0x1d⟩), .done] ∧
      (single.step (.takeData [0, 0x1d, 0])).2.fails = true ∧
      (single.step (.takeData [0, 0x1d, 0])).1 = single ∧
      ({ Record.sample with keys := single }.step (.onKeys (.push ⟨⟨0x1d⟩, [8]⟩))).1 =
        { Record.sample with keys := single } := by
  obtain ⟨_, hlist, hpush, hrecord, _⟩ := runs_keep_groups_distinct
  have hpushed := hpush .empty [⟨⟨0x1d⟩, [7]⟩, ⟨⟨0x1d⟩, [8]⟩, ⟨⟨0x17⟩, []⟩]
  have hbroken : (single.step (.takeData [0, 0x1d, 0])).2.fails = true := by decide +kernel
  exact ⟨hpushed.1, hpushed.2, hbroken, hlist _ _ hbroken, hrecord _ _ rfl⟩

end KeyShareList

end Esni
