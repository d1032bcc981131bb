import Mathlib.Data.Set.Card
import Esni.Proofs.DistinctKeys
import Esni.Proofs.RegistryGrowth

/-!
# Runs of registrations

A program registers one type after the other, and goes on when a registration is refused. Each call
is judged by what is known when it is made, so over a run of any length the first registration of a
type stays. What a registry knows in the end is what it knew at the start and, for each other type,
what the first call for it has brought. So the calls that are refused do not matter, and neither
does the order of those that are not. Readers and descriptions see no more of a registry than this.

## Main definitions

- `Registry.Call` and `Registry.run` — calls one after the other, with the refusal of each
- `Registry.firstFor?` — what the first call for a type brings
- `Registry.accepted` — the calls of a run that are not refused
- `Registry.Judged` — what becomes of one call
- `Registry.SameLookups` — registries that know the same

## Main statements

- `Registry.lookup?_step` and `Registry.lookup?_run` — the step and the run lemma
- `Registry.run_accepted` — a run comes to what its accepted calls come to
- `Registry.lookup?_run_of_perm` — the order of the accepted calls does not matter
- `Registry.first_registration_wins` — all of it together
-/

namespace Esni

namespace Registry

/-- A call that registers a type. -/
abbrev Call := ExtensionType × Registration

/-- The registry after a call, and the refusal, if the call is refused. -/
def step (registry : Registry) (call : Call) : Registry × Option RegistryConflict :=
  Update.outcome (add call.1 call.2) registry

/-- The registry after calls one after the other, and the refusals of those that are refused. -/
def run (registry : Registry) : List Call → Registry × List (Option RegistryConflict)
  | [] => (registry, [])
  | call :: calls =>
    let (next, refusal) := registry.step call
    let (last, refusals) := run next calls
    (last, refusal :: refusals)

/-- What the first call for a type brings, if there is one. -/
def firstFor? (type : ExtensionType) (calls : List Call) : Option Registration :=
  (calls.find? (·.1 = type)).map (·.2)

/-- The calls of a run that are not refused. -/
def accepted (registry : Registry) (calls : List Call) : List Call :=
  ((calls.zip (registry.run calls).2).filter (·.2.isNone)).map (·.1)

/-- What becomes of a call: it is refused exactly if its type is known already, for just this
reason, and then nothing changes. -/
structure Judged (registry : Registry) (call : Call) (next : Registry)
    (refusal : Option RegistryConflict) : Prop where
  refused_iff : refusal = some ⟨call.1⟩ ↔ registry.lookup? call.1 ≠ none
  accepted_iff : refusal = none ↔ registry.lookup? call.1 = none
  lookup?_of_refused : refusal ≠ none → ∀ type, next.lookup? type = registry.lookup? type
  name?_of_refused : refusal ≠ none → ∀ type, next.name? type = registry.name? type
  length_of_refused : refusal ≠ none → next.length = registry.length

/-- The registries know the same types, under the same names and with the same decoders. -/
def SameLookups (a b : Registry) : Prop := ∀ type, a.lookup? type = b.lookup? type

section Steps

variable {registry : Registry} {call : Call} {type : ExtensionType}

theorem step_of_known (h : registry.lookup? call.1 ≠ none) :
    registry.step call = (registry, some ⟨call.1⟩) := by
  have hknown : call.1 ∈ registry.entries.map (·.1) := by
    by_contra hnew
    exact h (lookup?_eq_none_iff.2 hnew)
  exact outcome_add_of_mem hknown call.2

theorem step_of_new (h : registry.lookup? call.1 = none) :
    ∃ larger, registry.register call.1 call.2 = .ok larger ∧
      registry.step call = (larger, none) := by
  have hnew := lookup?_eq_none_iff.1 h
  exact ⟨_, register_of_not_mem hnew call.2, outcome_add_of_not_mem hnew call.2⟩

theorem judged_step (registry : Registry) (call : Call) :
    registry.Judged call (registry.step call).1 (registry.step call).2 := by
  by_cases h : registry.lookup? call.1 = none
  · obtain ⟨larger, _, hstep⟩ := step_of_new h
    rw [hstep]
    constructor <;> simp [h]
  · rw [step_of_known h]
    constructor <;> simp [h]

/-- The step lemma: a call adds what it brings, unless the type is known. -/
theorem lookup?_step (registry : Registry) (call : Call) (type : ExtensionType) :
    (registry.step call).1.lookup? type =
      (registry.lookup? type).or (if call.1 = type then some call.2 else none) := by
  by_cases h : registry.lookup? call.1 = none
  · obtain ⟨larger, hregister, hstep⟩ := step_of_new h
    rw [hstep, lookup?_of_register hregister]
    by_cases htype : call.1 = type
    · rw [if_pos htype, if_pos htype, ← htype, h, Option.none_or]
    · rw [if_neg htype, if_neg htype, Option.or_none]
  · rw [step_of_known h]
    by_cases htype : call.1 = type
    · obtain ⟨registration, hknown⟩ := Option.ne_none_iff_exists'.1 (htype ▸ h)
      rw [hknown, Option.some_or]
    · rw [if_neg htype, Option.or_none]

end Steps

section Runs

variable {registry : Registry} {calls calls' : List Call} {call : Call} {type : ExtensionType}

theorem firstFor?_cons (type : ExtensionType) (call : Call) (calls : List Call) :
    firstFor? type (call :: calls) =
      (if call.1 = type then some call.2 else none).or (firstFor? type calls) := by
  rw [firstFor?, List.find?_cons]
  by_cases htype : call.1 = type
  · rw [if_pos htype, decide_eq_true htype]
    rfl
  · rw [if_neg htype, decide_eq_false htype]
    exact Option.none_or.symm

theorem run_cons (registry : Registry) (call : Call) (calls : List Call) :
    registry.run (call :: calls) =
      (((registry.step call).1.run calls).1,
        (registry.step call).2 :: ((registry.step call).1.run calls).2) :=
  rfl

/-- The run lemma: what was known stays, and of the calls for another type the first one counts. -/
theorem lookup?_run (registry : Registry) (calls : List Call) (type : ExtensionType) :
    (registry.run calls).1.lookup? type = (registry.lookup? type).or (firstFor? type calls) := by
  induction calls generalizing registry with
  | nil => exact Option.or_none.symm
  | cons call calls ih => rw [run_cons, ih, lookup?_step, firstFor?_cons, Option.or_assoc]

theorem run_append (registry : Registry) (before after : List Call) :
    registry.run (before ++ after) =
      (((registry.run before).1.run after).1,
        (registry.run before).2 ++ ((registry.run before).1.run after).2) := by
  induction before generalizing registry with
  | nil => rfl
  | cons call before ih => rw [List.cons_append, run_cons, run_cons, ih, List.cons_append]

theorem length_refusals (registry : Registry) (calls : List Call) :
    (registry.run calls).2.length = calls.length := by
  induction calls generalizing registry with
  | nil => rfl
  | cons call calls ih => exact congrArg Nat.succ (ih _)

/-- What becomes of a call is decided by the calls before it. -/
theorem getElem?_refusals (registry : Registry) (before : List Call) (call : Call)
    (after : List Call) :
    (registry.run (before ++ call :: after)).2[before.length]? =
      some ((registry.run before).1.step call).2 := by
  rw [run_append, List.getElem?_append_right (Nat.le_of_eq (length_refusals _ _)),
    length_refusals, Nat.sub_self, run_cons, List.getElem?_cons_zero]

theorem accepted_cons (registry : Registry) (call : Call) (calls : List Call) :
    registry.accepted (call :: calls) =
      (if (registry.step call).2 = none then [call] else []) ++
        (registry.step call).1.accepted calls := by
  rw [accepted, run_cons, List.zip_cons_cons]
  cases (registry.step call).2 with
  | none => rfl
  | some conflict => rfl

/-- The calls that are refused do not matter. -/
theorem run_accepted (registry : Registry) (calls : List Call) :
    (registry.run (registry.accepted calls)).1 = (registry.run calls).1 := by
  induction calls generalizing registry with
  | nil => rfl
  | cons call calls ih =>
    rw [accepted_cons, run_cons]
    by_cases h : registry.lookup? call.1 = none
    · obtain ⟨larger, _, hstep⟩ := step_of_new h
      rw [hstep, if_pos rfl, List.singleton_append, run_cons, hstep]
      exact ih larger
    · rw [step_of_known h, if_neg (by simp), List.nil_append]
      exact ih registry

/-- Calls that are not refused are for new types, each of them for another one. -/
theorem accepted_distinct (registry : Registry) (calls : List Call) :
    ((registry.accepted calls).map (·.1)).Nodup ∧
      ∀ call ∈ registry.accepted calls, registry.lookup? call.1 = none := by
  induction calls generalizing registry with
  | nil => exact ⟨List.nodup_nil, fun call hmem => nomatch hmem⟩
  | cons call calls ih =>
    rw [accepted_cons]
    by_cases h : registry.lookup? call.1 = none
    · obtain ⟨larger, hregister, hstep⟩ := step_of_new h
      obtain ⟨hdistinct, hnew⟩ := ih larger
      rw [hstep, if_pos rfl, List.singleton_append, List.map_cons, List.nodup_cons]
      -- What is new to the larger registry is new to this one, and not the type just registered.
      have hother (other : Call) (hmem : other ∈ larger.accepted calls) :
          call.1 ≠ other.1 ∧ registry.lookup? other.1 = none := by
        have hlookup := hnew other hmem
        rw [lookup?_of_register hregister] at hlookup
        by_cases htype : call.1 = other.1
        · rw [if_pos htype] at hlookup
          cases hlookup
        · rw [if_neg htype] at hlookup
          exact ⟨htype, hlookup⟩
      refine ⟨⟨?_, hdistinct⟩, ?_⟩
      · intro hmem
        obtain ⟨other, hother', htype⟩ := List.mem_map.1 hmem
        exact (hother other hother').1 htype.symm
      · intro other hmem
        rcases List.mem_cons.1 hmem with rfl | hmem
        · exact h
        · exact (hother other hmem).2
    · rw [step_of_known h, if_neg (by simp), List.nil_append]
      exact ih registry

/-- Calls for distinct new types are all accepted. -/
theorem refusals_of_distinct (hdistinct : (calls.map (·.1)).Nodup)
    (hnew : ∀ call ∈ calls, registry.lookup? call.1 = none) :
    ∀ refusal ∈ (registry.run calls).2, refusal = none := by
  induction calls generalizing registry with
  | nil => exact fun refusal hmem => nomatch hmem
  | cons call calls ih =>
    rw [List.map_cons, List.nodup_cons] at hdistinct
    obtain ⟨hfirst, hdistinct⟩ := hdistinct
    obtain ⟨larger, hregister, hstep⟩ := step_of_new (hnew call List.mem_cons_self)
    have hlarger : ∀ other ∈ calls, larger.lookup? other.1 = none := by
      intro other hmem
      have hne : call.1 ≠ other.1 := fun htype => hfirst (htype ▸ List.mem_map_of_mem hmem)
      rw [lookup?_of_register hregister, if_neg hne, hnew other (List.mem_cons_of_mem _ hmem)]
    rw [run_cons, hstep]
    intro refusal hmem
    rcases List.mem_cons.1 hmem with rfl | hmem
    · rfl
    · exact ih hdistinct hlarger refusal hmem

/-- Runs whose accepted calls are the same up to their order come to the same. -/
theorem lookup?_run_of_perm (hperm : (registry.accepted calls').Perm (registry.accepted calls)) :
    SameLookups (registry.run calls').1 (registry.run calls).1 := by
  intro type
  have hfirst : firstFor? type (registry.accepted calls') =
      firstFor? type (registry.accepted calls) := by
    rw [firstFor?, firstFor?, find?_key_of_perm hperm (registry.accepted_distinct calls).1]
  rw [← run_accepted registry calls', ← run_accepted registry calls, lookup?_run, lookup?_run,
    hfirst]

theorem accepted_of_refusals (h : ∀ refusal ∈ (registry.run calls).2, refusal = none) :
    registry.accepted calls = calls := by
  have hpairs : ∀ pair ∈ calls.zip (registry.run calls).2, pair.2.isNone = true := by
    intro pair hmem
    rw [h pair.2 (List.of_mem_zip hmem).2]
    rfl
  rw [accepted, List.filter_eq_self.2 hpairs,
    List.map_fst_zip (Nat.le_of_eq (length_refusals _ _).symm)]

end Runs

section Contents

variable {registry a b : Registry}

theorem mem_types_iff {type : ExtensionType} :
    type ∈ registry.entries.map (·.1) ↔ registry.lookup? type ≠ none := by
  rw [ne_eq, lookup?_eq_none_iff, Decidable.not_not]

/-- The length is the number of the types that are known. -/
theorem length_eq_ncard (registry : Registry) :
    registry.length = {type | registry.lookup? type ≠ none}.ncard := by
  have htypes : {type | registry.lookup? type ≠ none} =
      ((registry.entries.map (·.1)).toFinset : Set ExtensionType) := by
    ext type
    rw [Set.mem_ofPred_eq, ← mem_types_iff, List.coe_toFinset, Set.mem_ofPred_eq]
  rw [htypes, Set.ncard_coe_finset, List.toFinset_card_of_nodup registry.distinct,
    List.length_map, length]

theorem isEmpty_iff (registry : Registry) :
    registry.isEmpty = true ↔ ∀ type, registry.lookup? type = none := by
  rw [isEmpty, List.isEmpty_iff]
  constructor
  · intro hnil type
    rw [lookup?, hnil]
    rfl
  · intro hnone
    apply List.eq_nil_iff_forall_not_mem.2
    intro entry hmem
    exact mem_types_iff.1 (List.mem_map_of_mem hmem) (hnone entry.1)

theorem SameLookups.reader_eq (h : SameLookups a b) :
    DecodedExtension.reader a = DecodedExtension.reader b := by
  have hread : DecodedExtension.read a = DecodedExtension.read b := by
    funext data
    unfold DecodedExtension.read
    simp only [h _]
  simp only [DecodedExtension.reader, hread]

theorem SameLookups.decode_eq (h : SameLookups a b) (data : Bytes) :
    ExtensionList.decode a data = ExtensionList.decode b data := by
  simp only [ExtensionList.decode, ExtensionList.readBody, h.reader_eq]

theorem SameLookups.textWith_eq (h : SameLookups a b) (list : ExtensionList) :
    ExtensionList.textWith a list = ExtensionList.textWith b list := by
  have hitem : ExtensionList.itemText a = ExtensionList.itemText b := by
    funext extension
    rw [ExtensionList.itemText, ExtensionList.itemText, name?, name?, h]
  rw [ExtensionList.textWith, ExtensionList.textWith, hitem]

end Contents

/-- Over a run of calls from any registry the first registration of a type wins. A call is refused
exactly if its type is known by then, and changes nothing if so. In the end a type has the entry
that it had at the start or, if it had none, the one that the first call for it has brought. The
length is the number of the types that are known, and is zero only if none is. Runs whose accepted
calls are the same up to their order come to the same for every reader and every description; in
particular the accepted calls of a run are all accepted by themselves, in any order. -/
theorem first_registration_wins (registry : Registry) (calls : List Call) :
    (∀ before call after, calls = before ++ call :: after →
      ∃ refusal, (registry.run calls).2[before.length]? = some refusal ∧
        (registry.run before).1.Judged call (registry.run (before ++ [call])).1 refusal) ∧
    (∀ type,
      (registry.run calls).1.lookup? type = (registry.lookup? type).or (firstFor? type calls) ∧
        (registry.run calls).1.name? type =
          (registry.name? type).or ((firstFor? type calls).map (·.name))) ∧
    (registry.run calls).1.length =
      {type | (registry.run calls).1.lookup? type ≠ none}.ncard ∧
    ((registry.run calls).1.isEmpty = true ↔
      ∀ type, (registry.run calls).1.lookup? type = none) ∧
    (∀ others, others.Perm (registry.accepted calls) →
      (∀ refusal ∈ (registry.run others).2, refusal = none) ∧ registry.accepted others = others) ∧
    ∀ others, (registry.accepted others).Perm (registry.accepted calls) →
      SameLookups (registry.run others).1 (registry.run calls).1 ∧
        (∀ data, ExtensionList.decode (registry.run others).1 data =
          ExtensionList.decode (registry.run calls).1 data) ∧
        ∀ list, ExtensionList.textWith (registry.run others).1 list =
          ExtensionList.textWith (registry.run calls).1 list := by
  refine ⟨?_, fun type => ⟨lookup?_run registry calls type, ?_⟩, length_eq_ncard _, isEmpty_iff _,
    ?_, ?_⟩
  · rintro before call after rfl
    refine ⟨_, getElem?_refusals registry before call after, ?_⟩
    rw [run_append, run_cons]
    exact judged_step _ call
  · rw [name?, name?, lookup?_run, Option.map_or]
  · intro others hperm
    obtain ⟨hdistinct, hnew⟩ := registry.accepted_distinct calls
    have hrefusals := refusals_of_distinct ((hperm.map _).nodup_iff.2 hdistinct)
      fun call hmem => hnew call (hperm.mem_iff.1 hmem)
    exact ⟨hrefusals, accepted_of_refusals hrefusals⟩
  · intro others hperm
    have hsame := lookup?_run_of_perm hperm
    exact ⟨hsame, hsame.decode_eq, hsame.textWith_eq⟩

/-- Four calls. The standard registry knows the type of the first one, and the third one is for the
type of the second. -/
def lateCalls : List Call :=
  [(AddressSet.type, .of Note "other"), (Marker.type, .of Marker "marker"),
    (Marker.type, .of Raw "late"), (Note.type, .of Note "note")]

/-- The first and the third call are refused, and the other two may be made in either order. -/
theorem first_registration_wins_late :
    (∃ refusal, (standard.run lateCalls).2[2]? = some refusal ∧
      (standard.run (lateCalls.take 2)).1.Judged (Marker.type, .of Raw "late")
        (standard.run (lateCalls.take 3)).1 refusal) ∧
    (standard.run lateCalls).1.name? AddressSet.type = some "address_set" ∧
    (standard.run lateCalls).1.name? Marker.type = some "marker" ∧
    [(Note.type, .of Note "note"), (Marker.type, .of Marker "marker")].Perm
      (standard.accepted lateCalls) ∧
    SameLookups
      (standard.run [(Note.type, .of Note "note"), (Marker.type, .of Marker "marker")]).1
      (standard.run lateCalls).1 := by
  obtain ⟨hjudged, hlookups, _, _, haccepted, hsame⟩ :=
    first_registration_wins .standard lateCalls
  have hperm : [(Note.type, .of Note "note"), (Marker.type, .of Marker "marker")].Perm
      (standard.accepted lateCalls) := List.Perm.swap _ _ []
  refine ⟨hjudged (lateCalls.take 2) _ (lateCalls.drop 3) rfl, (hlookups _).2, (hlookups _).2,
    hperm, (hsame _ ?_).1⟩
  rw [(haccepted _ hperm).2]
  exact hperm

end Registry

end Esni
