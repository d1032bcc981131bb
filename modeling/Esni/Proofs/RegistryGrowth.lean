import Esni.Proofs.RoundTrip

/-!
# Registries that know more

A program may register more types before it reads data. That never changes what becomes of data that
could be read without them, and neither does it change the fault of data that is faulty for another
reason: reading goes through the same steps up to the first identifier that one registry knows and
the other does not, and there the smaller registry has stopped with just this identifier.

## Main definitions

- `Registry.Extends` — a registry that knows all that another one does
- `Registry.registerAll` — a run of registrations, none of which is refused
- `SameUnless` — two outcomes that agree unless the first is a fault of some kind

## Main statements

- `Registry.extends_registerAll` — registering more types extends a registry
- `Record.decode_of_extends` — the data that a larger registry reads as a smaller one does
-/

namespace Esni

/-- The second outcome is the first one, unless the first one is an excused fault. -/
def SameUnless {ε α : Type} (Excused : ε → Prop) (first second : Except ε α) : Prop :=
  second = first ∨ ∃ fault, Excused fault ∧ first = .error fault

namespace SameUnless

variable {ε ε' α β : Type} {Excused : ε → Prop} {first second : Except ε α}

protected theorem refl (outcome : Except ε α) : SameUnless Excused outcome outcome := .inl rfl

/-- Two runs that agree up to a step agree behind it, if they do so for every result of the step. -/
protected theorem bind {next next' : α → Except ε β} (h : SameUnless Excused first second)
    (hnext : ∀ value, SameUnless Excused (next value) (next' value)) :
    SameUnless Excused (first >>= next) (second >>= next') := by
  rcases h with rfl | ⟨fault, hexcused, rfl⟩
  · cases second with
    | ok value => exact hnext value
    | error fault => exact .refl _
  · exact .inr ⟨fault, hexcused, rfl⟩

theorem mapError {Excused' : ε' → Prop} {rename : ε → ε'} (h : SameUnless Excused first second)
    (hrename : ∀ fault, Excused fault → Excused' (rename fault)) :
    SameUnless Excused' (first.mapError rename) (second.mapError rename) := by
  rcases h with rfl | ⟨fault, hexcused, rfl⟩
  · exact .refl _
  · exact .inr ⟨rename fault, hrename fault hexcused, rfl⟩

theorem eq_of_not_excused (h : SameUnless Excused first second)
    (hfirst : ∀ fault, first = .error fault → ¬Excused fault) : second = first := by
  rcases h with hsame | ⟨fault, hexcused, hfault⟩
  · exact hsame
  · exact absurd hexcused (hfirst fault hfault)

end SameUnless

namespace ItemReader

variable {ε α : Type} {Excused : ε → Prop} {reader other : ItemReader ε α}

theorem toExcept_readAll_of_ok {data rest : Bytes} {item : α}
    (h : reader.read data = .ok (item, rest)) :
    (reader.readAll data).toExcept = do
      let items ← (reader.readAll rest).toExcept
      return item :: items := by
  rw [readAll_of_ok reader h, Reading.toExcept, Reading.toExcept]
  cases (reader.readAll rest).fault with
  | none => rfl
  | some fault => rfl

/-- Readers that agree on every item agree on every sequence of items. -/
theorem sameUnless_readAll
    (h : ∀ data, SameUnless Excused (reader.read data) (other.read data)) (data : Bytes) :
    SameUnless Excused (reader.readAll data).toExcept (other.readAll data).toExcept := by
  induction data using reader.data_induction with
  | nil =>
    rw [readAll_nil, readAll_nil]
    exact .refl _
  | fault data fault hdata hread =>
    rw [readAll_of_error reader hdata hread]
    rcases h data with hsame | ⟨excused, hexcused, hfault⟩
    · rw [readAll_of_error other hdata (hsame.trans hread)]
      exact .refl _
    · rw [hread] at hfault
      cases hfault
      exact .inr ⟨fault, hexcused, rfl⟩
  | item data item rest hread ih =>
    have hother : other.read data = .ok (item, rest) := by
      rw [← hread]
      exact (h data).eq_of_not_excused fun fault hfault => by
        rw [hread] at hfault
        cases hfault
    rw [toExcept_readAll_of_ok hread, toExcept_readAll_of_ok hother]
    exact .bind ih fun items => .refl _

end ItemReader

namespace Registry

variable {registry larger : Registry} {type : ExtensionType} {registration : Registration}

/-- All types that `registry` knows are known to `larger` under the same name and with the same
decoder. -/
def Extends (larger registry : Registry) : Prop :=
  ∀ type registration, registry.lookup? type = some registration →
    larger.lookup? type = some registration

/-- Registers one type after the other, if none of them is refused. -/
def registerAll (registry : Registry) (run : List (ExtensionType × Registration)) :
    Except RegistryConflict Registry :=
  run.foldlM (fun registry entry => registry.register entry.1 entry.2) registry

protected theorem Extends.refl (registry : Registry) : registry.Extends registry :=
  fun _ _ h => h

theorem Extends.trans {largest : Registry} (h : largest.Extends larger)
    (h' : larger.Extends registry) : largest.Extends registry :=
  fun type registration hlookup => h type registration (h' type registration hlookup)

theorem lookup?_eq_none_iff : registry.lookup? type = none ↔ type ∉ registry.entries.map (·.1) := by
  rw [lookup?, Option.map_eq_none_iff, List.find?_eq_none, List.mem_map]
  constructor
  · rintro hnone ⟨entry, hmem, rfl⟩
    exact hnone entry hmem (by simp)
  · intro habsent entry hmem htype
    exact habsent ⟨entry, hmem, by simpa using htype⟩

/-- A type is registered if it is not known yet, and then only what is known of it changes. -/
theorem register_eq_ok_iff :
    registry.register type registration = .ok larger ↔
      registry.lookup? type = none ∧ larger.entries = (type, registration) :: registry.entries := by
  rw [lookup?_eq_none_iff]
  by_cases hknown : type ∈ registry.entries.map (·.1)
  · simp [register_of_mem hknown, hknown]
  · obtain ⟨entries, distinct⟩ := larger
    rw [register_of_not_mem hknown, insert]
    simp [hknown, eq_comm]

theorem lookup?_of_register (h : registry.register type registration = .ok larger)
    (other : ExtensionType) :
    larger.lookup? other = if type = other then some registration else registry.lookup? other := by
  obtain ⟨_, hentries⟩ := register_eq_ok_iff.1 h
  rw [lookup?, lookup?, hentries, List.find?_cons]
  by_cases htype : type = other
  · simp [htype]
  · simp [htype]

theorem extends_register (h : registry.register type registration = .ok larger) :
    larger.Extends registry := by
  intro other found hfound
  rw [lookup?_of_register h]
  have hnew := (register_eq_ok_iff.1 h).1
  by_cases htype : type = other
  · rw [← htype, hnew] at hfound
    cases hfound
  · rw [if_neg htype, hfound]

theorem extends_registerAll {run : List (ExtensionType × Registration)}
    (h : registry.registerAll run = .ok larger) : larger.Extends registry := by
  induction run generalizing registry with
  | nil =>
    cases h
    exact .refl _
  | cons entry run ih =>
    rw [registerAll, List.foldlM_cons, bind_eq_ok_iff] at h
    obtain ⟨next, hentry, hrun⟩ := h
    exact (ih hrun).trans (extends_register hentry)

/-- The fault is that a type is not supported, and the registry supports it. -/
inductive Supplies (registry : Registry) : ExtensionDecodeError → Prop where
  | unsupportedType {type : ExtensionType} (known : registry.lookup? type ≠ none) :
    Supplies registry (.unsupportedType type)

/-- The two registries agree on a type unless only the larger one knows it. -/
theorem Extends.sameUnless_lookup? (h : larger.Extends registry) (type : ExtensionType) :
    SameUnless larger.Supplies (orFault (.unsupportedType type) (registry.lookup? type))
      (orFault (.unsupportedType type) (larger.lookup? type)) := by
  cases hfound : registry.lookup? type with
  | some registration =>
    rw [h type registration hfound]
    exact .refl _
  | none =>
    by_cases hknown : larger.lookup? type = none
    · rw [hknown]
      exact .refl _
    · exact .inr ⟨_, .unsupportedType hknown, rfl⟩

/-- One extension is read in the same way: the decoder that is found is the same. -/
theorem Extends.sameUnless_read (h : larger.Extends registry) (data : Bytes) :
    SameUnless larger.Supplies (DecodedExtension.read registry data)
      (DecodedExtension.read larger data) := by
  unfold DecodedExtension.read
  refine .bind (.refl _) fun found => ?_
  exact .bind (h.sameUnless_lookup? ⟨found.1⟩) fun registration => .refl _

theorem Extends.sameUnless_decode (h : larger.Extends registry) (data : Bytes) :
    SameUnless larger.Supplies (ExtensionList.decode registry data)
      (ExtensionList.decode larger data) := by
  unfold ExtensionList.decode
  refine .bind (.refl _) fun found => ?_
  exact .bind (ItemReader.sameUnless_readAll h.sameUnless_read found.1) fun decoded => .refl _

end Registry

namespace Record

variable {registry larger : Registry}

theorem sameUnless_decode (h : larger.Extends registry) (data : Bytes) :
    SameUnless (fun fault => ∃ inner, larger.Supplies inner ∧ fault = .extensions inner)
      (decode registry data) (decode larger data) := by
  unfold decode
  refine .bind (.refl _) fun found => ?_
  refine .bind ?_ fun extensions => .refl _
  exact (h.sameUnless_decode found.2).mapError fun inner hinner => ⟨inner, hinner, rfl⟩

/-- A registry extends another one if it is made from it by registering more types. Data is then
read with the larger registry as with the smaller one, records and faults alike, unless the smaller
one stops at a type that only the larger one knows. In particular a type that neither of them knows
is reported in the same way. -/
theorem decode_of_extends (registry larger : Registry) :
    (∀ run, registry.registerAll run = .ok larger → larger.Extends registry) ∧
    (larger.Extends registry →
      (∀ data, (∀ type, ExtensionList.decode registry data = .error (.unsupportedType type) →
          larger.lookup? type = none) →
        ExtensionList.decode larger data = ExtensionList.decode registry data) ∧
      (∀ data, (∀ type, decode registry data = .error (.extensions (.unsupportedType type)) →
          larger.lookup? type = none) →
        decode larger data = decode registry data) ∧
      (∀ data type, decode registry data = .error (.extensions (.unsupportedType type)) →
        larger.lookup? type = none →
        decode larger data = .error (.extensions (.unsupportedType type)))) := by
  refine ⟨fun run hrun => Registry.extends_registerAll hrun, fun h => ?_⟩
  have hrecord (data : Bytes)
      (hunknown : ∀ type, decode registry data = .error (.extensions (.unsupportedType type)) →
        larger.lookup? type = none) : decode larger data = decode registry data := by
    apply (sameUnless_decode h data).eq_of_not_excused
    rintro _ hfault ⟨_, ⟨hknown⟩, rfl⟩
    exact hknown (hunknown _ hfault)
  refine ⟨fun data hunknown => ?_, hrecord, fun data type hfault hunknown => ?_⟩
  · apply (h.sameUnless_decode data).eq_of_not_excused
    rintro _ hfault ⟨hknown⟩
    exact hknown (hunknown _ hfault)
  · rw [hrecord data, hfault]
    intro other hother
    rw [hfault] at hother
    cases hother
    exact hunknown

/-- The encoding of the sample behind its checksum, but with a size claim as its only extension. -/
def claimingBody : Bytes := sampleBody.take 31 ++ [0, 3, 0x10, 0x42, 1]

theorem decode_claimingBody :
    decode .standard (sealed 0xff01 claimingBody) =
      .error (.extensions (.unsupportedType SizeClaim.type)) := by
  have hread : (DecodedExtension.reader .standard).read [0x10, 0x42, 1] =
      .error (.unsupportedType SizeClaim.type) := rfl
  have hbody : ExtensionList.readBody .standard [0x10, 0x42, 1] =
      ⟨[], some (.unsupportedType SizeClaim.type)⟩ :=
    ItemReader.readAll_of_error _ (by simp) hread
  have hlist : ExtensionList.decode .standard (Bytes.framed 2 [0x10, 0x42, 1] ++ []) = _ :=
    ExtensionList.decode_framed (by decide) []
  rw [hbody] at hlist
  have hdecode := decode_sampleFront .standard (Bytes.framed 2 [0x10, 0x42, 1] ++ [])
  rw [hlist] at hdecode
  exact hdecode

/-- Three types with exact decoders. -/
def exactKinds : List (ExtensionType × Registration) :=
  [(Marker.type, .of Marker (ExtensionKind.kind Marker)),
    (Note.type, .of Note (ExtensionKind.kind Note)),
    (Raw.defaultType, .of Raw (ExtensionKind.kind Raw))]

/-- Three more types do not help with a fourth one. -/
theorem decode_of_extends_standard :
    Registry.standard.registerAll exactKinds = .ok .extendedExact ∧
      Registry.extendedExact.lookup? SizeClaim.type = none ∧
      decode .extendedExact (sealed 0xff01 claimingBody) =
        .error (.extensions (.unsupportedType SizeClaim.type)) := by
  have hrun : Registry.standard.registerAll exactKinds = .ok .extendedExact :=
    Registry.register_eq_extendedExact
  have hunknown : Registry.extendedExact.lookup? SizeClaim.type = none := rfl
  obtain ⟨hextends, hagree⟩ := decode_of_extends .standard .extendedExact
  obtain ⟨_, _, hfails⟩ := hagree (hextends exactKinds hrun)
  exact ⟨hrun, hunknown, hfails _ _ decode_claimingBody hunknown⟩

end Record

end Esni
