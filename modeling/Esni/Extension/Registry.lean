import Esni.Extension.AddressSet

/-!
# Extension registries

Payloads have no length on the wire, so an extension can be read only by a decoder that knows it.
A registry says which identifiers can be read, under which name and by which decoder. An
identifier is registered once: a second registration is refused and changes nothing.

## Main definitions

- `Registration` — a name, a fresh extension and a decoder
- `Registry` — registrations under distinct identifiers
- `Registry.add`, `Registry.register` and `Registry.lookup?` — adding and finding one
- `Registry.standard` — the registry that knows address sets
-/

namespace Esni

/-- How the extensions under one identifier are named and read. -/
structure Registration where
  name : String
  /-- The extension before its payload is decoded. -/
  fresh : Extension
  /-- The extension that a payload at the front of the data holds. -/
  decode : Bytes → Except PayloadError Extension

/-- The registration of a kind of extensions. -/
def Registration.of (α : Type) [ExtensionKind α] (name : String) : Registration where
  name := name
  fresh := Extension.of (ExtensionKind.fresh : α)
  decode data := (ExtensionKind.decode data : Except PayloadError α).map Extension.of

/-- The refusal of a second registration under one identifier. -/
structure RegistryConflict where
  type : ExtensionType
  deriving DecidableEq

def RegistryConflict.message (conflict : RegistryConflict) : String :=
  conflict.type.text ++ " has already been registered"

/-- The extensions that can be read, by their identifiers. -/
structure Registry where
  entries : List (ExtensionType × Registration)
  /-- No identifier is registered twice. -/
  distinct : (entries.map (·.1)).Nodup := by simp

namespace Registry

/-- The registry that knows no extension. -/
def empty : Registry := ⟨[], by simp⟩

def lookup? (registry : Registry) (type : ExtensionType) : Option Registration :=
  (registry.entries.find? (·.1 = type)).map (·.2)

def name? (registry : Registry) (type : ExtensionType) : Option String :=
  (registry.lookup? type).map (·.name)

def length (registry : Registry) : Nat := registry.entries.length

def isEmpty (registry : Registry) : Bool := registry.entries.isEmpty

/-- The registry with a registration under a new identifier. -/
def insert (registry : Registry) (type : ExtensionType) (registration : Registration)
    (h : type ∉ registry.entries.map (·.1)) : Registry :=
  ⟨(type, registration) :: registry.entries, by simp [registry.distinct, List.nodup_cons, h]⟩

/-- Adds a registration. An identifier that is registered already is refused. -/
def add (type : ExtensionType) (registration : Registration) :
    Update Registry RegistryConflict Unit := do
  let registry ← get
  if h : type ∈ registry.entries.map (·.1) then throw ⟨type⟩
  else set (registry.insert type registration h)

/-- The registry with the registration added to it. -/
def register (registry : Registry) (type : ExtensionType) (registration : Registration) :
    Except RegistryConflict Registry :=
  Update.result (add type registration) registry

theorem outcome_add_of_mem {registry : Registry} {type : ExtensionType}
    (h : type ∈ registry.entries.map (·.1)) (registration : Registration) :
    Update.outcome (add type registration) registry = (registry, some ⟨type⟩) := by
  rw [add, Update.outcome_get_bind, dif_pos h, Update.outcome_throw]

theorem outcome_add_of_not_mem {registry : Registry} {type : ExtensionType}
    (h : type ∉ registry.entries.map (·.1)) (registration : Registration) :
    Update.outcome (add type registration) registry =
      (registry.insert type registration h, none) := by
  rw [add, Update.outcome_get_bind, dif_neg h, Update.outcome_set]

theorem register_of_mem {registry : Registry} {type : ExtensionType}
    (h : type ∈ registry.entries.map (·.1)) (registration : Registration) :
    registry.register type registration = .error ⟨type⟩ :=
  Update.result_of_some (outcome_add_of_mem h registration)

theorem register_of_not_mem {registry : Registry} {type : ExtensionType}
    (h : type ∉ registry.entries.map (·.1)) (registration : Registration) :
    registry.register type registration = .ok (registry.insert type registration h) :=
  Update.result_of_none (outcome_add_of_not_mem h registration)

/-- The registry that knows address sets. -/
def standard : Registry := ⟨[(AddressSet.type, .of AddressSet AddressSet.name)], by simp⟩

end Registry

end Esni
