import Esni.Extension.Registry
import Esni.Hex

/-!
# Further kinds of extensions

Four small kinds besides address sets, for programs that extend the format. They cover the ways in
which a payload can end: after a fixed number of bytes, after a length of its own, after as many
bytes as its value says without a look at the data, and at the end of the list.

## Main definitions

- `Marker` — a number in two bytes
- `Note` — bytes behind their own length
- `SizeClaim` — a value that is also the length that it reports
- `Raw` — all the data left, under an identifier of choice
- `Registry.extended` — the registry that knows them all
-/

namespace Esni

/-- A number in two bytes. -/
structure Marker where
  value : UInt16
  deriving DecidableEq

namespace Marker

def type : ExtensionType := ⟨0x0042⟩

def decode (data : Bytes) : Except PayloadError Marker := do
  let (value, _) ← orFault (.other "marker too short") (Bytes.cutUInt16? data)
  return ⟨value⟩

instance : ExtensionKind Marker where
  kind := "marker"
  fresh := ⟨0⟩
  type _ := type
  payloadLength _ := 2
  payload marker := Bytes.ofUInt16 marker.value
  decode := decode
  consumesRest _ := false
  text marker := toString marker.value.toNat

end Marker

/-- Bytes behind their own length, which is one byte. -/
structure Note where
  bytes : Bytes
  deriving DecidableEq

namespace Note

def type : ExtensionType := ⟨0x0101⟩

/-- The length and the bytes. The length of a note of more than 255 bytes loses its high part. -/
def payload (note : Note) : Bytes := UInt8.ofNat note.bytes.length :: note.bytes

def decode : Bytes → Except PayloadError Note
  | [] => .error (.other "no note length")
  | length :: data => do
    let (bytes, _) ← orFault (.other "truncated note") (Bytes.cut? length.toNat data)
    return ⟨bytes.val⟩

instance : ExtensionKind Note where
  kind := "note"
  fresh := ⟨[]⟩
  type _ := type
  payloadLength note := UInt64.ofNat (1 + note.bytes.length)
  payload := payload
  decode := decode
  consumesRest _ := false
  text note := Hex.text note.bytes

end Note

/-- A value that is also the length that it reports, whether the data has as many bytes or not. -/
structure SizeClaim where
  value : UInt8
  deriving DecidableEq

namespace SizeClaim

def type : ExtensionType := ⟨0x1042⟩

/-- The value and zeros up to the length; nothing at all for the value zero. -/
def payload (claimed : SizeClaim) : Bytes :=
  (claimed.value :: List.replicate 254 0).take claimed.value.toNat

/-- The value at the front of the data. The bytes behind it are not looked at. -/
def decode : Bytes → Except PayloadError SizeClaim
  | [] => .error (.other "no claim")
  | value :: _ => .ok ⟨value⟩

instance : ExtensionKind SizeClaim where
  kind := "claim"
  fresh := ⟨0⟩
  type _ := type
  payloadLength claimed := claimed.value.toUInt64
  payload := payload
  decode := decode
  consumesRest _ := false
  text claimed := s!"claim {claimed.value.toNat}"

end SizeClaim

/-- All the data left, under an identifier of choice. -/
structure Raw where
  type : ExtensionType
  /-- Whether the value says that it takes all the data left in the list. -/
  consumesRest : Bool
  bytes : Bytes
  deriving DecidableEq

namespace Raw

def defaultType : ExtensionType := ⟨0x0999⟩

/-- The value before its payload is decoded. -/
def fresh : Raw := ⟨defaultType, true, []⟩

instance : ExtensionKind Raw where
  kind := "opaque"
  fresh := fresh
  type raw := raw.type
  payloadLength raw := UInt64.ofNat raw.bytes.length
  payload raw := raw.bytes
  decode data := .ok { fresh with bytes := data }
  consumesRest raw := raw.consumesRest
  text raw := Hex.text raw.bytes

end Raw

/-- The registry that knows all five kinds, each under its own identifier and named as its
kind. -/
def Registry.extended : Registry where
  entries :=
    [(AddressSet.type, .of AddressSet AddressSet.name),
      (Marker.type, .of Marker (ExtensionKind.kind Marker)),
      (Note.type, .of Note (ExtensionKind.kind Note)),
      (SizeClaim.type, .of SizeClaim (ExtensionKind.kind SizeClaim)),
      (Raw.defaultType, .of Raw (ExtensionKind.kind Raw))]
  distinct := by simp [AddressSet.type, Marker.type, Note.type, SizeClaim.type, Raw.defaultType]

end Esni
