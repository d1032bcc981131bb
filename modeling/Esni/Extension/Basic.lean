import Esni.Address
import Esni.Sizes

/-!
# Extensions

A record ends with extensions. The library knows a few kinds of them, and a program may add its
own: a kind is a type with an `ExtensionKind` instance. Records hold extensions of any kinds side
by side, so they hold what can be observed of them: the identifier, the length that the extension
reports for its payload, the payload that it writes, whether its decoder takes all the data left
in the list, and its text. Nothing makes the reported length that of the payload; a kind may be
wrong about it, and the list codec has to live with that.

Two extensions count as equal if identifier, reported length and payload agree, whatever kinds
they are of. To find out, both payloads are written to buffers of the reported length, and there may
be no buffers of that length.

## Main definitions

- `ExtensionType` — the identifier on the wire
- `Extension` — an extension of any kind
- `Extension.compare` — whether two extensions are equal
- `ExtensionKind` and `Extension.of` — a kind, and its values as extensions
-/

namespace Esni

structure ExtensionType where
  code : UInt16
  deriving DecidableEq

namespace ExtensionType

/-- The bit of the codes that clients must understand. -/
def mandatoryBit : UInt16 := 0x1000

/-- Whether clients must understand the extension. Unknown identifiers are refused either way. -/
def isMandatory (type : ExtensionType) : Bool := type.code &&& mandatoryBit ≠ 0

def text (type : ExtensionType) : String := s!"extension_type({type.code.toNat})"

end ExtensionType

inductive PayloadError where
  | addresses (error : AddressError)
  /-- The payload of another kind is faulty, in the words of that kind. -/
  | other (message : String)
  deriving DecidableEq

def PayloadError.message : PayloadError → String
  | addresses error => error.message
  | other message => message

/-- What can be observed of an extension. -/
structure Extension where
  kind : String
  type : ExtensionType
  /-- The length that the extension reports for its payload. -/
  payloadLength : UInt64
  /-- The payload that the extension writes. -/
  payload : Bytes
  /-- Whether the decoder takes all the data left in the list. -/
  consumesRest : Bool
  text : String

namespace Extension

/-- Whether two extensions look the same on the wire. The payloads are written and compared only if
identifier and reported length agree. -/
def compare (a b : Extension) : Except Panic Bool :=
  if a.type = b.type ∧ a.payloadLength = b.payloadLength then do
    Size.allocate a.payloadLength.toNat
    return a.payload = b.payload
  else .ok false

/-- Extensions are equal if the comparison finds them equal, which it does not if it ends the
program. -/
instance : BEq Extension where
  beq a b := affirmed (a.compare b)

/-- The number of bytes that the list allows for the extension: the identifier and the reported
length. -/
def encodedLength (extension : Extension) : Nat := 2 + extension.payloadLength.toNat

/-- The bytes that the extension writes: the identifier and the payload. -/
def wire (extension : Extension) : Bytes :=
  Bytes.ofUInt16 extension.type.code ++ extension.payload

end Extension

class ExtensionKind (α : Type) where
  kind : String
  /-- The value before its payload is decoded. -/
  fresh : α
  type : α → ExtensionType
  /-- The length that the value reports for its payload. -/
  payloadLength : α → UInt64
  /-- The payload that the value writes. -/
  payload : α → Bytes
  /-- The value that a payload at the front of the data holds. How much of the data belongs to
  the payload is what the value then reports. -/
  decode : Bytes → Except PayloadError α
  /-- Whether the decoder takes all the data left in the list. -/
  consumesRest : α → Bool
  text : α → String

/-- A value of some kind as an extension. -/
def Extension.of {α : Type} [ExtensionKind α] (value : α) : Extension where
  kind := ExtensionKind.kind α
  type := ExtensionKind.type value
  payloadLength := ExtensionKind.payloadLength value
  payload := ExtensionKind.payload value
  consumesRest := ExtensionKind.consumesRest value
  text := ExtensionKind.text value

end Esni
