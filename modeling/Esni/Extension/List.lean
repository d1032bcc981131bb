import Esni.Extension.Registry

/-!
# Extension lists

On the wire an extension list is the length of its extensions in two bytes and the extensions,
each an identifier and a payload without a length. A decoder is handed all the data left in the
list and the extension that it gives tells how much of it was the payload. So an extension that
takes the rest can only be the last one, and a list with such an extension in another place is not
written. A list is written whole or not at all.

How long a list is depends on what its extensions report, and their sum may not fit into a word. A
buffer that is to take the list makes room for the sum first, and then for what the extensions
really write.

## Main definitions

- `ExtensionList.encodedLength` — the length that the extensions report together
- `ExtensionList.compare` — whether two lists are equal
- `ExtensionList.encode` and `ExtensionList.decode` — the wire form
- `ExtensionList.find?` — the first extension of a kind
- `ExtensionList.textWith` — the list as shown to a reader
-/

namespace Esni

abbrev ExtensionList := List Extension

inductive ExtensionDecodeError where
  /-- The data ends before the list does, or inside an identifier. -/
  | unexpectedEnd
  | unsupportedType (type : ExtensionType)
  | faultyPayload (type : ExtensionType) (error : PayloadError)
  /-- The extension reports a longer payload than there is data. -/
  | overlongPayload (type : ExtensionType)
  deriving DecidableEq

namespace ExtensionDecodeError

def message : ExtensionDecodeError → String
  | unexpectedEnd => "unexpected end of data"
  | unsupportedType type => "unsupported " ++ type.text
  | faultyPayload type error => "failed to decode " ++ type.text ++ ": " ++ error.message
  | overlongPayload type => type.text ++ " claims more data than available"

/-- The texts of an error and of what lies behind it, outermost first. -/
def chain (error : ExtensionDecodeError) : List String :=
  match error with
  | faultyPayload _ inner => [error.message, inner.message]
  | _ => [error.message]

end ExtensionDecodeError

inductive ExtensionEncodeError where
  | listTooLong (length : Nat)
  /-- An extension that takes the rest is not the last one. -/
  | unboundedNotLast (type : ExtensionType)
  deriving DecidableEq

def ExtensionEncodeError.message : ExtensionEncodeError → String
  | listTooLong length => s!"extensions list too long: {length} bytes"
  | unboundedNotLast type => type.text ++ " takes the rest of the list but is not the last one"

/-- An extension that was read, with the name that it is registered under. -/
structure DecodedExtension where
  /-- The name of the registration that read the extension. -/
  name : String
  extension : Extension

namespace DecodedExtension

/-- The extension at the front of the data and what follows the payload that it reports. -/
def read (registry : Registry) (data : Bytes) :
    Except ExtensionDecodeError (DecodedExtension × Bytes) := do
  let (code, data) ← orFault .unexpectedEnd (Bytes.cutUInt16? data)
  let type : ExtensionType := ⟨code⟩
  let registration ← orFault (.unsupportedType type) (registry.lookup? type)
  let extension ← (registration.decode data).mapError (.faultyPayload type)
  let (_, data) ← orFault (.overlongPayload type) (Bytes.cut? extension.payloadLength.toNat data)
  return (⟨registration.name, extension⟩, data)

/-- Reads extensions one after the other. Each takes the two bytes of its identifier at least. -/
def reader (registry : Registry) : ItemReader ExtensionDecodeError DecodedExtension where
  read := read registry
  shrinks {data item rest} h := by
    simp only [read, bind, Except.bind] at h
    split at h <;> try contradiction
    rename_i found hcode
    split at h <;> try contradiction
    split at h <;> try contradiction
    split at h <;> try contradiction
    rename_i cut hcut
    cases h
    have := Bytes.length_of_cutUInt16? (orFault_eq_ok_iff.1 hcode)
    have := Bytes.length_of_cut? (orFault_eq_ok_iff.1 hcut)
    omega

end DecodedExtension

namespace ExtensionList

def maxLength : Nat := 65535

/-- Whether two lists have the same length and equal extensions in the same places. The comparison
stops at the first two that differ. -/
def compare (a b : ExtensionList) : Except Panic Bool :=
  if a.length = b.length then (a.zip b).allM fun (first, second) => first.compare second
  else .ok false

/-- The number of bytes that the extensions take on the wire by their own report. -/
def reportedLength (list : ExtensionList) : Nat :=
  totalLength Extension.encodedLength list

/-- The reported length as a word. -/
def encodedLength [Build] (list : ExtensionList) : Except Panic Nat :=
  Size.total Extension.encodedLength list

/-- The first extension of a kind. -/
def find? (list : ExtensionList) (kind : String) : Option Extension :=
  List.find? (·.kind = kind) list

/-- The list on the wire, with its reported length in front, for a buffer that holds `offset` bytes
already. A list that is too long is reported before an extension in a wrong place. -/
def encode [Build] (offset : Nat) (list : ExtensionList) :
    Except (Failure ExtensionEncodeError) Bytes := do
  let length ← (encodedLength list).mapError .panic
  if maxLength < length then .error (.fault (.listTooLong length))
  else
    match list.dropLast.find? (·.consumesRest) with
    | some extension => .error (.fault (.unboundedNotLast extension.type))
    | none =>
      let bytes := Bytes.ofNat 2 length ++ list.flatMap Extension.wire
      (Size.allocate (offset + (2 + length))).mapError .panic
      (Size.allocate (offset + bytes.length)).mapError .panic
      return bytes

/-- Appends the list to `buffer`, which stays as it is if the list cannot be written. -/
def encodeTo [Build] (list : ExtensionList) (buffer : Bytes) :
    Except Panic (Bytes × Option ExtensionEncodeError) :=
  match encode buffer.length list with
  | .ok bytes => .ok (buffer ++ bytes, none)
  | .error (.fault fault) => .ok (buffer, some fault)
  | .error (.panic cause) => .error cause

/-- The extensions of a list, without the length in front, up to the first fault. -/
def readBody (registry : Registry) (body : Bytes) :
    Reading ExtensionDecodeError DecodedExtension :=
  (DecodedExtension.reader registry).readAll body

/-- The part of the data that the length in front covers, and what follows it. -/
def cutBody (data : Bytes) : Except ExtensionDecodeError (Bytes × Bytes) := do
  let (length, data) ← orFault .unexpectedEnd (Bytes.cutNat? 2 data)
  let (body, data) ← orFault .unexpectedEnd (Bytes.cut? length data)
  return (body.val, data)

/-- The list at the front of the data and what follows it. If one extension cannot be read there
is no list. -/
def decode (registry : Registry) (data : Bytes) :
    Except ExtensionDecodeError (ExtensionList × Bytes) := do
  let (body, data) ← cutBody data
  let decoded ← (readBody registry body).toExcept
  return (decoded.map (·.extension), data)

/-- The text of an extension, with the name that the registry has for its identifier. -/
def itemText (registry : Registry) (extension : Extension) : String :=
  "\x7bType:" ++ (registry.name? extension.type).getD "UNKNOWN" ++
    ", Mandatory:" ++ toString extension.type.isMandatory ++
    ", Value:" ++ extension.text ++ "\x7d"

/-- The text of the list, with the names of the registry. -/
def textWith (registry : Registry) (list : ExtensionList) : String :=
  listing (list.map (itemText registry))

/-- The text of the list, with the names of the standard registry. -/
def text (list : ExtensionList) : String := textWith .standard list

end ExtensionList

end Esni
