import Esni.Record.Basic

/-!
# Writing records

The encoding is the version, the checksum, and the body: the public name behind its length in one
byte where the version has one, the key shares behind their length in two bytes, the cipher
suites, the padded length, the two times, and the extensions. The sections are checked in this
order, and the first fault is reported. Before that a buffer is asked for that is long enough by
what the fields and the extensions say about their lengths.

## Main definitions

- `Record.allocation` — the request for the buffer
- `Record.encodeBody` — everything behind the checksum
- `Record.encode` — the encoding
- `Record.checksum` — the checksum in the encoding
-/

namespace Esni

inductive EncodeError where
  | missingPublicName
  | publicNameTooLong (length : Nat)
  | emptyKeyShareList
  | keyShareListTooLong (length : Nat)
  | keyShares (error : KeyShareError)
  | cipherSuites (error : CipherSuitesError)
  | extensions (error : ExtensionEncodeError)
  deriving DecidableEq

def EncodeError.message : EncodeError → String
  | missingPublicName => "no public name set"
  | publicNameTooLong length => s!"public name too long: {length} bytes"
  | emptyKeyShareList => "empty key share list"
  | keyShareListTooLong length => s!"key share list too long: {length} bytes"
  | keyShares error => "invalid key share list: " ++ error.message
  | cipherSuites error => "invalid cipher suites: " ++ error.message
  | extensions error => "invalid extensions: " ++ error.message

namespace Record

/-- The length of the version and the checksum. -/
def headerLength : Nat := 6

def maxNameLength : Nat := 255

def maxKeysLength : Nat := 65535

/-- The section of the public name. An empty name counts as none, and a version without the name
has an empty section whatever the record says. -/
def encodeName (version : Version) (publicName : Option String) : Except EncodeError Bytes :=
  if version.hasPublicName then
    let name := (publicName.getD "").toUTF8.data.toList
    if name = [] then .error .missingPublicName
    else if maxNameLength < name.length then .error (.publicNameTooLong name.length)
    else .ok (UInt8.ofNat name.length :: name)
  else .ok []

def encodeKeys (keys : KeyShareList) : Except EncodeError Bytes :=
  if keys.isEmpty then .error .emptyKeyShareList
  else if maxKeysLength < keys.encodedLength then .error (.keyShareListTooLong keys.encodedLength)
  else do
    let bytes ← keys.encode.mapError .keyShares
    return Bytes.ofNat 2 keys.encodedLength ++ bytes

/-- Everything between the checksum and the extensions. -/
def encodeFront (record : Record) : Except EncodeError Bytes := do
  let name ← encodeName record.version record.publicName
  let keys ← encodeKeys record.keys
  let suites ← (CipherSuites.encode record.cipherSuites).mapError .cipherSuites
  return name ++ keys ++ suites ++ Bytes.ofUInt16 record.paddedLength ++
    record.notBefore.wire ++ record.notAfter.wire

/-- The number of bytes of the public name. -/
def nameLength (record : Record) : Nat := (record.publicName.getD "").utf8ByteSize

/-- A length that the encoding does not exceed, if the extensions report at least what they write.
The public name is counted whether the version has one or not. -/
def lengthHint [Build] (record : Record) : Except Panic Nat := do
  let extensions ← ExtensionList.encodedLength record.extensions
  -- No part of the sum is negative, so it fits into a word as soon as the last one does.
  Size.ofNat (headerLength + 1 + record.nameLength + 2 + record.keys.encodedLength + 2 +
    2 * record.cipherSuites.length + 2 + 16 + 2 + extensions)

/-- The buffer that the encoding is written to. It is asked for before anything is checked. -/
def allocation [Build] (record : Record) : Except Panic Unit := do
  let hint ← record.lengthHint
  Size.allocate hint

/-- Everything behind the checksum. -/
def encodeBody [Build] (record : Record) : Except (Failure EncodeError) Bytes := do
  record.allocation.mapError .panic
  let front ← record.encodeFront.mapError .fault
  let extensions ← (ExtensionList.encode (headerLength + front.length) record.extensions).mapError
    (.map .extensions)
  return front ++ extensions

/-- The bytes of a version and a body with the checksum that belongs to them. -/
def sealed (version : UInt16) (body : Bytes) : Bytes :=
  Bytes.ofUInt16 version ++ (Checksum.of version body).val ++ body

def encode [Build] (record : Record) : Except (Failure EncodeError) Bytes := do
  let body ← encodeBody record
  return sealed record.version.code body

def checksum [Build] (record : Record) : Except (Failure EncodeError) Checksum := do
  let body ← encodeBody record
  return Checksum.of record.version.code body

end Record

end Esni
