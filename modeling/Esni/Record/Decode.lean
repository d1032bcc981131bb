import Esni.Record.Encode

/-!
# Reading records

The checksum comes before everything else: only data with the right one is looked into. The
sections are then read in order, each from the front of what the sections before it left, and the
first fault is reported. Data behind the extensions is a fault too.

## Main definitions

- `DecodeError` — the faults, and `DecodeError.chain` for what lies behind them
- `Record.decodeSections` — the checksum and all sections before the extensions
- `Record.decode` — the whole record
-/

namespace Esni

/-- The parts of a record that can be cut short. -/
inductive RecordSection where
  | header
  | publicName
  | keyShareList
  | paddedLength
  | notBefore
  | notAfter
  deriving DecidableEq

def RecordSection.name : RecordSection → String
  | header => "header"
  | publicName => "public name"
  | keyShareList => "key share list"
  | paddedLength => "padded length"
  | notBefore => "not before"
  | notAfter => "not after"

inductive DecodeError where
  | unexpectedEnd (part : RecordSection)
  | checksumMismatch (received calculated : Checksum)
  | emptyPublicName
  | invalidPublicName
  | emptyKeyShareList
  | keyShares (error : KeyShareError)
  | cipherSuites (error : CipherSuitesError)
  | extensions (error : ExtensionDecodeError)
  | invalidTimestamp (part : RecordSection) (value : Nat)
  | trailingData (length : Nat)
  deriving DecidableEq

namespace DecodeError

def message : DecodeError → String
  | unexpectedEnd part => "unexpected end of data in " ++ part.name
  | checksumMismatch received calculated =>
    "checksum mismatch: received " ++ Hex.text received.val ++
      ", calculated " ++ Hex.text calculated.val
  | emptyPublicName => "empty public name"
  | invalidPublicName => "public name is not valid utf-8"
  | emptyKeyShareList => "empty key share list"
  | keyShares error => "invalid key share list: " ++ error.message
  | cipherSuites error => "invalid cipher suites: " ++ error.message
  | extensions error => "invalid extensions: " ++ error.message
  | invalidTimestamp part value => s!"invalid {part.name} timestamp {value}"
  | trailingData length => s!"{length} bytes trailing data"

/-- The texts of an error and of what lies behind it, outermost first. -/
def chain (error : DecodeError) : List String :=
  error.message ::
    match error with
    | keyShares inner => [inner.message]
    | cipherSuites inner => [inner.message]
    | extensions inner => inner.chain
    | _ => []

end DecodeError

namespace Record

/-- The public name at the front of the data, where the version has one. -/
def decodeName (version : Version) (data : Bytes) :
    Except DecodeError (Option String × Bytes) :=
  if version.hasPublicName then do
    let (length, data) ← orFault (.unexpectedEnd .publicName) (Bytes.cutNat? 1 data)
    if length = 0 then .error .emptyPublicName else
      let (name, data) ← orFault (.unexpectedEnd .publicName) (Bytes.cut? length data)
      let name ← orFault .invalidPublicName (String.fromUTF8? name.val.toByteArray)
      return (some name, data)
  else return (none, data)

def decodeKeys (data : Bytes) : Except DecodeError (KeyShareList × Bytes) := do
  let (length, data) ← orFault (.unexpectedEnd .keyShareList) (Bytes.cutNat? 2 data)
  if length = 0 then .error .emptyKeyShareList else
    let (entries, data) ← orFault (.unexpectedEnd .keyShareList) (Bytes.cut? length data)
    let keys ← (KeyShareList.decode entries.val).mapError .keyShares
    return (keys, data)

def decodeTime (part : RecordSection) (data : Bytes) :
    Except DecodeError (Timestamp × Bytes) := do
  let (value, data) ← orFault (.unexpectedEnd part) (Bytes.cutNat? 8 data)
  let moment ← orFault (.invalidTimestamp part value) (Timestamp.ofWire? value)
  return (moment, data)

/-- The sections between the checksum and the extensions, as a record without extensions, and what
follows them. -/
def decodeBody (version : Version) (data : Bytes) : Except DecodeError (Record × Bytes) := do
  let (publicName, data) ← decodeName version data
  let (keys, data) ← decodeKeys data
  let (cipherSuites, data) ← (CipherSuites.decode data).mapError .cipherSuites
  let (paddedLength, data) ← orFault (.unexpectedEnd .paddedLength) (Bytes.cutUInt16? data)
  let (notBefore, data) ← decodeTime .notBefore data
  let (notAfter, data) ← decodeTime .notAfter data
  return (⟨version, publicName, keys, cipherSuites, paddedLength, notBefore, notAfter, []⟩, data)

/-- Checks the checksum and reads the sections before the extensions. -/
def decodeSections (data : Bytes) : Except DecodeError (Record × Bytes) := do
  let (version, data) ← orFault (.unexpectedEnd .header) (Bytes.cutUInt16? data)
  let (received, body) ← orFault (.unexpectedEnd .header) (Bytes.cut? 4 data)
  let calculated := Checksum.of version body
  if received = calculated then decodeBody ⟨version⟩ body
  else .error (.checksumMismatch received calculated)

/-- The record that the whole data is. -/
def decode (registry : Registry) (data : Bytes) : Except DecodeError Record := do
  let (record, data) ← decodeSections data
  let (extensions, data) ← (ExtensionList.decode registry data).mapError .extensions
  if data = [] then return { record with extensions }
  else .error (.trailingData data.length)

end Record

end Esni
