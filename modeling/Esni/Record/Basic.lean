import Esni.CipherSuites
import Esni.Extension.List
import Esni.KeyShare
import Esni.Sha256
import Esni.Timestamp

/-!
# Records

A record tells a client how to encrypt the name of the server that it asks for: public keys of the
server, cipher suites, the length to fill names up to, and a window of validity. From one version
on it also holds the public name, which is sent in the clear.

A record on the wire carries a checksum, which is not a part of the record: it always follows from
the other bytes.

## Main definitions

- `Record` — the record
- `Record.compare` — whether two records are equal
- `Checksum` and `Checksum.of` — the checksum, and the one that belongs to a record's bytes
- `Record.wholeSeconds` and `Record.normal` — what remains of a record on the wire
-/

namespace Esni

/-- The keys that a server offers for encrypting its name. -/
structure Record where
  version : Version
  /-- The name to send in the clear. It is left out of the encoding where the version has none. -/
  publicName : Option String
  keys : KeyShareList
  cipherSuites : List CipherSuite
  paddedLength : UInt16
  notBefore : Timestamp
  notAfter : Timestamp
  extensions : ExtensionList

/-- The four bytes behind the version. -/
abbrev Checksum := Octets 4

/-- The checksum of a record: the first four bytes of the hash of the whole encoding, with zeros
in the place of the checksum. -/
def Checksum.of (version : UInt16) (body : Bytes) : Checksum :=
  ⟨(sha256 (Bytes.ofUInt16 version ++ List.replicate 4 0 ++ body)).val.take 4, by
    simp [(sha256 _).property]⟩

namespace Record

/-- Whether two records have equal fields. The extensions are compared last. -/
def compare (a b : Record) : Except Panic Bool :=
  if a.version = b.version ∧ a.publicName = b.publicName ∧ a.keys = b.keys ∧
      a.cipherSuites = b.cipherSuites ∧ a.paddedLength = b.paddedLength ∧
      a.notBefore = b.notBefore ∧ a.notAfter = b.notAfter then
    ExtensionList.compare a.extensions b.extensions
  else .ok false

/-- Records are equal if the comparison finds them equal. -/
instance : BEq Record where
  beq a b := affirmed (a.compare b)

/-- The record with both times cut to whole seconds. -/
def wholeSeconds (record : Record) : Record :=
  { record with
    notBefore := record.notBefore.wholeSecond
    notAfter := record.notAfter.wholeSecond }

/-- The record without what its encoding leaves out: the fractions of the times, and the public
name where the version has none. -/
def normal (record : Record) : Record :=
  { record.wholeSeconds with
    publicName := if record.version.hasPublicName then record.publicName else none }

end Record

end Esni
