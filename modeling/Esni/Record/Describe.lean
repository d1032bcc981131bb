import Esni.Record.Encode

/-!
# Descriptions of records

A description shows all fields of a record on one line, with names for the identifiers that have
one. The checksum is that of the encoding, and a hyphen for a record that cannot be written. The
public name is shown where the version has one, even if it is empty.

## Main definitions

- `Record.describeWith` — the description, with the extension names of a registry
- `Record.describe` — the description, with those of the standard registry
-/

namespace Esni.Record

/-- The text of the checksum, or a hyphen if the record cannot be written. -/
def checksumText [Build] (record : Record) : Except Panic String :=
  match record.checksum with
  | .ok checksum => .ok (Hex.text checksum.val)
  | .error (.fault _) => .ok "-"
  | .error (.panic cause) => .error cause

/-- The text of the public name, where the version has one. -/
def nameText (record : Record) : String :=
  if record.version.hasPublicName then "PublicName:" ++ record.publicName.getD "" ++ ", " else ""

/-- All fields of the record, with the extension names of the registry. -/
def describeWith [Build] (registry : Registry) (record : Record) : Except Panic String := do
  let checksum ← record.checksumText
  return "\x7bVersion:" ++ record.version.text ++
    ", Checksum:" ++ checksum ++ ", " ++ record.nameText ++
    "Keys:" ++ record.keys.text ++
    ", CipherSuites:" ++ CipherSuites.text record.cipherSuites ++
    ", PaddedLength:" ++ toString record.paddedLength.toNat ++
    ", NotBefore:" ++ record.notBefore.text ++
    ", NotAfter:" ++ record.notAfter.text ++
    ", Extensions:" ++ ExtensionList.textWith registry record.extensions ++ "\x7d"

/-- All fields of the record, with the extension names of the standard registry. -/
def describe [Build] (record : Record) : Except Panic String := record.describeWith .standard

end Esni.Record
