import Esni.Base64
import Esni.HexDump
import Esni.Record.Decode
import Esni.Record.Describe

/-!
# Dumps of published records

A record is published as base64 text. Its dump is the description of the record, behind a hex dump
of its bytes if one is asked for.

## Main definitions

- `dump` — the dump of a text
- `DumpError.chainText` — an error with everything that lies behind it
-/

namespace Esni

inductive DumpError where
  | base64 (error : Base64Error)
  | record (error : DecodeError)
  deriving DecidableEq

/-- The texts of an error and of what lies behind it, outermost first. -/
def DumpError.chain : DumpError → List String
  | base64 error => ["failed to decode base64 record data", error.message]
  | record error => "failed to decode esni keys" :: error.chain

/-- An error with everything that lies behind it, on one line. -/
def DumpError.chainText (error : DumpError) : String := ": ".intercalate error.chain

/-- The bytes that a text stands for. -/
def recordBytes (text : String) : Except Base64Error Bytes :=
  Base64.decode text.toUTF8.data.toList

/-- The dump of a text, with the extensions that the registry knows. -/
def dump [Build] (registry : Registry) (withHex : Bool) (text : String) :
    Except (Failure DumpError) String := do
  let data ← (recordBytes text).mapError fun error => .fault (.base64 error)
  let record ← (Record.decode registry data).mapError fun error => .fault (.record error)
  let shown := if withHex then hexDump data ++ "\n" else ""
  let description ← (record.describeWith registry).mapError .panic
  return shown ++ description

end Esni
