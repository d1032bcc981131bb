import Esni.Dump.Basic

/-!
# The log of a dump

While it dumps records, the program can tell what it does, in more or less detail. What it tells
follows from the data alone, so the log is computed beside the dump and not during it.

## Main definitions

- `LogLine` — a line of the log, with its level
- `dumpLog` — what a dump tells
-/

namespace Esni

/-- How much detail a line is. -/
inductive LogLevel where
  /-- An overview. -/
  | info
  /-- What is done to each record. -/
  | debug
  /-- What is found in each record. -/
  | trace
  deriving DecidableEq

namespace LogLevel

def name : LogLevel → String
  | info => "INFO"
  | debug => "DEBUG"
  | trace => "TRACE"

/-- How much has to be asked for before lines of the level are written. -/
def verbosity : LogLevel → Nat
  | info => 1
  | debug => 2
  | trace => 3

end LogLevel

structure LogLine where
  level : LogLevel
  target : String
  message : String
  deriving DecidableEq

def LogLine.text (line : LogLine) : String :=
  line.level.name ++ " [" ++ line.target ++ "] " ++ line.message

/-- What reading an extension list tells: each extension that could be read, also if a later one
could not. -/
def extensionsLog (registry : Registry) (data : Bytes) : List LogLine :=
  match ExtensionList.cutBody data with
  | .error _ => []
  | .ok (body, _) =>
    (ExtensionList.readBody registry body).items.map fun decoded =>
      ⟨.trace, "g3_esni::extension", "decoded esni extension " ++ decoded.name ++ " with " ++
        toString decoded.extension.payloadLength ++ " bytes payload"⟩

/-- What reading a record tells: a wrong checksum, or the extensions. -/
def recordLog (registry : Registry) (data : Bytes) : List LogLine :=
  match Record.decodeSections data with
  | .ok (_, rest) => extensionsLog registry rest
  | .error (.checksumMismatch received calculated) =>
    [⟨.debug, "g3_esni::keys", "esni keys checksum mismatch, received " ++
      Hex.text received.val ++ ", calculated " ++ Hex.text calculated.val⟩]
  | .error _ => []

/-- What the dump of a text tells. -/
def dumpLog (registry : Registry) (text : String) : List LogLine :=
  match recordBytes text with
  | .error _ => []
  | .ok data =>
    ⟨.debug, "esni_dump", s!"decoding {data.length} bytes of record data"⟩ ::
      recordLog registry data

end Esni
