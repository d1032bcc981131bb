import Esni.Dump.Command
import Std.Time.Format

/-!
# The program

The outer layer of the dump command: it reads the arguments and the input, runs the command and
writes what the command says. Each line of the log gets the time of day in front.
-/

namespace Esni

/-- How the command is called. -/
def usage : String :=
  "Usage: esni-dump [-v] [--hex] [-d DOMAIN] [-i FILE] [VALUE ...]"

/-- How the library names a refusal of the system. -/
def SystemError.ofError : IO.Error → SystemError
  | .noFileOrDirectory _ code details | .permissionDenied _ code details
  | .inappropriateType _ code details | .invalidArgument _ code details
  | .resourceExhausted _ code details | .otherError code details
  | .unsupportedOperation code details | .hardwareFault code details =>
    .ofCode code.toNat details
  | error => .other 0 (toString error)

/-- What the command gets from the named file; a hyphen stands for the standard input. -/
def readInput (path : String) : IO Input := do
  if path = "-" then
    return .contents (← (← IO.getStdin).readBinToEnd).data.toList
  else
    match ← (IO.FS.Handle.mk path .read).toBaseIO with
    | .error error => return .cannotOpen (.ofError error)
    | .ok file =>
      match ← file.readBinToEnd.toBaseIO with
      | .error error => return .cannotRead (.ofError error)
      | .ok data => return .contents data.data.toList

/-- Writes what the command says. -/
def report (outcome : Outcome) : IO Unit := do
  let now ← Std.Time.PlainDateTime.now
  for line in outcome.log do
    IO.eprintln (now.format "uuuu-MM-dd HH:mm:ss.SSSSSS" ++ " " ++ line.text)
  IO.print outcome.output
  if let some error := outcome.error then
    IO.eprintln error.text

end Esni

open Esni in
def main (arguments : List String) : IO UInt32 := do
  match CommandLine.parse arguments with
  | .invalid =>
    IO.eprintln usage
    return 2
  | .help =>
    IO.println usage
    return 0
  | .run options =>
    let input ← match options.input with
      | some path => readInput path
      | none => pure (.contents [])
    let outcome := Command.run options input
    report outcome
    return UInt32.ofNat outcome.exitStatus
