import Esni.Dump.FileSystem
import Esni.Dump.Log
import Esni.Dump.Options
import Esni.TxtValue

/-!
# The dump command

The command dumps each of its values and goes on behind those that it cannot dump. All values are
collected before anything is written, so a fault of the input leaves the output empty.

## Main definitions

- `Command.values` — the values in order
- `Command.block` — what is written for one value
- `Command.run` — all that the command writes, and its exit status
- `Command.runOn` — the same on a file system
-/

namespace Esni

inductive CommandError where
  | cannotOpen (path : String) (error : SystemError)
  | cannotRead (error : SystemError)
  | inputNotText
  | noValue
  | failures (failed total : Nat)
  deriving DecidableEq

/-- The text of an error, with what lies behind it on lines of its own. -/
def CommandError.text : CommandError → String
  | cannotOpen path error =>
    "Error: failed to open input file " ++ path ++ ": " ++ error.fullText
  | cannotRead error => "Error: failed to read input\n\nCaused by:\n    " ++ error.shortText
  | inputNotText =>
    "Error: failed to read input\n\nCaused by:\n    stream did not contain valid UTF-8"
  | noValue => "Error: no record value found"
  | failures failed total => s!"Error: {failed} of {total} records failed"

/-- What the command does. -/
structure Outcome where
  output : String
  log : List LogLine
  error : Option CommandError

namespace Outcome

/-- The exit status: zero only for a command without an error. -/
def exitStatus (outcome : Outcome) : Nat := if outcome.error.isSome then 1 else 0

end Outcome

namespace Command

def lines (text : String) : List String :=
  (text.toList.splitOn '\n').map String.ofList

/-- The text that the file with the given path holds. -/
def inputText (path : String) : Input → Except CommandError String
  | .cannotOpen error => .error (.cannotOpen path error)
  | .cannotRead error => .error (.cannotRead error)
  | .contents data => orFault .inputNotText (String.fromUTF8? data.toByteArray)

/-- The values: those of the arguments, and those of the lines of the input if there is one.
`input` is what the command gets from the file of the options. -/
def values (options : Options) (input : Input) : Except CommandError (List String) :=
  let given := options.values.filterMap txtValue?
  match options.input with
  | none => .ok given
  | some path => do
    let text ← inputText path input
    return given ++ (lines text).filterMap txtValue?

/-- The title, if a domain is given. -/
def title (options : Options) : String :=
  options.domain.elim "" fun domain => "Target Domain: " ++ domain ++ "\n\n"

/-- What is shown for the outcome of a dump: the dump or its error. The standard registry reads
address sets only, and a record with no other extensions can always be described, so no dump ends
the program. -/
def resultText : Except (Failure DumpError) String → String
  | .ok description => description
  | .error (.fault error) => "ERROR: " ++ error.chainText
  | .error (.panic _) => ""

/-- What is written for the value with the given number, between two lines of its own. -/
def block [Build] (withHex : Bool) (value : String) (number : Nat) : String :=
  "----------- ESNI Record " ++ toString number ++ "\n" ++
    resultText (dump .standard withHex value) ++ "\n-----------\n"

def fails [Build] (withHex : Bool) (value : String) : Bool :=
  match dump .standard withHex value with
  | .ok _ => false
  | .error _ => true

/-- The log of a run over the given values, as far as it is asked for. -/
def log (options : Options) (values : List String) : List LogLine :=
  (⟨.info, "esni_dump", s!"loaded {values.length} record values"⟩ ::
    if options.verbosity ≤ LogLevel.info.verbosity then []
    else values.flatMap (dumpLog .standard)).filter (·.level.verbosity ≤ options.verbosity)

/-- Runs the command. `input` is what it gets from the file of the options. -/
def run [Build] (options : Options) (input : Input) : Outcome :=
  match values options input with
  | .error error => ⟨"", [], some error⟩
  | .ok [] => ⟨"", [], some .noValue⟩
  | .ok values =>
    let failed := values.countP (fails options.hex)
    { output := title options ++ String.join (values.zipIdx.map fun (value, number) =>
        block options.hex value number)
      log := log options values
      error := if failed = 0 then none else some (.failures failed values.length) }

/-- Runs the command on a file system. A lone hyphen as the path stands for the standard input. -/
def runOn [Build] (files : FileSystem) (standardInput : Bytes) (options : Options) : Outcome :=
  run options (options.input.elim (.contents []) fun path =>
    if path = "-" then .contents standardInput else files.input path)

theorem runOn_of_no_input [Build] {files : FileSystem} {standardInput : Bytes} {options : Options}
    (h : options.input = none) :
    runOn files standardInput options = run options (.contents []) := by
  simp [runOn, h]

theorem runOn_of_hyphen [Build] {files : FileSystem} {standardInput : Bytes} {options : Options}
    (h : options.input = some "-") :
    runOn files standardInput options = run options (.contents standardInput) := by
  simp [runOn, h]

end Command

end Esni
