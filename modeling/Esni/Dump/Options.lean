/-!
# Command line options

The command takes values as arguments, and some options: a file with more values, a domain as a
title, whether to show hex dumps, and how much to log. Options have a long or a short form or
both, and short ones can be joined. A value follows its option as the next argument, or in the same
one, behind an equals sign or, for a short option, at once.

Arguments are read from left to right, and the first mistake or request for help decides.

## Main definitions

- `Options` — what the command is to do
- `CommandLine.parse` — the meaning of the arguments
-/

namespace Esni

/-- What the command is to do. -/
structure Options where
  values : List String := []
  /-- The file with more values; a hyphen stands for the standard input. -/
  input : Option String := none
  domain : Option String := none
  hex : Bool := false
  verbosity : Nat := 0
  deriving DecidableEq

/-- The meaning of a command line. -/
inductive CommandLine where
  | run (options : Options)
  | help
  | invalid
  deriving DecidableEq

/-- The options that take a value. -/
inductive ValueOption where
  | input
  | domain
  deriving DecidableEq

namespace Options

/-- Sets an option that takes a value. It may be given once, and a file needs a name. -/
def setValue? (options : Options) (option : ValueOption) (value : String) : Option Options :=
  match option with
  | .input =>
    if options.input = none ∧ value ≠ "" then some { options with input := some value } else none
  | .domain =>
    if options.domain = none then some { options with domain := some value } else none

/-- Asks for hex dumps, which may be done once. -/
def setHex? (options : Options) : Option Options :=
  if options.hex then none else some { options with hex := true }

/-- Without a file there must be a value. -/
def finish (options : Options) : CommandLine :=
  if options.values = [] ∧ options.input = none then .invalid else .run options

end Options

namespace CommandLine

/-- Whether an argument can be the value of an option before it: it does not look like an option
itself. A lone hyphen does not. -/
def isValue (argument : String) : Bool :=
  argument = "-" || argument.toList.head? ≠ some '-'

/-- The meaning of joined short options. -/
inductive Joined where
  /-- All of them stand for themselves. -/
  | done (options : Options)
  /-- The last one takes the next argument as its value. -/
  | needsValue (options : Options) (option : ValueOption)
  | help
  | invalid

/-- The meaning of an option with what follows it in the same argument. Nothing at all means that
the value is the next argument. -/
def attached (options : Options) (option : ValueOption) (rest : List Char) : Joined :=
  match rest with
  | [] => .needsValue options option
  | '=' :: value => ((options.setValue? option (String.ofList value)).map .done).getD .invalid
  | value => ((options.setValue? option (String.ofList value)).map .done).getD .invalid

def joined (options : Options) : List Char → Joined
  | [] => .done options
  | 'v' :: rest => joined { options with verbosity := options.verbosity + 1 } rest
  | 'i' :: rest => attached options .input rest
  | 'd' :: rest => attached options .domain rest
  | 'h' :: _ => .help
  | _ => .invalid

/-- The meaning of a long option: its name, and the value behind an equals sign, if there is
one. -/
def long (options : Options) (name : String) (value : Option String) : Joined :=
  match name, value with
  | "input", none => .needsValue options .input
  | "input", some value => ((options.setValue? .input value).map .done).getD .invalid
  | "domain", none => .needsValue options .domain
  | "domain", some value => ((options.setValue? .domain value).map .done).getD .invalid
  | "hex", none => (options.setHex?.map .done).getD .invalid
  | "help", none => .help
  | _, _ => .invalid

/-- The meaning of an argument that looks like an option, without the hyphen in front. -/
def option (options : Options) : List Char → Joined
  | '-' :: rest =>
    let name := rest.takeWhile (· ≠ '=')
    let value := (rest.drop name.length).tail?
    long options (String.ofList name) (value.map String.ofList)
  | rest => joined options rest

/-- Reads the arguments behind those that `options` stands for. -/
def parseFrom (options : Options) : List String → CommandLine
  | [] => options.finish
  | argument :: rest =>
    if argument = "--" then
      Options.finish { options with values := options.values ++ rest }
    else if isValue argument then
      parseFrom { options with values := options.values ++ [argument] } rest
    else
      match option options (argument.toList.drop 1) with
      | .done options => parseFrom options rest
      | .help => .help
      | .invalid => .invalid
      | .needsValue options option =>
        match rest with
        | [] => .invalid
        | value :: rest =>
          if isValue value then
            match options.setValue? option value with
            | some options => parseFrom options rest
            | none => .invalid
          else .invalid

def parse (arguments : List String) : CommandLine := parseFrom {} arguments

end CommandLine

end Esni
