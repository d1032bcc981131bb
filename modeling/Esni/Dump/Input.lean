import Esni.Bytes

/-!
# The input of the command

The command can read more values from a file. The system may refuse to open the file or to read it.
The text of a refusal has a full form, with everything that is known of the cause, and a short one.

## Main definitions

- `SystemError` — why the system refuses
- `Input` — what the command gets from its file
-/

namespace Esni

/-- Why the system refuses to open or to read a file. -/
inductive SystemError where
  | notFound
  | permissionDenied
  /-- The path goes on behind something that is no directory. -/
  | notADirectory
  | isADirectory
  | nameTooLong
  | tooManyLinks
  /-- Another cause, with its number and the system's words for it. -/
  | other (code : Nat) (message : String)
  deriving DecidableEq

namespace SystemError

def code : SystemError → Nat
  | notFound => 2
  | permissionDenied => 13
  | notADirectory => 20
  | isADirectory => 21
  | nameTooLong => 36
  | tooManyLinks => 40
  | other code _ => code

def kind : SystemError → String
  | notFound => "NotFound"
  | permissionDenied => "PermissionDenied"
  | notADirectory => "NotADirectory"
  | isADirectory => "IsADirectory"
  | nameTooLong => "InvalidFilename"
  | tooManyLinks => "FilesystemLoop"
  | other .. => "Uncategorized"

/-- The system's words for a cause. -/
def message : SystemError → String
  | notFound => "No such file or directory"
  | permissionDenied => "Permission denied"
  | notADirectory => "Not a directory"
  | isADirectory => "Is a directory"
  | nameTooLong => "File name too long"
  | tooManyLinks => "Too many levels of symbolic links"
  | other _ message => message

/-- The cause with the given number, for which the system has the given words. -/
def ofCode (code : Nat) (message : String) : SystemError :=
  let known := [notFound, permissionDenied, notADirectory, isADirectory, nameTooLong, tooManyLinks]
  (known.find? (·.code = code)).getD (other code message)

/-- The full text of a cause: its number, its name and the system's words. -/
def fullText (error : SystemError) : String :=
  "Os \x7b code: " ++ toString error.code ++ ", kind: " ++ error.kind ++
    ", message: \"" ++ error.message ++ "\" \x7d"

/-- The short text of a cause: the system's words and the number. -/
def shortText (error : SystemError) : String :=
  error.message ++ " (os error " ++ toString error.code ++ ")"

end SystemError

/-- What the command gets from its file. -/
inductive Input where
  | cannotOpen (error : SystemError)
  | cannotRead (error : SystemError)
  | contents (data : Bytes)
  deriving DecidableEq

end Esni
