import Esni.Dump.Input

/-!
# Paths and files

A path leads from a directory to what the command is to read. Its names are separated by slashes
and are followed from left to right: each name has to stand in a directory, an empty name and a
single dot stay where they are, and two dots go up. A path with a slash in front starts at the
root, any other one at the current directory. A name can be a link, and then the way goes on from
the place that it stands for. Paths have a greatest length, names have one in most directories, and
the number of links on a way is limited, so every way ends.

With a file system as a value, a run of the command is a function of everything that it can see.

## Main definitions

- `FileSystem` — the files that a path can lead to
- `FileSystem.find` — what lies at the end of a path
- `FileSystem.input` — what the command gets from it
-/

namespace Esni

/-- A place: the names on the way from the root to it. -/
abbrev Place := List String

/-- What can lie at a place. -/
inductive FileNode where
  /-- A directory. A `limited` one refuses names that are longer than `FileSystem.maxName`. -/
  | directory (limited : Bool)
  /-- Another name for a place. -/
  | link (target : Place)
  | file (input : Input)
  deriving DecidableEq

/-- The files that a path can lead to. -/
structure FileSystem where
  /-- The places at which something lies. -/
  entries : List (Place × FileNode)
  current : Place

namespace FileSystem

def maxName : Nat := 255

def maxPath : Nat := 4095

/-- The greatest number of links on the way of a path. -/
def maxLinks : Nat := 40

def node? (files : FileSystem) (place : Place) : Option FileNode :=
  files.entries.lookup place

/-- The place that a name leads to. Only a directory leads on, and whether anything lies at the new
place shows with the next step. -/
def enter (files : FileSystem) (place : Place) (name : String) : Except SystemError Place :=
  match files.node? place with
  | none => .error .notFound
  | some (.directory limited) =>
    if name = "" ∨ name = "." then .ok place
    else if name = ".." then .ok place.dropLast
    else if limited ∧ maxName < name.utf8ByteSize then .error .nameTooLong
    else .ok (place ++ [name])
  | some _ => .error .notADirectory

/-- The place that some names lead to, with at most the given number of links on the way. -/
def follow (files : FileSystem) (links : Nat) (place : Place) (names : List String) :
    Except SystemError Place :=
  match names with
  | [] => .ok place
  | name :: rest =>
    match files.enter place name with
    | .error error => .error error
    | .ok next =>
      match files.node? next, links with
      | some (.link _), 0 => .error .tooManyLinks
      | some (.link target), links + 1 => files.follow links [] (target ++ rest)
      | _, links => files.follow links next rest
  termination_by (links, names.length)

/-- Where a path starts. -/
def start (files : FileSystem) (path : String) : Place :=
  if path.toList.head? = some '/' then [] else files.current

def names (path : String) : List String := (path.toList.splitOn '/').map String.ofList

/-- What lies at the end of a path. -/
def find (files : FileSystem) (path : String) : Except SystemError FileNode :=
  if maxPath < path.utf8ByteSize then .error .nameTooLong
  else do
    let place ← files.follow maxLinks (files.start path) (names path)
    orFault .notFound (files.node? place)

/-- What the command gets from the end of a path. A directory can be opened like a file, and only
the attempt to read it fails. -/
def input (files : FileSystem) (path : String) : Input :=
  match files.find path with
  | .error error => .cannotOpen error
  | .ok (.directory _) => .cannotRead .isADirectory
  | .ok (.link _) => .cannotOpen .tooManyLinks
  | .ok (.file input) => input

end FileSystem

end Esni
