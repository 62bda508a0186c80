/-!
# Files below a working directory

A snapshot of the files that a program can read, and what reading a path in it gives. A path is
followed name by name, so a missing name is reported before anything behind it is looked at.
-/

namespace Reductions

inductive ReadError where
  | notFound
  | notADirectory
  | isADirectory
  | invalidName
  | invalidText
  | system (reason : String)
deriving DecidableEq, Repr

def ReadError.message : ReadError → String
  | notFound => "no such file"
  | notADirectory => "not a directory"
  | isADirectory => "is a directory"
  | invalidName => "invalid file name"
  | invalidText => "the file is not valid UTF-8"
  | system reason => reason

abbrev FileReader := String → Except ReadError String

inductive FileEntry where
  | file (content : ByteArray)
  | directory

structure Files where
  entries : List (List String × FileEntry)

namespace Files

/-- Where following a path has led. Nothing is known about what lies outside the working directory.
-/
inductive Place where
  | outside
  | inside (path : List String)

def entry? (files : Files) (path : List String) : Option FileEntry :=
  if path.isEmpty then some .directory
  else
    match files.entries.lookup path with
    | some entry => some entry
    | none =>
      if files.entries.any fun entry => path.isPrefixOf entry.1 then some .directory else none

/-- The most bytes in one name. -/
def nameLimit : Nat := 255

/-- The fewest bytes that are too many for a path. -/
def pathLimit : Nat := 4096

def isDirectory (files : Files) : Place → Bool
  | .outside => true
  | .inside path => match files.entry? path with
    | some .directory => true
    | _ => false

def step (files : Files) (place : Place) (name : String) : Except ReadError Place :=
  if !files.isDirectory place then .error .notADirectory
  else if name = "" ∨ name = "." then .ok place
  else if name = ".." then
    match place with
    | .inside (first :: rest) => .ok (.inside (first :: rest).dropLast)
    | _ => .ok .outside
  else if nameLimit < name.utf8ByteSize then .error .invalidName
  else
    match place with
    | .outside => .error .notFound
    | .inside path =>
      match files.entry? (path ++ [name]) with
      | some _ => .ok (.inside (path ++ [name]))
      | none => .error .notFound

def read (files : Files) : FileReader := fun path =>
  if path.isEmpty then .error .notFound
  else if path.toList.contains '\x00' ∨ pathLimit ≤ path.utf8ByteSize then .error .invalidName
  else
    let start := if path.toList.head? = some '/' then Place.outside else .inside []
    match (path.splitOn "/").foldlM files.step start with
    | .error e => .error e
    | .ok .outside => .error .isADirectory
    | .ok (.inside path) =>
      match files.entry? path with
      | none => .error .notFound
      | some .directory => .error .isADirectory
      | some (.file content) =>
        match String.fromUTF8? content with
        | some text => .ok text
        | none => .error .invalidText

end Files

end Reductions
