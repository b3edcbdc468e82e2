import FxmlWiring.Text.Quoted

/-! # Files of a run

A **folder** says what reading a path gives: bytes, or why it cannot be read. `Folder.ofEntries` is
a folder that holds the given files and empty directories and nothing else. -/

namespace FxmlWiring.CommandLine

open Text

/-- Why a path cannot be read, with the number of the error and its wording. -/
structure FileError where
  number : Nat
  reason : String
deriving Repr, DecidableEq

namespace FileError

/-- There is nothing at the path. -/
def notFound : FileError :=
  ⟨2, "No such file or directory"⟩

/-- The path goes on below a file. -/
def notDirectory : FileError :=
  ⟨20, "Not a directory"⟩

/-- The path leads to a directory. -/
def isDirectory : FileError :=
  ⟨21, "Is a directory"⟩

/-- The wording of an error about a path. -/
def message (e : FileError) (path : String) : String :=
  "[Errno " ++ toString e.number ++ "] " ++ e.reason ++ ": " ++ Quoted.quote path

end FileError

/-- What reading a path gives. -/
abbrev Folder := String → Except FileError (List UInt8)

namespace Folder

/-- The parts of a path between its slashes. -/
def parts (path : List Char) : List (List Char) :=
  path.foldr (fun c ps =>
    if c = '/' then [] :: ps
    else
      match ps with
      | p :: ps => (c :: p) :: ps
      | [] => [[c]]) [[]]

/-- Where a path has led to. -/
inductive Location where
  /-- Some directory outside the folder. -/
  | outside
  | top
  | directory
  | file (content : List UInt8)
deriving Repr, DecidableEq

/-- Follows one part of a path. An empty part or a full stop stays in a directory, and two full
stops go up. Directories outside the folder hold nothing. -/
def follow (files : List (String × List UInt8)) (directories : List String) (place : Location)
    (part : List Char) : Except FileError Location :=
  match place with
  | .file _ => .error .notDirectory
  | .outside =>
    if [[], ['.'], ['.', '.']].contains part then .ok .outside else .error .notFound
  | .top =>
    if [[], ['.']].contains part then .ok .top
    else if part = ['.', '.'] then .ok .outside
    else
      match files.lookup (String.ofList part) with
      | some content => .ok (.file content)
      | none =>
        if String.ofList part ∈ directories then .ok .directory else .error .notFound
  | .directory =>
    if [[], ['.']].contains part then .ok .directory
    else if part = ['.', '.'] then .ok .top
    else .error .notFound

/-- Where a path starts: a leading slash leads out of the folder. -/
def startOf (path : List Char) : Location :=
  if path.head? = some '/' then .outside else .top

/-- The folder that holds the files and the empty directories. -/
def ofEntries (files : List (String × List UInt8)) (directories : List String) : Folder :=
  fun path =>
    if path = "" then .error .notFound
    else
      match (parts path.toList).foldlM (follow files directories) (startOf path.toList) with
      | .error e => .error e
      | .ok (.file content) => .ok content
      | .ok .outside | .ok .top | .ok .directory => .error .isDirectory

end Folder

end FxmlWiring.CommandLine
