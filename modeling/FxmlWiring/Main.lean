import FxmlWiring.CommandLine.Run

/-! # The program

Reads the files that the command line names, runs the check, writes what the run leaves, and exits
with its code. -/

namespace FxmlWiring.CommandLine

/-- An error of the operating system as an error about a path. -/
def FileError.ofSystem (e : IO.Error) : FileError :=
  match e with
  | .noFileOrDirectory .. => .notFound
  | .inappropriateType _ 20 _ => .notDirectory
  | .inappropriateType _ 21 _ => .isDirectory
  | .permissionDenied _ code _ => ⟨code.toNat, "Permission denied"⟩
  | e => ⟨5, toString e⟩

/-- Reads a file. -/
def readFile (path : String) : IO (Except FileError (List UInt8)) := do
  try
    return .ok (← IO.FS.readBinFile path).toList
  catch e =>
    return .error (.ofSystem e)

/-- The folder that holds the files which a command line needs. -/
def folderFor (words : List String) : IO Folder := do
  match parseArguments words with
  | .run ⟨fxmlFile, some controllerFile, _, _, _⟩ =>
    let controller ← readFile controllerFile
    let markup ← readFile fxmlFile
    return fun path => if path = controllerFile then controller else markup
  | _ => return fun _ => .error .notFound

end FxmlWiring.CommandLine

open FxmlWiring.CommandLine in
/-- Runs the check that the command line asks for. -/
def main (words : List String) : IO UInt32 := do
  match run (← folderFor words) words with
  | .ok result =>
    IO.print result.output
    IO.eprint result.errors
    return result.status.code.toUInt32
  | .error e =>
    IO.eprintln e.message
    return 1
