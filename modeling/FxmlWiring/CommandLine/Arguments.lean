import FxmlWiring.CommandLine.Switch
import FxmlWiring.Settings
import FxmlWiring.Text.Quoted

/-! # Arguments of a run

The words of a command line are taken from left to right. A plain word is the next **path** that is
still open; a switch takes effect, with the value after it if it takes one. What is left over is an
error, but only after everything else. -/

namespace FxmlWiring.CommandLine

open Text

/-- What a command line asks for. -/
structure Arguments where
  fxmlFile : String
  /-- None if a separator stands in its place, and is dropped there. -/
  controllerFile : Option String
  settings : Settings
  verbose : Bool
  quiet : Bool
deriving Repr, DecidableEq

/-- Why a command line asks for nothing. -/
inductive UsageError where
  | ambiguous (word : String) (spellings : List String)
  | valueMissing (s : Switch)
  | valueIgnored (s : Switch) (value : String)
  | excluded (s earlier : Switch)
  | required (names : List String)
  | leftOver (words : List String)
deriving Repr, DecidableEq

/-- The wording of a usage error. -/
def UsageError.message : UsageError → String
  | ambiguous word spellings =>
    "ambiguous option: " ++ word ++ " could match " ++ String.intercalate ", " spellings
  | valueMissing s => "argument " ++ s.label ++ ": expected one argument"
  | valueIgnored s value =>
    "argument " ++ s.label ++ ": ignored explicit argument " ++ Quoted.quote value
  | excluded s earlier =>
    "argument " ++ s.label ++ ": not allowed with argument " ++ earlier.label
  | required names =>
    "the following arguments are required: " ++ String.intercalate ", " names
  | leftOver words => "unrecognized arguments: " ++ String.intercalate " " words

/-- What a command line amounts to. -/
inductive Parsed where
  | help
  | invalid (e : UsageError)
  | run (a : Arguments)
deriving Repr, DecidableEq

/-- What has been taken from the front of a command line. -/
structure Taken where
  paths : List String := []
  /-- Whether the last path is a separator that is dropped. -/
  losesLast : Bool := false
  leftOver : List String := []
  settings : Settings := .standard
  verbose : Bool := false
  quiet : Bool := false
deriving Repr, DecidableEq

namespace Taken

/-- The names of the paths, in their order. -/
def pathNames : List String :=
  ["fxml_file", "controller_file"]

/-- A plain word: the next path, or left over after the last one. -/
def addPlain (t : Taken) (word : String) : Taken :=
  if t.paths.length < pathNames.length then { t with paths := t.paths ++ [word] }
  else { t with leftOver := t.leftOver ++ [word] }

/-- The effect of a switch with its value. -/
def setValue (t : Taken) (s : Switch) (value : String) : Taken :=
  match s with
  | .binding => { t with settings := { t.settings with binding := value } }
  | .idAttribute => { t with settings := { t.settings with idMarker := value } }
  | .actionAttribute => { t with settings := { t.settings with actionMarker := value } }
  | .help | .verbose | .quiet => t

/-- The effect of a switch without a value, other than help: verbose and quiet exclude each
other. -/
def setFlag (t : Taken) (s : Switch) : Except UsageError Taken :=
  match s with
  | .verbose =>
    if t.quiet then .error (.excluded .verbose .quiet) else .ok { t with verbose := true }
  | .quiet =>
    if t.verbose then .error (.excluded .quiet .verbose) else .ok { t with quiet := true }
  | .help | .binding | .idAttribute | .actionAttribute => .ok t

/-- Everything has been taken. -/
def finish (t : Taken) : Parsed :=
  match t.paths with
  | [fxmlFile, controllerFile] =>
    if t.leftOver = [] then
      let controllerFile := if t.losesLast then none else some controllerFile
      .run ⟨fxmlFile, controllerFile, t.settings, t.verbose, t.quiet⟩
    else .invalid (.leftOver t.leftOver)
  | paths => .invalid (.required (pathNames.drop paths.length))

/-- Whether the last path is a second separator. The words are those after the first one, which goes
with the path before or after it; a path that goes with neither is dropped if it is a separator. -/
def losesPath (t : Taken) (afterPath : Bool) (words : List String) : Bool :=
  match t.paths, afterPath with
  | [], _ => words[1]? = some "--"
  | [_], true => words.head? = some "--"
  | _, _ => false

/-- The words from the separator on are plain ones. The separator belongs to the path before or
after it, and is left over if there is neither. `afterPath` tells whether the word before it was
taken as a path. -/
def takeLast (t : Taken) (afterPath : Bool) (words : List String) : Taken :=
  let belongs := afterPath || (t.paths.length < pathNames.length && !words.isEmpty)
  let t := { t with losesLast := t.losesPath afterPath words }
  let t := if belongs then t else { t with leftOver := t.leftOver ++ ["--"] }
  words.foldl addPlain t

end Taken

/-- Takes the words from left to right. `afterPath` tells whether the word before was taken as a
path. -/
def takeWords (t : Taken) (afterPath : Bool) : List Word → Parsed
  | [] => t.finish
  | .separator :: words => (t.takeLast afterPath (words.map Word.text)).finish
  | .plain word :: words =>
    takeWords (t.addPlain word) (t.paths.length < Taken.pathNames.length) words
  | .unknown word :: words => takeWords { t with leftOver := t.leftOver ++ [word] } false words
  | .letters s attached :: _ =>
    match attached.toList.dropWhile (· = 'h') with
    | '=' :: value => .invalid (.valueIgnored s (String.ofList value))
    | '-' :: rest => .invalid (.valueIgnored s (String.ofList ('-' :: rest)))
    | _ => .help
  | .switch s (some value) :: words =>
    if s.takesValue then takeWords (t.setValue s value) false words
    else .invalid (.valueIgnored s value)
  | .switch s none :: words =>
    if s = .help then .help
    else if s.takesValue then
      match words with
      | .plain value :: rest => takeWords (t.setValue s value) false rest
      | _ => .invalid (.valueMissing s)
    else
      match t.setFlag s with
      | .error e => .invalid e
      | .ok t => takeWords t false words

/-- What a command line amounts to. -/
def parseArguments (words : List String) : Parsed :=
  match Word.classifyAll words with
  | .error (word, spellings) => .invalid (.ambiguous word spellings)
  | .ok words => takeWords {} false words

end FxmlWiring.CommandLine
