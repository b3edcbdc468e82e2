import FxmlWiring.Check
import FxmlWiring.CommandLine.Folder
import FxmlWiring.CommandLine.Usage
import FxmlWiring.Controller
import FxmlWiring.Report

/-! # Runs

A **run** reads the controller file and then the markup file, checks them, and reports. Its exit
status tells whether everything required was found, something was missing, or the check could not be
done. -/

namespace FxmlWiring.CommandLine

/-- How a run ends. -/
inductive Status where
  /-- Everything required was found, or help was shown. -/
  | ok
  /-- Nothing could be checked. -/
  | failure
  /-- Something is missing. -/
  | missingItems
deriving Repr, DecidableEq

/-- The exit code of a status. -/
def Status.code : Status → Nat
  | ok => 0
  | failure => 1
  | missingItems => 2

/-- What a run leaves: its status and what it has written. -/
structure Result where
  status : Status
  output : String
  errors : String
deriving Repr, DecidableEq

/-- A run that could not check anything. -/
def Result.failed (errors : String) : Result :=
  ⟨.failure, "", errors⟩

/-- What ends a run without a status. -/
inductive Crash where
  /-- There is no path of the controller file. -/
  | noController
  | markup (e : Markup.Error)
deriving Repr, DecidableEq

/-- The wording of a crash. -/
def Crash.message : Crash → String
  | noController => "expected str, bytes or os.PathLike object, not list"
  | markup e => e.message

/-- A word with blanks after it, up to a width. -/
def padRight (width : Nat) (s : String) : String :=
  s.pushn ' ' (width - s.length)

/-- The line that shows an outcome. -/
def outcomeLine (o : Outcome) : String :=
  let verdict :=
    match o.rule with
    | some rule => "ok (" ++ rule.name ++ ")"
    | none => "MISSING"
  "  " ++ padRight 8 o.requirement.kind ++ " " ++ o.requirement.display ++ ": " ++ verdict ++ "\n"

/-- What a run writes about the outcomes: one line for each if it is verbose, and the report unless
it is quiet. -/
def describe (a : Arguments) (outcomes : List Outcome) : String :=
  (if a.verbose then String.join (outcomes.map outcomeLine) else "") ++
  (if a.quiet then "" else Report.render (Outcome.missing outcomes))

/-- The result for the outcomes of a check. -/
def Result.ofOutcomes (a : Arguments) (outcomes : List Outcome) : Result :=
  ⟨if Outcome.missing outcomes = [] then .ok else .missingItems, describe a outcomes, ""⟩

/-- Checks the files that the arguments name. Malformed markup fails the run; a document that cannot
be decoded or read otherwise stops it. -/
def runCheck (folder : Folder) (a : Arguments) : Except Crash Result :=
  match a.controllerFile with
  | none => .error .noController
  | some controllerFile =>
    match folder controllerFile with
    | .error e => .ok (.failed ("Error: " ++ e.message controllerFile ++ "\n"))
    | .ok bytes =>
      match Controller.readSource bytes with
      | .error e => .ok (.failed ("Error: " ++ e.message ++ "\n"))
      | .ok source =>
        match folder a.fxmlFile with
        | .error e => .ok (.failed ("Error: " ++ e.message a.fxmlFile ++ "\n"))
        | .ok markup =>
          match check a.settings (.encoded markup) source with
          | .ok outcomes => .ok (.ofOutcomes a outcomes)
          | .error (.malformed cause p) =>
            let message := (Markup.Error.malformed cause p).message
            .ok (.failed ("Error: " ++ a.fxmlFile ++ ": " ++ message ++ "\n"))
          | .error e => .error (.markup e)

/-- The run of a command line. -/
def run (folder : Folder) (words : List String) : Except Crash Result :=
  match parseArguments words with
  | .help => .ok ⟨.ok, help, ""⟩
  | .invalid e => .ok (.failed e.report)
  | .run a => runCheck folder a

end FxmlWiring.CommandLine
