/-! # Requirements

A **requirement** is what the controller has to declare for one attribute of the markup: a field of
the element's type, or an event handler without parameters. -/

namespace FxmlWiring

/-- What a controller has to declare. -/
inductive Requirement where
  | field (type identifier : String)
  | handler (identifier : String)
deriving Repr, DecidableEq

namespace Requirement

/-- The name of a requirement's kind. -/
def kind : Requirement → String
  | field .. => "field"
  | handler .. => "handler"

/-- How a report shows a requirement: type and name of a field, name of a handler. -/
def display : Requirement → String
  | field type identifier => type ++ " " ++ identifier
  | handler identifier => identifier

/-- The name that has to be declared. -/
def identifier : Requirement → String
  | field _ i | handler i => i

end Requirement

end FxmlWiring
