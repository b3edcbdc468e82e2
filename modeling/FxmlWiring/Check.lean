import FxmlWiring.Controller
import FxmlWiring.Markup.Document
import FxmlWiring.Requirement.Extract
import FxmlWiring.Rule.Search

/-! # The check of a controller

Each requirement of the markup is looked for in the controller. An **outcome** is a requirement with
the rule that accepted it; a requirement that no rule accepted is missing. -/

namespace FxmlWiring

/-- A requirement and the rule that accepted it, if one did. -/
structure Outcome where
  requirement : Requirement
  rule : Option Rule
deriving Repr, DecidableEq

namespace Outcome

/-- Whether no rule accepted the requirement. -/
def isMissing (o : Outcome) : Bool :=
  o.rule.isNone

/-- How the missing requirements are shown, in their order. -/
def missing (outcomes : List Outcome) : List String :=
  (outcomes.filter isMissing).map (·.requirement.display)

@[simp] theorem missing_nil : missing [] = [] := rfl

/-- Missing items of two lists one after the other. -/
@[simp] theorem missing_append (xs ys : List Outcome) :
    missing (xs ++ ys) = missing xs ++ missing ys := by
  simp [missing]

end Outcome

/-- The outcome of every requirement, in their order. -/
def evaluate (s : Settings) (requirements : List Requirement) (source : String) : List Outcome :=
  requirements.map fun r => ⟨r, r.acceptedBy? s source⟩

/-- How the requirements that the text does not meet are shown. -/
def verify (s : Settings) (requirements : List Requirement) (source : String) : List String :=
  Outcome.missing (evaluate s requirements source)

/-- The requirements of markup, in document order. -/
def extract (s : Settings) (markup : Markup) : Except Markup.Error (List Requirement) :=
  markup.parse.map (Requirement.collect s)

/-- The outcomes for markup and the text of its controller, comments aside. -/
def check (s : Settings) (markup : Markup) (source : String) :
    Except Markup.Error (List Outcome) :=
  (extract s markup).map fun rs => evaluate s rs (Controller.stripComments source)

end FxmlWiring
