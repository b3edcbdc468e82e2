import FxmlWiring.Requirement.Basic
import FxmlWiring.Settings

/-! # Acceptance rules

A **rule** is one way of writing a declaration that satisfies a requirement. Its **shape** is a
sequence of parts: fixed words, slots for the annotation, the type and the identifier, gaps, and a
filler that stands for any text. The rules of a requirement's kind are tried in a fixed order. -/

namespace FxmlWiring

/-! ## Shapes -/

/-- A value that a shape leaves open. -/
inductive Slot where
  | binding
  | type
  | identifier
deriving Repr, DecidableEq

/-- The name of a slot. -/
def Slot.name : Slot → String
  | .binding => "annotation"
  | .type => "type"
  | .identifier => "identifier"

/-- The slot of a name. -/
def Slot.ofName? (name : String) : Option Slot :=
  [binding, type, identifier].find? (·.name = name)

@[simp] theorem Slot.ofName?_name (s : Slot) : ofName? s.name = some s := by
  cases s <;> decide

/-- One part of a shape. -/
inductive Part where
  /-- A value of the requirement or the settings. -/
  | slot (s : Slot)
  /-- A fixed word. -/
  | word (w : String)
  /-- One access word with a gap after it, or nothing. -/
  | access
  /-- One or more blanks. -/
  | gap
  /-- Blanks, or nothing. -/
  | optionalGap
  /-- One or more characters of any kind. -/
  | filler
deriving Repr, DecidableEq

/-! ## The six rules -/

/-- The six ways of declaring what is required. -/
inductive Rule where
  | annotatedField
  | publicField
  | annotatedGenericField
  | publicGenericField
  | annotatedHandler
  | publicHandler
deriving Repr, DecidableEq

namespace Rule

/-- The name of a rule. -/
def name : Rule → String
  | annotatedField => "annotated field"
  | publicField => "public field"
  | annotatedGenericField => "annotated generic field"
  | publicGenericField => "public generic field"
  | annotatedHandler => "annotated handler"
  | publicHandler => "public handler"

open FxmlWiring.Part in
/-- The end of every field declaration. -/
def fieldEnd : List Part :=
  [gap, slot .identifier, optionalGap, word ";"]

open FxmlWiring.Part in
/-- A generic type: its name, then type arguments between angle brackets. -/
def genericType : List Part :=
  [slot .type, optionalGap, word "<", optionalGap, filler, optionalGap, word ">"]

open FxmlWiring.Part in
/-- The end of every handler declaration: no value, no parameters. -/
def handlerEnd : List Part :=
  [word "void", gap, slot .identifier, optionalGap, word "(", optionalGap, word ")"]

open FxmlWiring.Part in
/-- The parts of a declaration that the rule accepts. -/
def shape : Rule → List Part
  | annotatedField => [slot .binding, gap, access, slot .type] ++ fieldEnd
  | publicField => [word "public", gap, slot .type] ++ fieldEnd
  | annotatedGenericField => [slot .binding, gap, access] ++ genericType ++ fieldEnd
  | publicGenericField => [word "public", gap] ++ genericType ++ fieldEnd
  | annotatedHandler => [slot .binding, gap, access] ++ handlerEnd
  | publicHandler => [word "public", gap] ++ handlerEnd

/-- The rules for fields, in the order in which they are tried. -/
def fieldRules : List Rule :=
  [annotatedField, publicField, annotatedGenericField, publicGenericField]

/-- The rules for handlers, in the order in which they are tried. -/
def handlerRules : List Rule :=
  [annotatedHandler, publicHandler]

/-- All rules. -/
def all : List Rule :=
  fieldRules ++ handlerRules

theorem mem_all (r : Rule) : r ∈ all := by
  cases r <;> decide

/-- The rule of a name. -/
def ofName? (name : String) : Option Rule :=
  all.find? (·.name = name)

@[simp] theorem ofName?_name (r : Rule) : ofName? r.name = some r := by
  cases r <;> decide

end Rule

/-- The rules that can satisfy a requirement. -/
def Requirement.rules : Requirement → List Rule
  | .field .. => Rule.fieldRules
  | .handler _ => Rule.handlerRules

/-- What a requirement under the settings puts into a slot. A handler has no type. -/
def Requirement.value? (s : Settings) (r : Requirement) : Slot → Option String
  | .binding => some s.binding
  | .identifier => some r.identifier
  | .type =>
    match r with
    | .field type _ => some type
    | .handler _ => none

/-- The annotation is always known. -/
@[simp] theorem Requirement.value?_binding (s : Settings) (r : Requirement) :
    r.value? s .binding = some s.binding := rfl

end FxmlWiring
