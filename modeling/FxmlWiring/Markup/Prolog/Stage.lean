import FxmlWiring.Markup.Prolog.Literal

/-! # Stages of the prolog

Where reading stands between two tokens outside the root element is a **stage**: in the document
type, in the middle of a declaration, or between declarations. `Stage.next` says to which stage a
token leads and what it declares; a token that cannot stand there is a fault. -/

namespace FxmlWiring.Markup.Prolog

/-! ## Stages -/

/-- The entity that a declaration is about. -/
inductive Declared where
  | general (name : List Char)
  | parameter
deriving Repr, DecidableEq

/-- A stage of the prolog. -/
inductive Stage where
  /-- Before the document type. -/
  | opening
  /-- After `<!DOCTYPE`. -/
  | doctypeName
  | doctypeBody
  | doctypePublicId
  | doctypeSystemId
  /-- After the external identifier of the document type. -/
  | doctypeSubset
  /-- Between the declarations of the internal subset. -/
  | subset
  /-- After the internal subset. -/
  | doctypeEnd
  /-- After the document type. -/
  | closing
  | entityName
  | parameterName
  | entityBody (entity : Declared)
  | entityPublicId (entity : Declared)
  | entitySystemId (entity : Declared)
  | entityEnd (entity : Declared)
  | entityNotation (name : List Char)
  | notationName
  | notationBody
  | notationPublicId
  | notationSystemId
  | notationEnd
  | attributesElement
  | attributeName (element : List Char)
  | attributeType (element name : List Char)
  | choice (element name : List Char)
  | choiceNext (element name : List Char)
  | notationChoices (element name : List Char)
  | notationChoice (element name : List Char)
  | notationChoiceNext (element name : List Char)
  | attributeDefault (element name : List Char) (isTokens : Bool)
  | attributeFixed (element name : List Char) (isTokens : Bool)
  | elementName
  | elementModel (element : List Char)
  /-- After the first parenthesis of a content model. -/
  | groupStart (element : List Char)
  /-- After `#PCDATA`. -/
  | mixedStart (element : List Char)
  | mixedName (element : List Char)
  | mixedNext (element : List Char)
  /-- Before a member of a group. The connectors of the open groups, the innermost first. -/
  | member (element : List Char) (connectors : List (Option Char))
  /-- After a member of a group. -/
  | memberNext (element : List Char) (connector : Option Char) (outer : List (Option Char))
  /-- Before the `>` of a declaration. -/
  | declarationEnd
deriving Repr, DecidableEq

/-- Why the prolog cannot be read. -/
inductive Failure where
  | fault (f : Fault)
  | repeatedElement
deriving Repr, DecidableEq

/-! ## Steps that declare something -/

/-- The stage after a token, with what is declared then. -/
abbrev Step := Except Failure (Stage × Declarations)

/-- A token that cannot stand where it does. -/
def unexpected (t : Token) (here : List Char) : Step :=
  let cause : Cause :=
    match t with
    | .parameterReference => .parameterReference
    | .xmlDeclaration => .misplacedDeclaration
    | _ => .unexpectedToken
  .error (.fault ⟨cause, here⟩)

/-- The stage after a public identifier, if it is one. -/
def publicIdStep (value valueEnd : List Char) (stage : Stage) (d : Declarations) : Step :=
  match publicIdFault? value with
  | some f => .error (.fault ⟨f.cause, f.left ++ valueEnd⟩)
  | none => .ok (stage, d)

/-- An entity with a replacement text, declared by a literal. Half a code unit in it is found only
when the literal is looked into. -/
def entityStep (a : Alphabet) (d : Declarations) (entity : Declared)
    (value valueEnd : List Char) (isCut : Bool) : Step :=
  if d.counting then
    match replacementText a value with
    | .error f => .error (.fault ⟨f.cause, f.left ++ valueEnd⟩)
    | .ok text =>
      if isCut then .error (.fault ⟨.invalidToken, valueEnd⟩)
      else
        match entity with
        | .general name => .ok (.declarationEnd, d.declare name (.internal text))
        | .parameter => .ok (.declarationEnd, d)
  else .ok (.declarationEnd, d)

/-- An attribute declared with a default value, which has to be a value. The default itself is not
used. -/
def defaultStep (a : Alphabet) (d : Declarations) (element name : List Char) (isTokens : Bool)
    (value valueEnd : List Char) (isCut : Bool) (here : List Char) : Step :=
  let declared : Step := .ok (.attributeName element, d.declareAttribute element name isTokens)
  if d.counting then
    match readValue d a d.entities isTokens value with
    | .error ⟨cause, some left⟩ => .error (.fault ⟨cause, left ++ valueEnd⟩)
    | .error ⟨cause, none⟩ => .error (.fault ⟨cause, here⟩)
    | .ok _ => if isCut then .error (.fault ⟨.invalidToken, valueEnd⟩) else declared
  else declared

/-- An element declared with its content model, which can be done once. -/
def elementStep (d : Declarations) (element : List Char) : Step :=
  if element ∈ d.elements then .error .repeatedElement
  else .ok (.declarationEnd, { d with elements := element :: d.elements })

/-- The types of attributes whose values are lists of tokens. -/
def tokenTypes : List String :=
  ["ID", "IDREF", "IDREFS", "ENTITY", "ENTITIES", "NMTOKEN", "NMTOKENS"]

/-! ## From stage to stage -/

namespace Stage

/-- A token between declarations of the internal subset. -/
def nextInSubset (d : Declarations) (t : Token) (here : List Char) : Step :=
  match t with
  | .comment | .instruction => .ok (.subset, d)
  | .parameterReference => .ok (.subset, d.skipParameter)
  | .closeBracket => .ok (.doctypeEnd, d)
  | .declaration keyword =>
    match String.ofList keyword with
    | "ENTITY" => .ok (.entityName, d)
    | "ATTLIST" => .ok (.attributesElement, d)
    | "ELEMENT" => .ok (.elementName, d)
    | "NOTATION" => .ok (.notationName, d)
    | _ => unexpected t here
  | _ => unexpected t here

/-- A token of the document type outside the declarations of its subset. -/
def nextInDoctype (d : Declarations) (stage : Stage) (t : Token) (here : List Char) : Step :=
  match stage, t with
  | .doctypeName, .name _ none => .ok (.doctypeBody, d)
  | .doctypeBody, .openBracket => .ok (.subset, d)
  | .doctypeBody, .close => .ok (.closing, d)
  | .doctypeBody, .name word none =>
    match String.ofList word with
    | "SYSTEM" => .ok (.doctypeSystemId, d)
    | "PUBLIC" => .ok (.doctypePublicId, d)
    | _ => unexpected t here
  | .doctypePublicId, .literal value valueEnd _ =>
    publicIdStep value valueEnd .doctypeSystemId d.opened
  | .doctypeSystemId, .literal _ _ _ => .ok (.doctypeSubset, d.opened)
  | .doctypeSubset, .openBracket => .ok (.subset, d)
  | .doctypeSubset, .close => .ok (.closing, d)
  | .doctypeEnd, .close => .ok (.closing, d)
  | _, _ => unexpected t here

/-- A token of an entity declaration. -/
def nextInEntity (a : Alphabet) (d : Declarations) (stage : Stage) (t : Token)
    (here : List Char) : Step :=
  match stage, t with
  | .entityName, .percent => .ok (.parameterName, d)
  | .entityName, .name name none => .ok (.entityBody (.general name), d)
  | .parameterName, .name _ none => .ok (.entityBody .parameter, d)
  | .entityBody entity, .literal value valueEnd isCut => entityStep a d entity value valueEnd isCut
  | .entityBody entity, .name word none =>
    match String.ofList word with
    | "SYSTEM" => .ok (.entitySystemId entity, d)
    | "PUBLIC" => .ok (.entityPublicId entity, d)
    | _ => unexpected t here
  | .entityPublicId entity, .literal value valueEnd _ =>
    publicIdStep value valueEnd (.entitySystemId entity) d
  | .entitySystemId entity, .literal _ _ _ => .ok (.entityEnd entity, d)
  | .entityEnd (.general name), .close => .ok (.subset, d.declare name .external)
  | .entityEnd .parameter, .close => .ok (.subset, d)
  | .entityEnd (.general name), .name word none =>
    if String.ofList word = "NDATA" then .ok (.entityNotation name, d) else unexpected t here
  | .entityNotation name, .name _ none => .ok (.declarationEnd, d.declare name .unparsed)
  | _, _ => unexpected t here

/-- A token of a notation declaration. -/
def nextInNotation (d : Declarations) (stage : Stage) (t : Token) (here : List Char) : Step :=
  match stage, t with
  | .notationName, .name _ none => .ok (.notationBody, d)
  | .notationBody, .name word none =>
    match String.ofList word with
    | "SYSTEM" => .ok (.notationSystemId, d)
    | "PUBLIC" => .ok (.notationPublicId, d)
    | _ => unexpected t here
  | .notationPublicId, .literal value valueEnd _ => publicIdStep value valueEnd .notationEnd d
  | .notationSystemId, .literal _ _ _ => .ok (.declarationEnd, d)
  | .notationEnd, .literal _ _ _ => .ok (.declarationEnd, d)
  | .notationEnd, .close => .ok (.subset, d)
  | _, _ => unexpected t here

/-- A token of a declaration of attributes. -/
def nextInAttributes (a : Alphabet) (d : Declarations) (stage : Stage) (t : Token)
    (here : List Char) : Step :=
  match stage, t with
  | .attributesElement, .name element none => .ok (.attributeName element, d)
  | .attributeName _, .close => .ok (.subset, d)
  | .attributeName element, .name name none => .ok (.attributeType element name, d)
  | .attributeType element name, .openParen => .ok (.choice element name, d)
  | .attributeType element name, .name word none =>
    if String.ofList word = "CDATA" then .ok (.attributeDefault element name false, d)
    else if String.ofList word ∈ tokenTypes then .ok (.attributeDefault element name true, d)
    else if String.ofList word = "NOTATION" then .ok (.notationChoices element name, d)
    else unexpected t here
  | .choice element name, .nameToken => .ok (.choiceNext element name, d)
  | .choice element name, .name _ none => .ok (.choiceNext element name, d)
  | .choiceNext element name, .bar => .ok (.choice element name, d)
  | .choiceNext element name, .closeParen none => .ok (.attributeDefault element name true, d)
  | .notationChoices element name, .openParen => .ok (.notationChoice element name, d)
  | .notationChoice element name, .name _ none => .ok (.notationChoiceNext element name, d)
  | .notationChoiceNext element name, .bar => .ok (.notationChoice element name, d)
  | .notationChoiceNext element name, .closeParen none =>
    .ok (.attributeDefault element name true, d)
  | .attributeDefault element name isTokens, .keyword word =>
    match String.ofList word with
    | "IMPLIED" | "REQUIRED" =>
      .ok (.attributeName element, d.declareAttribute element name isTokens)
    | "FIXED" => .ok (.attributeFixed element name isTokens, d)
    | _ => unexpected t here
  | .attributeDefault element name isTokens, .literal value valueEnd isCut =>
    defaultStep a d element name isTokens value valueEnd isCut here
  | .attributeFixed element name isTokens, .literal value valueEnd isCut =>
    defaultStep a d element name isTokens value valueEnd isCut here
  | _, _ => unexpected t here

/-- A token of an element declaration. The members of one group are connected by one kind of
connector. -/
def nextInElement (d : Declarations) (stage : Stage) (t : Token) (here : List Char) : Step :=
  match stage, t with
  | .elementName, .name element none => .ok (.elementModel element, d)
  | .elementModel element, .name word none =>
    if String.ofList word ∈ ["EMPTY", "ANY"] then elementStep d element else unexpected t here
  | .elementModel element, .openParen => .ok (.groupStart element, d)
  | .groupStart element, .keyword word =>
    if String.ofList word = "PCDATA" then .ok (.mixedStart element, d) else unexpected t here
  | .groupStart element, .openParen => .ok (.member element [none, none], d)
  | .groupStart element, .name _ _ => .ok (.memberNext element none [], d)
  | .mixedStart element, .closeParen none => elementStep d element
  | .mixedStart element, .closeParen (some '*') => elementStep d element
  | .mixedStart element, .bar => .ok (.mixedName element, d)
  | .mixedName element, .name _ none => .ok (.mixedNext element, d)
  | .mixedNext element, .closeParen (some '*') => elementStep d element
  | .mixedNext element, .bar => .ok (.mixedName element, d)
  | .member element connectors, .openParen => .ok (.member element (none :: connectors), d)
  | .member element (connector :: outer), .name _ _ => .ok (.memberNext element connector outer, d)
  | .memberNext element _ [], .closeParen _ => elementStep d element
  | .memberNext element _ (connector :: outer), .closeParen _ =>
    .ok (.memberNext element connector outer, d)
  | .memberNext element connector outer, .comma =>
    if connector = some '|' then unexpected t here
    else .ok (.member element (some ',' :: outer), d)
  | .memberNext element connector outer, .bar =>
    if connector = some ',' then unexpected t here
    else .ok (.member element (some '|' :: outer), d)
  | _, _ => unexpected t here

/-- The stage after a token that starts where `here` does. Blanks may stand everywhere, comments and
instructions outside declarations. -/
def next (a : Alphabet) (d : Declarations) (stage : Stage) (t : Token) (here : List Char) : Step :=
  if t = .space then .ok (stage, d)
  else
    match stage with
    | .opening =>
      match t with
      | .comment | .instruction => .ok (.opening, d)
      | .declaration keyword =>
        if String.ofList keyword = "DOCTYPE" then .ok (.doctypeName, d) else unexpected t here
      | _ => unexpected t here
    | .closing =>
      match t with
      | .comment | .instruction => .ok (.closing, d)
      | _ => unexpected t here
    | .subset => nextInSubset d t here
    | .doctypeName | .doctypeBody | .doctypePublicId | .doctypeSystemId | .doctypeSubset
    | .doctypeEnd => nextInDoctype d stage t here
    | .entityName | .parameterName | .entityBody _ | .entityPublicId _ | .entitySystemId _
    | .entityEnd _ | .entityNotation _ => nextInEntity a d stage t here
    | .notationName | .notationBody | .notationPublicId | .notationSystemId | .notationEnd =>
      nextInNotation d stage t here
    | .attributesElement | .attributeName _ | .attributeType _ _ | .choice _ _ | .choiceNext _ _
    | .notationChoices _ _ | .notationChoice _ _ | .notationChoiceNext _ _
    | .attributeDefault _ _ _ | .attributeFixed _ _ _ => nextInAttributes a d stage t here
    | .elementName | .elementModel _ | .groupStart _ | .mixedStart _ | .mixedName _ | .mixedNext _
    | .member _ _ | .memberNext _ _ _ => nextInElement d stage t here
    | .declarationEnd => if t = .close then .ok (.subset, d) else unexpected t here

/-- Whether the root element may start. -/
def allowsRoot (stage : Stage) : Bool :=
  stage = .opening || stage = .closing

end Stage

end FxmlWiring.Markup.Prolog
