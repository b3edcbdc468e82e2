import FxmlWiring.Markup.Entity

/-! # Attribute values

A value is **expanded**: references are replaced by what they name, and blanks become spaces. In a
list of tokens, spaces are then **squeezed**: none at the ends, and one between tokens. -/

namespace FxmlWiring.Markup

/-- A fault in a value: the cause, and the rest of the value from the faulty place on if the fault
is at a place in it. -/
structure ValueFault where
  cause : Cause
  left : Option (List Char)
deriving Repr, DecidableEq

/-- The text after a line feed at its front, if a carriage return that breaks lines stood before
it. -/
def skipPairedBreak (a : Alphabet) (c : Char) (s : List Char) : List Char :=
  match s with
  | '\n' :: r => if c = '\r' ∧ a.breaksAtReturn then r else s
  | _ => s

theorem length_skipPairedBreak_le (a : Alphabet) (c : Char) (s : List Char) :
    (skipPairedBreak a c s).length ≤ s.length := by
  unfold skipPairedBreak
  split
  · split <;> simp
  · simp

/-- The value with references replaced and blanks as spaces. `closed` are the entities that can be
used; an entity is not among them inside its own replacement text. -/
def expandValue (d : Declarations) (a : Alphabet) (closed : Entities) (s : List Char) :
    Except ValueFault (List Char) :=
  match s with
  | [] => .ok []
  | c :: s =>
    if c = '&' then
      match _h : Reference.scan a s with
      | .error (.stray rest) => .error ⟨.invalidToken, some rest⟩
      | .error _ => .error ⟨.invalidToken, some (c :: s)⟩
      | .ok (.character code, rest) =>
        match Reference.characterOf? code with
        | none => .error ⟨.invalidCharacterNumber, some (c :: s)⟩
        | some x => (expandValue d a closed rest).map (x :: ·)
      | .ok (.entity name, rest) =>
        match Reference.predefined? name with
        | some x => (expandValue d a closed rest).map (x :: ·)
        | none =>
          match _h : closed.lookup name with
          | some (.internal text) =>
            match expandValue d .internal (closed.without name) text with
            | .error f => .error ⟨f.cause, none⟩
            | .ok inner => (expandValue d a closed rest).map (inner ++ ·)
          | some .external => .error ⟨.externalEntityInAttribute, some (c :: s)⟩
          | some .unparsed => .error ⟨.binaryEntity, some (c :: s)⟩
          | none =>
            if d.declares name then .error ⟨.recursiveEntity, none⟩
            else if d.isStrict then .error ⟨.undefinedEntity, none⟩
            else expandValue d a closed rest
    else if c = '<' then .error ⟨.invalidToken, some (c :: s)⟩
    else if isSpace c then (expandValue d a closed (skipPairedBreak a c s)).map (' ' :: ·)
    else (expandValue d a closed s).map (c :: ·)
termination_by (closed.length, s.length)
decreasing_by
  · have := Reference.length_scan_lt (by assumption)
    apply Prod.Lex.right
    simp only [List.length_cons]
    omega
  · have := Reference.length_scan_lt (by assumption)
    apply Prod.Lex.right
    simp only [List.length_cons]
    omega
  · exact Prod.Lex.left _ _ (Entities.length_without_lt (by assumption))
  · have := Reference.length_scan_lt (by assumption)
    apply Prod.Lex.right
    simp only [List.length_cons]
    omega
  · have := Reference.length_scan_lt (by assumption)
    apply Prod.Lex.right
    simp only [List.length_cons]
    omega
  · have := length_skipPairedBreak_le a c s
    apply Prod.Lex.right
    simp only [List.length_cons]
    omega
  · apply Prod.Lex.right
    simp

/-- One space for every run of spaces. The first argument tells whether a space has just gone
before. -/
def squeezeFrom : Bool → List Char → List Char
  | _, [] => []
  | afterSpace, c :: s =>
    if c = ' ' then
      if afterSpace then squeezeFrom true s else ' ' :: squeezeFrom true s
    else c :: squeezeFrom false s

/-- The text with no spaces at its ends and single spaces elsewhere. -/
def squeeze (s : List Char) : List Char :=
  let t := squeezeFrom true s
  if t.getLast? = some ' ' then t.dropLast else t

/-- The value of an attribute, from what stands between its quotes. -/
def readValue (d : Declarations) (a : Alphabet) (closed : Entities) (isTokens : Bool)
    (s : List Char) : Except ValueFault (List Char) :=
  (expandValue d a closed s).map fun t => if isTokens then squeeze t else t

end FxmlWiring.Markup
