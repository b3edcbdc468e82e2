import FxmlWiring.Markup.AttributeValue
import FxmlWiring.Markup.Prolog.Token

/-! # Literals of declarations

The replacement text of an entity, and the characters of a public identifier. -/

namespace FxmlWiring.Markup.Prolog

/-- A fault at a place in a literal: the cause, and the rest of the literal from the place on. -/
structure LiteralFault where
  cause : Cause
  left : List Char
deriving Repr, DecidableEq

/-- The replacement text of an entity declared in the document itself, from its literal: character
references are replaced, line breaks become line feeds, other references stay, and parameter
entities cannot be used. -/
def replacementText (a : Alphabet) (s : List Char) : Except LiteralFault (List Char) :=
  match s with
  | [] => .ok []
  | c :: s =>
    if c = '&' then
      match _h : Reference.scan a s with
      | .error (.stray rest) => .error ⟨.invalidToken, rest⟩
      | .error _ => .error ⟨.invalidToken, c :: s⟩
      | .ok (.character code, rest) =>
        match Reference.characterOf? code with
        | none => .error ⟨.invalidCharacterNumber, c :: s⟩
        | some x => (replacementText a rest).map (x :: ·)
      | .ok (.entity name, rest) =>
        (replacementText a rest).map ('&' :: name ++ ';' :: ·)
    else if c = '%' then
      match scanPercent a s with
      | .error (.stray rest) => .error ⟨.invalidToken, rest⟩
      | .error _ => .error ⟨.invalidToken, c :: s⟩
      | .ok (true, _) => .error ⟨.parameterReference, c :: s⟩
      | .ok (false, rest) => .error ⟨.invalidToken, rest⟩
    else if c = '\r' then (replacementText a (skipPairedBreak a c s)).map ('\n' :: ·)
    else (replacementText a s).map (c :: ·)
termination_by s.length
decreasing_by
  · have := Reference.length_scan_lt (by assumption)
    simp only [List.length_cons]
    omega
  · have := Reference.length_scan_lt (by assumption)
    simp only [List.length_cons]
    omega
  · have := length_skipPairedBreak_le a c s
    simp only [List.length_cons]
    omega
  · simp

/-- A character that may stand in a public identifier. -/
def isPublicIdCharacter (c : Char) : Bool :=
  c.isAlphanum || c ∈ " \n\r-'()+,./:=?;!*#@$_%".toList

/-- A public identifier from its first character on that cannot stand in one, if there is such. -/
def publicIdFault? (s : List Char) : Option LiteralFault :=
  match s.dropWhile isPublicIdCharacter with
  | [] => none
  | left => some ⟨.publicId, left⟩

end FxmlWiring.Markup.Prolog
