import FxmlWiring.Rule.Search

/-! # Rules as regular expressions

The **template** of a rule is its shape in the notation of regular expressions, with a name in
braces for each slot; the **pattern** is the template with the values of a requirement. A value
stands for itself, so its special characters are escaped. `Pattern.fill?` replaces the names of a
template in one go, so a name in braces that comes in with a value is left alone. -/

namespace FxmlWiring

namespace Pattern

/-- The characters that mean something else than themselves in a regular expression, and the
blanks. -/
def specials : List Char :=
  "()[]\x7b\x7d?*+-|^$\\.&~# \t\n\r\x0b\x0c".toList

/-- The expression for exactly this text: a backslash before every special character. -/
def escape : List Char → List Char
  | [] => []
  | c :: s => if c ∈ specials then '\\' :: c :: escape s else c :: escape s

@[simp] theorem escape_append (s t : List Char) : escape (s ++ t) = escape s ++ escape t := by
  induction s with
  | nil => rfl
  | cons c s ih => by_cases h : c ∈ specials <;> simp [escape, h, ih]

end Pattern

/-- One or more blanks. -/
def Pattern.gap : String := "\\s+"

/-- Any number of blanks. -/
def Pattern.optionalGap : String := "\\s*"

/-- One or more characters. -/
def Pattern.filler : String := ".+"

/-- An access word and a gap, or nothing. -/
def Pattern.access : String :=
  "(?:(?:" ++ String.intercalate "|" Piece.accessWords ++ ")" ++ gap ++ ")?"

/-- A name in braces. -/
def Pattern.placeholder (name : String) : String :=
  "\x7b" ++ name ++ "\x7d"

/-- The rest of a template with each name in braces replaced by its text. Inside of braces, the
front of the name has been read already. There is no answer for an unknown name, nor for a brace
without its partner. -/
def Pattern.fillFrom? (text? : String → Option String) :
    Option (List Char) → List Char → Option (List Char)
  | none, [] => some []
  | some _, [] => none
  | none, c :: s =>
    if c = '\x7b' then fillFrom? text? (some []) s
    else if c = '\x7d' then none
    else (fillFrom? text? none s).map (c :: ·)
  | some name, c :: s =>
    if c = '\x7d' then
      (text? (.ofList name)).bind fun t => (fillFrom? text? none s).map (t.toList ++ ·)
    else fillFrom? text? (some (name ++ [c])) s

/-- A template with each name in braces replaced by its text. -/
def Pattern.fill? (text? : String → Option String) (template : String) : Option String :=
  (fillFrom? text? none template.toList).map String.ofList

/-- A part in the notation of templates. -/
def Part.template : Part → String
  | slot s => Pattern.placeholder s.name
  | word w => .ofList (Pattern.escape w.toList)
  | access => Pattern.placeholder "access"
  | gap => Pattern.gap
  | optionalGap => Pattern.optionalGap
  | filler => Pattern.filler

/-- A piece as a regular expression. -/
def Piece.pattern : Piece → String
  | literal w => .ofList (Pattern.escape w)
  | access => Pattern.access
  | gap => Pattern.gap
  | optionalGap => Pattern.optionalGap
  | filler => Pattern.filler

/-- What a name in a template stands for: the access words, or an escaped value. -/
def Requirement.text? (s : Settings) (r : Requirement) (name : String) : Option String :=
  if name = "access" then some Pattern.access
  else
    (Slot.ofName? name).bind fun slot =>
      (r.value? s slot).map fun v => .ofList (Pattern.escape v.toList)

namespace Rule

/-- The rule's shape with a name in braces for each slot. -/
def template (rule : Rule) : String :=
  String.join (rule.shape.map Part.template)

/-- The regular expression that finds the declarations which the rule accepts for a requirement. -/
def pattern (rule : Rule) (s : Settings) (r : Requirement) : Except Slot String :=
  (rule.pieces s r).map fun ps => String.join (ps.map Piece.pattern)

end Rule

end FxmlWiring
