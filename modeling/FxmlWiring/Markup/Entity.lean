import FxmlWiring.Markup.Reference

/-! # Declared entities and attribute types

What a document type declares and the rest of the document depends on: the **entities** with their
replacement texts, and the attributes whose values are lists of **tokens** rather than character
data. -/

namespace FxmlWiring.Markup

/-- What a general entity stands for. -/
inductive Entity where
  /-- A replacement text. -/
  | internal (text : List Char)
  /-- A text outside the document, which is not read. -/
  | external
  /-- Something that is no text. -/
  | unparsed
deriving Repr, DecidableEq

/-- Entities by name. -/
abbrev Entities := List (List Char × Entity)

namespace Entities

/-- The entities without those of a name. -/
def without (name : List Char) (es : Entities) : Entities :=
  es.filter (·.1 ≠ name)

theorem length_without_lt {name : List Char} {es : Entities} {e : Entity}
    (h : es.lookup name = some e) : (es.without name).length < es.length := by
  induction es with
  | nil => simp at h
  | cons x es ih =>
    obtain ⟨n, v⟩ := x
    by_cases hn : n = name
    · subst hn
      have : (without n es).length ≤ es.length := List.length_filter_le ..
      simp only [without, ne_eq, not_true_eq_false, decide_false, Bool.false_eq_true,
        not_false_eq_true, List.filter_cons_of_neg, List.length_cons] at *
      omega
    · have hb : (name == n) = false := by simp [Ne.symm hn]
      rw [List.lookup_cons, hb] at h
      have := ih h
      simp only [without, ne_eq, hn, not_false_eq_true, decide_true, List.filter_cons_of_pos,
        List.length_cons] at *
      omega

end Entities

/-- What has been declared so far. -/
structure Declarations where
  entities : Entities := []
  /-- For an element and an attribute of it, whether the value is a list of tokens. The first entry
  of a pair counts. -/
  attributeTypes : List ((List Char × List Char) × Bool) := []
  /-- The elements whose content is declared. -/
  elements : List (List Char) := []
  /-- Whether more may be declared outside the document. -/
  isOpen : Bool := false
  /-- Whether the document says that nothing outside matters. -/
  standalone : Bool := false
  /-- Whether declarations still count. -/
  counting : Bool := true
deriving Repr, DecidableEq

namespace Declarations

/-- Whether every entity in use has to be declared. -/
def isStrict (d : Declarations) : Bool :=
  !d.isOpen || d.standalone

/-- Whether an entity of the name is declared. -/
def declares (d : Declarations) (name : List Char) : Bool :=
  d.entities.any (·.1 = name)

/-- One more entity. The first declaration of a name counts, and predefined names are taken. -/
def declare (d : Declarations) (name : List Char) (e : Entity) : Declarations :=
  if !d.counting || (Reference.predefined? name).isSome || d.declares name then d
  else { d with entities := d.entities ++ [(name, e)] }

/-- One more attribute. -/
def declareAttribute (d : Declarations) (element name : List Char) (isTokens : Bool) :
    Declarations :=
  if d.counting then
    { d with attributeTypes := d.attributeTypes ++ [((element, name), isTokens)] }
  else d

/-- Whether the value of an attribute is a list of tokens. -/
def isTokens (d : Declarations) (element name : List Char) : Bool :=
  (d.attributeTypes.lookup (element, name)).getD false

/-- What holds once something outside the document has been named. -/
def opened (d : Declarations) : Declarations :=
  { d with isOpen := true }

/-- What holds after the use of a parameter entity, which is not read: declarations after it count
only if the document stands alone. -/
def skipParameter (d : Declarations) : Declarations :=
  { d with isOpen := true, counting := d.standalone }

end Declarations

end FxmlWiring.Markup
