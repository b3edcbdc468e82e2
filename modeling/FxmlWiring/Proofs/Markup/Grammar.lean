import FxmlWiring.Markup.Enclosed
import FxmlWiring.Markup.Reference

/-! # The grammar of documents

What a document without a document type is made of, said without a reader. Each predicate on texts
is one of the productions of XML 1.0, with its constraints. A **dialect** fixes what the productions
leave open here: the words that are names, and the references that may be made. -/

namespace FxmlWiring.Markup

/-- The words that are names, and the references that may be made. -/
structure Dialect where
  isName : List Char → Prop
  allows : Reference → Prop

/-- Nothing but blanks. -/
def AreBlanks (s : List Char) : Prop :=
  ∀ c ∈ s, isSpace c = true

/-- Nothing but legal characters. -/
def AreLegal (s : List Char) : Prop :=
  ∀ c ∈ s, isLegal c = true

/-! ## Comments and `CDATA` sections -/

/-- The text of a comment: no two hyphens stand next to each other, and none at the end. -/
structure IsCommentText (s : List Char) : Prop where
  areLegal : AreLegal s
  noHyphens : ¬ ['-', '-'] <:+: s
  noLastHyphen : s.getLast? ≠ some '-'

/-- A comment. -/
def IsComment (w : List Char) : Prop :=
  ∃ s, IsCommentText s ∧ w = "<!--".toList ++ s ++ "-->".toList

/-- The text of a `CDATA` section. -/
structure IsCdataText (s : List Char) : Prop where
  areLegal : AreLegal s
  noClosing : ¬ [']', ']', '>'] <:+: s

/-- A `CDATA` section. -/
def IsCdata (w : List Char) : Prop :=
  ∃ s, IsCdataText s ∧ w = "<![CDATA[".toList ++ s ++ "]]>".toList

/-- The text of an instruction after its target: a blank comes first if there is any. -/
structure IsInstructionText (s : List Char) : Prop where
  areLegal : AreLegal s
  noClosing : ¬ ['?', '>'] <:+: s
  startsBlank : ∀ c ∈ s.head?, isSpace c = true

/-- Character data: no markup, and no end of a `CDATA` section. -/
structure IsCharacterData (s : List Char) : Prop where
  areLegal : AreLegal s
  noMarkup : '<' ∉ s ∧ '&' ∉ s
  noClosing : ¬ [']', ']', '>'] <:+: s

/-- The end of a start tag, which may close the element as well. -/
def tagEnd (isEmpty : Bool) : List Char :=
  if isEmpty then "/>".toList else ">".toList

namespace Dialect

variable (g : Dialect)

/-- An instruction. Its target is not the name of the XML declaration in any case. -/
def IsInstruction (w : List Char) : Prop :=
  ∃ target s, g.isName target ∧ isXmlTarget target = false ∧ IsInstructionText s ∧
    w = "<?".toList ++ target ++ s ++ "?>".toList

/-! ## References and attributes -/

/-- How a reference is spelled, from the ampersand on. -/
inductive Spells : List Char → Reference → Prop
  | entity {name : List Char} (hn : g.isName name) : Spells ('&' :: name ++ [';']) (.entity name)
  | decimal {digits : List Char} (hne : digits ≠ []) (hd : ∀ c ∈ digits, c.isDigit = true) :
      Spells ('&' :: '#' :: digits ++ [';']) (.character (Reference.value 10 digits))
  | hexadecimal {digits : List Char} (hne : digits ≠ [])
      (hd : ∀ c ∈ digits, Reference.isHexDigit c = true) :
      Spells ('&' :: '#' :: 'x' :: digits ++ [';']) (.character (Reference.value 16 digits))

/-- A reference that may be made. -/
def IsReference (w : List Char) : Prop :=
  ∃ r, g.Spells w r ∧ g.allows r

/-- What stands between quotes of the kind. -/
inductive IsValue (quote : Char) : List Char → Prop
  | nil : IsValue quote []
  | character {c : Char} {s : List Char} (hc : isLegal c = true) (hq : c ≠ quote)
      (hm : c ≠ '<' ∧ c ≠ '&') (h : IsValue quote s) : IsValue quote (c :: s)
  | reference {w s : List Char} (hw : g.IsReference w) (h : IsValue quote s) :
      IsValue quote (w ++ s)

/-- A row of attributes with their names and values, each with blanks before it. -/
inductive AreAttributes : List (List Char × List Char) → List Char → Prop
  | nil : AreAttributes [] []
  | cons {name value blanks before after : List Char} {quote : Char}
      {xs : List (List Char × List Char)} {s : List Char} (hb : AreBlanks blanks)
      (hne : blanks ≠ []) (hn : g.isName name) (h₁ : AreBlanks before) (h₂ : AreBlanks after)
      (hq : quote = '"' ∨ quote = '\'') (hv : g.IsValue quote value) (h : AreAttributes xs s) :
      AreAttributes ((name, value) :: xs)
        (blanks ++ (name ++ (before ++ '=' :: (after ++ quote :: (value ++ quote :: s)))))

/-! ## Elements -/

/-- A start tag of the name with the attributes, whatever their names. -/
def IsTag (isEmpty : Bool) (name : List Char) (xs : List (List Char × List Char))
    (w : List Char) : Prop :=
  ∃ s blanks, g.isName name ∧ g.AreAttributes xs s ∧ AreBlanks blanks ∧
    w = '<' :: (name ++ (s ++ (blanks ++ tagEnd isEmpty)))

/-- A start tag of the name. No attribute is named twice. -/
def IsStartTag (isEmpty : Bool) (name w : List Char) : Prop :=
  ∃ xs, g.IsTag isEmpty name xs w ∧ (xs.map Prod.fst).Nodup

/-- The end tag of the name. -/
def IsEndTag (name w : List Char) : Prop :=
  ∃ blanks, g.isName name ∧ AreBlanks blanks ∧ w = "</".toList ++ name ++ blanks ++ ['>']

/-- What may stand between character data without being an element. -/
inductive IsItem : List Char → Prop
  | comment {w : List Char} (h : IsComment w) : IsItem w
  | instruction {w : List Char} (h : g.IsInstruction w) : IsItem w
  | cdata {w : List Char} (h : IsCdata w) : IsItem w
  | reference {w : List Char} (h : g.IsReference w) : IsItem w

/-- The content of an element: character data, with items and elements between. -/
inductive IsContent : List Char → Prop
  | data {s : List Char} (hs : IsCharacterData s) : IsContent s
  | item {s w t : List Char} (hs : IsCharacterData s) (hw : g.IsItem w) (ht : IsContent t) :
      IsContent (s ++ (w ++ t))
  | empty {s name w t : List Char} (hs : IsCharacterData s) (hw : g.IsStartTag true name w)
      (ht : IsContent t) : IsContent (s ++ (w ++ t))
  | element {s name w u v t : List Char} (hs : IsCharacterData s)
      (hw : g.IsStartTag false name w) (hu : IsContent u) (hv : g.IsEndTag name v)
      (ht : IsContent t) : IsContent (s ++ (w ++ (u ++ (v ++ t))))

/-- An element: a tag that closes itself, or content between tags of one name. -/
inductive IsElement : List Char → Prop
  | empty {name w : List Char} (hw : g.IsStartTag true name w) : IsElement w
  | tags {name w u v : List Char} (hw : g.IsStartTag false name w) (hu : g.IsContent u)
      (hv : g.IsEndTag name v) : IsElement (w ++ (u ++ v))

/-! ## Documents -/

/-- What may stand around the root element. -/
inductive IsMiscItem : List Char → Prop
  | blank {c : Char} (h : isSpace c = true) : IsMiscItem [c]
  | comment {w : List Char} (h : IsComment w) : IsMiscItem w
  | instruction {w : List Char} (h : g.IsInstruction w) : IsMiscItem w

/-- What stands before or after the root element. -/
inductive IsMisc : List Char → Prop
  | nil : IsMisc []
  | cons {w s : List Char} (hw : g.IsMiscItem w) (h : IsMisc s) : IsMisc (w ++ s)

/-- A document without a declaration and a document type. -/
def IsDocument (s : List Char) : Prop :=
  ∃ before root after, g.IsMisc before ∧ g.IsElement root ∧ g.IsMisc after ∧
    s = before ++ (root ++ after)

/-! ## Dialects with more names and references -/

section Wider

variable {g} {g' : Dialect} (hn : ∀ n, g.isName n → g'.isName n)
include hn

/-- An instruction, with more names. -/
theorem IsInstruction.mono {w : List Char} (h : g.IsInstruction w) : g'.IsInstruction w := by
  obtain ⟨target, s, ht, hx, hs, rfl⟩ := h
  exact ⟨target, s, hn target ht, hx, hs, rfl⟩

/-- The spelling of a reference, with more names. -/
theorem Spells.mono {w : List Char} {r : Reference} (h : g.Spells w r) : g'.Spells w r := by
  cases h with
  | entity h => exact .entity (hn _ h)
  | decimal hne hd => exact .decimal hne hd
  | hexadecimal hne hd => exact .hexadecimal hne hd

/-- An end tag, with more names. -/
theorem IsEndTag.mono {name w : List Char} (h : g.IsEndTag name w) : g'.IsEndTag name w := by
  obtain ⟨blanks, h, hb, rfl⟩ := h
  exact ⟨blanks, hn name h, hb, rfl⟩

/-- What stands around the root element, with more names. -/
theorem IsMisc.mono {s : List Char} (h : g.IsMisc s) : g'.IsMisc s := by
  induction h with
  | nil => exact .nil
  | cons hw _ ih =>
    refine .cons ?_ ih
    cases hw with
    | blank hc => exact .blank hc
    | comment hw => exact .comment hw
    | instruction hw => exact .instruction (hw.mono hn)

variable (hr : ∀ r, g.allows r → g'.allows r)
include hr

/-- A value, with more names and references. -/
theorem IsValue.mono {quote : Char} {s : List Char} (h : g.IsValue quote s) :
    g'.IsValue quote s := by
  induction h with
  | nil => exact .nil
  | character hc hq hm _ ih => exact .character hc hq hm ih
  | reference hw _ ih =>
    obtain ⟨r, hs, ha⟩ := hw
    exact .reference ⟨r, hs.mono hn, hr r ha⟩ ih

/-- A row of attributes, with more names and references. -/
theorem AreAttributes.mono {xs : List (List Char × List Char)} {s : List Char}
    (h : g.AreAttributes xs s) : g'.AreAttributes xs s := by
  induction h with
  | nil => exact .nil
  | cons hb hne h hbefore hafter hq hv _ ih =>
    exact .cons hb hne (hn _ h) hbefore hafter hq (hv.mono hn hr) ih

/-- A start tag, with more names and references. -/
theorem IsTag.mono {isEmpty : Bool} {name w : List Char} {xs : List (List Char × List Char)}
    (h : g.IsTag isEmpty name xs w) : g'.IsTag isEmpty name xs w := by
  obtain ⟨s, blanks, h, hs, hb, rfl⟩ := h
  exact ⟨s, blanks, hn name h, hs.mono hn hr, hb, rfl⟩

end Wider

end Dialect

end FxmlWiring.Markup
