import FxmlWiring.Tree.Node

/-! # Writing a tree as markup

`Node.write` writes a tree as a document: attributes in double quotes, and every character that
would be read as something else as a reference. -/

namespace FxmlWiring

/-- A character of an attribute value as it is written: blanks other than the space would become
spaces, so they are written by number. -/
def Attribute.escape (c : Char) : List Char :=
  match c with
  | '&' => "&amp;".toList
  | '<' => "&lt;".toList
  | '"' => "&quot;".toList
  | '\t' => "&#9;".toList
  | '\n' => "&#10;".toList
  | '\r' => "&#13;".toList
  | c => [c]

/-- An attribute as it is written, with the blank before it. -/
def Attribute.write (a : Attribute) : List Char :=
  ' ' :: a.name.toList ++ '=' :: '"' :: a.value.toList.flatMap Attribute.escape ++ ['"']

namespace Node

/-- A character of character data as it is written. -/
def escape (c : Char) : List Char :=
  match c with
  | '&' => "&amp;".toList
  | '<' => "&lt;".toList
  | '>' => "&gt;".toList
  | c => [c]

mutual

/-- A node as it is written. -/
def write : Node → List Char
  | element tag attributes cs =>
    '<' :: tag.toList ++ attributes.flatMap Attribute.write ++ '>' :: writeAll cs ++
      "</".toList ++ tag.toList ++ ['>']
  | text s => s.toList.flatMap escape
  | cdata s => "<![CDATA[".toList ++ s.toList ++ "]]>".toList
  | comment s => "<!--".toList ++ s.toList ++ "-->".toList

/-- Several nodes as they are written, one after another. -/
def writeAll : List Node → List Char
  | [] => []
  | n :: ns => n.write ++ writeAll ns

end

/-- Nodes in a row are written in a row. -/
@[simp] theorem writeAll_append (ns ms : List Node) :
    writeAll (ns ++ ms) = writeAll ns ++ writeAll ms := by
  induction ns with
  | nil => simp [writeAll]
  | cons n ns ih => simp [writeAll, ih]

end Node

end FxmlWiring
