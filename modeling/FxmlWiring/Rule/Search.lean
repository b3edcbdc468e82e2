import FxmlWiring.Rule.Basic
import FxmlWiring.Text.Basic

/-! # Searching for a declaration

A shape whose slots are filled is a list of **pieces**. `Piece.fit` matches pieces at the front of a
text: every piece takes as much as it can and gives back only what the pieces after it need.
`Rule.find?` gives the leftmost place where a rule's pieces fit. -/

namespace FxmlWiring

open Text

/-- A part of a shape with its slot filled. -/
inductive Piece where
  /-- Exactly these characters. -/
  | literal (w : List Char)
  | access
  | gap
  | optionalGap
  | filler
deriving Repr, DecidableEq

namespace Piece

/-- The front of the text is taken by characters of a class, as many as possible, such that the rest
still goes on: the first answer for the longest run. -/
def longest (p : Char → Bool) (k : List Char → Option α) : List Char → Option α
  | [] => k []
  | c :: s => if p c then (longest p k s).or (k (c :: s)) else k (c :: s)

/-- As `longest`, with at least one character taken. -/
def longestSome (p : Char → Bool) (k : List Char → Option α) : List Char → Option α
  | [] => none
  | c :: s => if p c then longest p k s else none

/-- The text after a leading word. -/
def after? (w s : List Char) : Option (List Char) :=
  if w.isPrefixOf s then some (s.drop w.length) else none

/-- The access words that may stand between an annotation and a declaration. -/
def accessWords : List String :=
  ["private", "protected"]

/-- What is left of the text when the pieces have taken their greedy share of its front. -/
def fit : List Piece → List Char → Option (List Char)
  | [], s => some s
  | literal w :: ps, s => (after? w s).bind (fit ps)
  | gap :: ps, s => longestSome isBlank (fit ps) s
  | optionalGap :: ps, s => longest isBlank (fit ps) s
  | filler :: ps, s => longestSome (fun _ => true) (fit ps) s
  | access :: ps, s =>
    (accessWords.findSome? fun w =>
      (after? w.toList s).bind (longestSome isBlank (fit ps))).or (fit ps s)

/-- The leftmost place where the pieces fit, as offsets of its start and its end, for a text that
starts at the offset. -/
def find? (ps : List Piece) (offset : Nat) : List Char → Option (Nat × Nat)
  | [] =>
    match fit ps [] with
    | some _ => some (offset, offset)
    | none => none
  | c :: s =>
    match fit ps (c :: s) with
    | some rest => some (offset, offset + ((c :: s).length - rest.length))
    | none => find? ps (offset + 1) s

end Piece

/-- A part with its slot filled, or the slot that has no value. -/
def Part.fill (value? : Slot → Option String) : Part → Except Slot Piece
  | slot s =>
    match value? s with
    | some v => .ok (.literal v.toList)
    | none => .error s
  | word w => .ok (.literal w.toList)
  | access => .ok .access
  | gap => .ok .gap
  | optionalGap => .ok .optionalGap
  | filler => .ok .filler

namespace Rule

/-- The pieces of a rule for a requirement, or the first slot that the requirement cannot fill. -/
def pieces (rule : Rule) (s : Settings) (r : Requirement) : Except Slot (List Piece) :=
  rule.shape.mapM (Part.fill (r.value? s))

/-- The leftmost declaration in the text that the rule accepts, as offsets of its start and end. -/
def find? (rule : Rule) (s : Settings) (r : Requirement) (source : String) :
    Except Slot (Option (Nat × Nat)) :=
  (rule.pieces s r).map fun ps => Piece.find? ps 0 source.toList

/-- Whether a declaration that the rule accepts stands in the text. -/
def accepts (rule : Rule) (s : Settings) (r : Requirement) (source : String) : Bool :=
  match rule.find? s r source with
  | .ok (some _) => true
  | _ => false

end Rule

/-- The first rule, in the order of the requirement's rules, that accepts a declaration in the
text. -/
def Requirement.acceptedBy? (s : Settings) (r : Requirement) (source : String) : Option Rule :=
  r.rules.find? fun rule => rule.accepts s r source

end FxmlWiring
