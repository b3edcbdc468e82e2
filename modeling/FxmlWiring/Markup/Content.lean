import FxmlWiring.Markup.AttributeValue
import FxmlWiring.Markup.Enclosed
import FxmlWiring.Markup.Tag
import FxmlWiring.Tree.Node

/-! # Content of elements

`scanContent` takes the next **content token** off a text: a tag, a reference, or something that
adds no element. `readContent` builds the elements, with the open ones on a stack. The replacement
text of an entity is content too, and elements have to nest within it; a fault in it is a fault of
the reference. -/

namespace FxmlWiring.Markup

/-! ## Tokens of content -/

/-- What content is made of. -/
inductive ContentToken where
  | startTag (tag : StartTag)
  /-- An end tag, with the text from its name on. -/
  | endTag (name nameAt : List Char)
  | reference (r : Reference)
  /-- A character, comment, instruction or `CDATA` section. -/
  | ignorable
  /-- An XML declaration, which cannot stand in content. -/
  | declaration
deriving Repr, DecidableEq

/-- The result of a scan, its halt as a fault of the token at the front of the text. -/
def Scan.toToken (ending : Ending) (text : List Char) (scanned : Scan α) (f : α → ContentToken) :
    Except Fault (ContentToken × List Char) :=
  match scanned with
  | .error h => .error (h.toFault ending text)
  | .ok (x, rest) => .ok (f x, rest)

/-- The rest after something ignorable. -/
def ignoring (ending : Ending) (text : List Char) (scanned : Except Halt (List Char)) :
    Except Fault (ContentToken × List Char) :=
  match scanned with
  | .error h => .error (h.toFault ending text)
  | .ok rest => .ok (.ignorable, rest)

/-- Scans the next token of content. -/
def scanContent (a : Alphabet) (ending : Ending) (text : List Char) :
    Except Fault (ContentToken × List Char) :=
  match text with
  | [] => .error (Halt.endOfText.toFault ending [])
  | '<' :: '/' :: s => (scanEndTag a s).toToken ending text (.endTag · s)
  | '<' :: '!' :: '-' :: s => ignoring ending text (scanComment s)
  | '<' :: '!' :: '[' :: s =>
    match scanCdataStart a ending s with
    | .error h => .error (h.toFault ending text)
    | .ok s => (readCdata ending s).map (.ignorable, ·)
  | '<' :: '!' :: [] => .error (Halt.endOfMarkup.toFault ending text)
  | '<' :: '!' :: s => .error ⟨.invalidToken, s⟩
  | '<' :: '?' :: s =>
    (scanInstruction a s).toToken ending text fun target =>
      if target = ['x', 'm', 'l'] then .declaration else .ignorable
  | '<' :: s => (scanStartTag a s).toToken ending text .startTag
  | '&' :: s => (Reference.scan a s).toToken ending text .reference
  | ']' :: ']' :: '>' :: s => .error ⟨.invalidToken, '>' :: s⟩
  | c :: s => if isLegal c then .ok (.ignorable, s) else .error ⟨.invalidToken, c :: s⟩

theorem length_toToken_lt {α : Type} {ending : Ending} {text s r : List Char} {scanned : Scan α}
    {f : α → ContentToken} {t : ContentToken} (hs : s.length < text.length)
    (hlt : ∀ x u, scanned = .ok (x, u) → u.length ≤ s.length)
    (h : scanned.toToken ending text f = .ok (t, r)) : r.length < text.length := by
  unfold Scan.toToken at h
  split at h
  · simp at h
  · simp only [Except.ok.injEq, Prod.mk.injEq] at h
    obtain ⟨-, rfl⟩ := h
    exact Nat.lt_of_le_of_lt (hlt _ _ rfl) hs

theorem length_ignoring_lt {ending : Ending} {text s r : List Char}
    {scanned : Except Halt (List Char)} {t : ContentToken} (hs : s.length < text.length)
    (hlt : ∀ u, scanned = .ok u → u.length ≤ s.length)
    (h : ignoring ending text scanned = .ok (t, r)) : r.length < text.length := by
  unfold ignoring at h
  split at h
  · simp at h
  · simp only [Except.ok.injEq, Prod.mk.injEq] at h
    obtain ⟨-, rfl⟩ := h
    exact Nat.lt_of_le_of_lt (hlt _ rfl) hs

/-- A token of content takes at least one character. -/
theorem length_scanContent_lt {a : Alphabet} {ending : Ending} {text r : List Char}
    {t : ContentToken} (h : scanContent a ending text = .ok (t, r)) : r.length < text.length := by
  unfold scanContent at h
  split at h
  · simp at h
  · rename_i s
    exact length_toToken_lt (s := s) (by simp only [List.length_cons]; omega)
      (fun _ _ h => Nat.le_of_lt (length_scanEndTag_lt h)) h
  · rename_i s
    exact length_ignoring_lt (s := s) (by simp only [List.length_cons]; omega)
      (fun _ h => Nat.le_of_lt (length_scanComment_lt h)) h
  · split at h
    · simp at h
    · rename_i s _ u hu
      have hu := length_scanCdataStart_le hu
      cases hc : readCdata ending u with
      | error e => simp [hc, Except.map] at h
      | ok v =>
        have := length_readCdata_lt hc
        simp only [hc, Except.map, Except.ok.injEq, Prod.mk.injEq] at h
        obtain ⟨-, rfl⟩ := h
        simp only [List.length_cons]
        omega
  · simp at h
  · simp at h
  · rename_i s
    exact length_toToken_lt (s := s) (by simp only [List.length_cons]; omega)
      (fun _ _ h => Nat.le_of_lt (length_scanInstruction_lt h)) h
  · rename_i s _ _ _ _ _ _
    exact length_toToken_lt (s := s) (by simp)
      (fun _ _ h => Nat.le_of_lt (length_scanStartTag_lt h)) h
  · rename_i s
    exact length_toToken_lt (s := s) (by simp)
      (fun _ _ h => Nat.le_of_lt (Reference.length_scan_lt h)) h
  · simp at h
  · split at h
    · simp only [Except.ok.injEq, Prod.mk.injEq] at h
      obtain ⟨-, rfl⟩ := h
      simp
    · simp at h

/-! ## Building the elements -/

/-- The attributes of a tag with their values read, in the order of the tag. `tagAt` is the text
from the tag on, and `seen` are the names before. -/
def readAttributes (d : Declarations) (a : Alphabet) (closed : Entities) (tagAt element : List Char)
    (seen : List (List Char)) : List WrittenAttribute → Except Fault (List Attribute)
  | [] => .ok []
  | w :: ws =>
    if seen.contains w.name then .error ⟨.duplicateAttribute, w.nameAt⟩
    else
      match readValue d a closed (d.isTokens element w.name) w.value with
      | .error ⟨cause, some left⟩ => .error ⟨cause, left ++ w.valueEnd⟩
      | .error ⟨cause, none⟩ => .error ⟨cause, tagAt⟩
      | .ok v =>
        (readAttributes d a closed tagAt element (w.name :: seen) ws).map
          (⟨.ofList w.name, .ofList v⟩ :: ·)

/-- An element whose end tag has not come yet, with the nodes before it, newest first. -/
structure OpenElement where
  name : List Char
  attributes : List Attribute
  before : List Node
deriving Repr

/-- What content is read as. -/
inductive Place where
  /-- The document: reading stops after the root element. -/
  | document
  /-- The replacement text of an entity: reading goes on to its end. -/
  | entity
deriving Repr, DecidableEq

/-- Whether content ends here, and the place where it does so. A last carriage return or last
brackets could go on and are not looked at any more. -/
def endOfContent? (ending : Ending) (text : List Char) : Option (List Char) :=
  if ending.isTruncated then none
  else if text = ['\r'] then some text
  else if text = [']'] ∨ text = [']', ']'] then some []
  else if text = [] ∧ ending = .complete then some []
  else none

/-- Reads content. `stack` holds the open elements, the innermost first, and `nodes` what has been
read of the content at the current level, newest first. The answer is what has been read at the
outermost level, newest first, and the rest of the text. -/
def readContent (d : Declarations) (a : Alphabet) (ending : Ending) (place : Place)
    (closed : Entities) (stack : List OpenElement) (nodes : List Node) (text : List Char) :
    Except Fault (List Node × List Char) :=
  match endOfContent? ending text with
  | some at' =>
    match place, stack with
    | .entity, [] => .ok (nodes, [])
    | .entity, _ :: _ => .error ⟨.asynchronousEntity, at'⟩
    | .document, _ => .error ⟨.noElement, at'⟩
  | none =>
    match _h : scanContent a ending text with
    | .error f => .error f
    | .ok (.ignorable, rest) => readContent d a ending place closed stack nodes rest
    | .ok (.declaration, _) => .error ⟨.misplacedDeclaration, text⟩
    | .ok (.reference (.character code), rest) =>
      match Reference.characterOf? code with
      | none => .error ⟨.invalidCharacterNumber, text⟩
      | some _ => readContent d a ending place closed stack nodes rest
    | .ok (.reference (.entity name), rest) =>
      if (Reference.predefined? name).isSome then
        readContent d a ending place closed stack nodes rest
      else
        match _h : closed.lookup name with
        | some (.internal inner) =>
          match readContent d .internal .complete .entity (closed.without name) [] [] inner with
          | .error f => .error (f.movedTo text)
          | .ok (added, _) =>
            readContent d a ending place closed stack (added ++ nodes) rest
        | some .external => readContent d a ending place closed stack nodes rest
        | some .unparsed => .error ⟨.binaryEntity, text⟩
        | none =>
          if d.declares name then .error ⟨.recursiveEntity, text⟩
          else if d.isStrict then .error ⟨.undefinedEntity, text⟩
          else readContent d a ending place closed stack nodes rest
    | .ok (.startTag tag, rest) =>
      match readAttributes d a closed text tag.name [] tag.attributes with
      | .error f => .error f
      | .ok attributes =>
        if tag.isEmpty then
          let nodes := .element (.ofList tag.name) attributes [] :: nodes
          if place = .document ∧ stack = [] then .ok (nodes, rest)
          else readContent d a ending place closed stack nodes rest
        else readContent d a ending place closed (⟨tag.name, attributes, nodes⟩ :: stack) [] rest
    | .ok (.endTag name nameAt, rest) =>
      match stack with
      | [] => .error ⟨.asynchronousEntity, text⟩
      | e :: stack =>
        if name = e.name then
          let nodes := .element (.ofList e.name) e.attributes nodes.reverse :: e.before
          if place = .document ∧ stack = [] then .ok (nodes, rest)
          else readContent d a ending place closed stack nodes rest
        else .error ⟨.mismatchedTag, nameAt⟩
termination_by (closed.length, text.length)
decreasing_by
  all_goals first
    | exact Prod.Lex.left _ _ (Entities.length_without_lt (by assumption))
    | exact Prod.Lex.right _ (length_scanContent_lt (by assumption))

end FxmlWiring.Markup
