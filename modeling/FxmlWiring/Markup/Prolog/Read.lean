import FxmlWiring.Markup.Prolog.Stage

/-! # Reading outside the root element

`readProlog` goes through the tokens before the root element and gathers the declarations;
`readEpilog` makes sure that only blanks, comments and instructions follow the root element. -/

namespace FxmlWiring.Markup.Prolog

/-- The fault of a document that ends outside its root element. -/
def endFault (ending : Ending) : Fault :=
  match ending with
  | .complete => ⟨.noElement, []⟩
  | .halfUnit => ⟨.unclosedToken, []⟩
  | .truncated _ => ⟨.partialCharacter, []⟩

/-- Reads up to the root element. The answer is what has been declared and the text from the root
element on. -/
def readProlog (a : Alphabet) (ending : Ending) (stage : Stage) (d : Declarations)
    (text : List Char) : Except Failure (Declarations × List Char) :=
  if text = [] then .error (.fault (endFault ending))
  else
    match _h : scan a ending text with
    | .error halt => .error (.fault (halt.toFault ending text))
    | .ok scanned =>
      if scanned.token = .elementStart ∧ stage.allowsRoot then .ok (d, text)
      else
        match stage.next a d scanned.token text with
        | .error f => .error f
        | .ok (stage, d) =>
          readProlog a (if scanned.isLast then .complete else ending) stage d scanned.rest
termination_by text.length
decreasing_by exact length_scan_lt (by assumption)

/-- Reads to the end of the document. A last carriage return is not looked beyond. -/
def readEpilog (a : Alphabet) (ending : Ending) (text : List Char) : Except Fault Unit :=
  if text = [] then
    if ending = .complete then .ok () else .error (endFault ending)
  else if text = ['\r'] ∧ !ending.isTruncated then .ok ()
  else
    match _h : scan a ending text with
    | .error halt => .error (halt.toFault ending text)
    | .ok scanned =>
      match scanned.token with
      | .space | .comment | .instruction => readEpilog a ending scanned.rest
      | _ => .error ⟨.junkAfterRoot, text⟩
termination_by text.length
decreasing_by exact length_scan_lt (by assumption)

end FxmlWiring.Markup.Prolog
