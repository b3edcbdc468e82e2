import FxmlWiring.Markup.Metering
import FxmlWiring.Markup.Prolog.Read

/-! # The account outside the root element

Every token of the document outside its root element goes into the account; blanks in a row are one
token. A literal is counted once, but an entity in a default value is expanded where it is
declared. -/

namespace FxmlWiring.Markup.Prolog

/-- The text after blanks that have started. A last carriage return is left. -/
def skipBlanks (ending : Ending) (s : List Char) : List Char :=
  if skipSpace s = [] ∧ s.getLast? = some '\r' ∧ !ending.isTruncated then ['\r'] else skipSpace s

theorem length_skipBlanks_le (ending : Ending) (s : List Char) :
    (skipBlanks ending s).length ≤ s.length := by
  unfold skipBlanks
  split
  · rename_i h
    have hs : s ≠ [] := by
      rintro rfl
      simp at h
    exact List.length_pos_iff.2 hs
  · exact length_skipSpace_le s

/-- The text after a token. -/
def Scanned.tokenEnd (scanned : Scanned) (ending : Ending) : List Char :=
  if scanned.token = .space then skipBlanks ending scanned.rest else scanned.rest

theorem Scanned.length_tokenEnd_le (scanned : Scanned) (ending : Ending) :
    (scanned.tokenEnd ending).length ≤ scanned.rest.length := by
  unfold tokenEnd
  split
  · exact length_skipBlanks_le ending scanned.rest
  · exact Nat.le_refl _

/-- The bytes of the token at the front of a text. The start of the root element is left to the
content. -/
def Scanned.size (scanned : Scanned) (a : Alphabet) (ending : Ending) (text : List Char) : Nat :=
  if scanned.token = .elementStart then 0
  else
    a.sizeTo text (scanned.tokenEnd ending) + if scanned.isLast then ending.oddBytes else 0

/-- Keeps the account of the default value that a token gives, if it gives one that counts. -/
def meterDefault (a : Alphabet) (d : Declarations) (stage : Stage) (t : Token) (text : List Char)
    (x : Account) : Except Interruption Account :=
  match stage, t with
  | .attributeDefault _ _ _, .literal value _ _ | .attributeFixed _ _ _, .literal value _ _ =>
    if d.counting then meterValue d a none text d.entities value x else .ok x
  | _, _ => .ok x

/-- Keeps the account up to the root element. The answer goes with what has been declared and the
text from the root element on. -/
def meterProlog (a : Alphabet) (ending : Ending) (stage : Stage) (d : Declarations)
    (text : List Char) (x : Account) : Except Interruption (Declarations × Account × List Char) :=
  if text = [] then .error .fault
  else
    match _h : scan a ending text with
    | .error _ => .error .fault
    | .ok scanned =>
      if scanned.token = .elementStart ∧ stage.allowsRoot then .ok (d, x, text)
      else do
        let x ← x.charge (some .document) (scanned.size a ending text) text
        let x ← meterDefault a d stage scanned.token text x
        match stage.next a d scanned.token text with
        | .error _ => .error .fault
        | .ok (stage, d) =>
          meterProlog a (if scanned.isLast then .complete else ending) stage d
            (scanned.tokenEnd ending) x
termination_by text.length
decreasing_by
  exact Nat.lt_of_le_of_lt (scanned.length_tokenEnd_le ending) (length_scan_lt (by assumption))

/-- Keeps the account to the end of the document. -/
def meterEpilog (a : Alphabet) (ending : Ending) (text : List Char) (x : Account) :
    Except Interruption Account :=
  if text = [] then .ok x
  else if text = ['\r'] ∧ !ending.isTruncated then x.charge (some .document) (a.size text) text
  else
    match _h : scan a ending text with
    | .error _ => .error .fault
    | .ok scanned =>
      -- A word at the very end is out of place and is not counted.
      if scanned.isLast then .error .fault
      else do
        let x ← x.charge (some .document) (scanned.size a ending text) text
        match scanned.token with
        | .space | .comment | .instruction => meterEpilog a ending (scanned.tokenEnd ending) x
        | _ => .error .fault
termination_by text.length
decreasing_by
  all_goals
    exact Nat.lt_of_le_of_lt (scanned.length_tokenEnd_le ending) (length_scan_lt (by assumption))

end FxmlWiring.Markup.Prolog
