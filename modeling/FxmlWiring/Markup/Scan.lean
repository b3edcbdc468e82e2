import FxmlWiring.Markup.Character
import FxmlWiring.Markup.Fault
import FxmlWiring.Text.Basic

/-! # Scanning

A **scan** takes a token off the front of a text and leaves the rest, or it **halts**. What a halt
at the end of the text means depends on how the text ends: its last bytes may be the start of a
character. -/

namespace FxmlWiring.Markup

open Text

/-- How the bytes of a document end. -/
inductive Ending where
  /-- After a character. -/
  | complete
  /-- With half a code unit. -/
  | halfUnit
  /-- With so many code units that are the start of a character. -/
  | truncated (units : Nat)
deriving Repr, DecidableEq

namespace Ending

/-- Whether the start of a character follows the text. -/
def isTruncated : Ending → Bool
  | truncated _ => true
  | complete | halfUnit => false

/-- The code units that follow the text without making up a character. -/
def units : Ending → Nat
  | truncated n => n
  | complete | halfUnit => 0

end Ending

/-- Why a scan halts. -/
inductive Halt where
  /-- The character at the front of `rest` cannot stand there. -/
  | stray (rest : List Char)
  /-- The text ends where characters of several bytes are looked at. -/
  | endOfText
  /-- The text ends where only blanks or punctuation could go on. -/
  | endOfMarkup
  /-- Fewer code units are left than the token needs. -/
  | tooShort
deriving Repr, DecidableEq

/-- The fault that a halt is, for a token that starts where `token` does. The start of a
character after the text is part of the token where any character could follow, and is itself
wrong elsewhere. -/
def Halt.toFault (ending : Ending) (token : List Char) : Halt → Fault
  | stray rest => ⟨.invalidToken, rest⟩
  | endOfText => ⟨if ending.isTruncated then .partialCharacter else .unclosedToken, token⟩
  | endOfMarkup => if ending.isTruncated then ⟨.invalidToken, []⟩ else ⟨.unclosedToken, token⟩
  | tooShort => ⟨.unclosedToken, token⟩

/-- What a scan answers: a result and the rest of the text, or why it halts. -/
abbrev Scan (α : Type) := Except Halt (α × List Char)

/-- The text after the blanks at its front. -/
def skipSpace (s : List Char) : List Char :=
  s.dropWhile isSpace

theorem length_skipSpace_le (s : List Char) : (skipSpace s).length ≤ s.length :=
  length_dropWhile_le isSpace s

/-- Scans a name. -/
def scanName (a : Alphabet) : List Char → Scan (List Char)
  | [] => .error .endOfText
  | c :: s =>
    if a.startsName c then
      .ok (c :: s.takeWhile a.continuesName, s.dropWhile a.continuesName)
    else .error (.stray (c :: s))

/-- A name and what follows it make up the text. -/
theorem append_of_scanName {a : Alphabet} {s n r : List Char} (h : scanName a s = .ok (n, r)) :
    n ++ r = s := by
  unfold scanName at h
  split at h
  · simp at h
  · split at h
    · simp only [Except.ok.injEq, Prod.mk.injEq] at h
      obtain ⟨rfl, rfl⟩ := h
      simp
    · simp at h

theorem length_scanName_lt {a : Alphabet} {s n r : List Char} (h : scanName a s = .ok (n, r)) :
    r.length < s.length := by
  unfold scanName at h
  split at h
  · simp at h
  · rename_i c s
    split at h
    · simp only [Except.ok.injEq, Prod.mk.injEq] at h
      obtain ⟨-, rfl⟩ := h
      have := length_dropWhile_le a.continuesName s
      simp only [List.length_cons]
      omega
    · simp at h

end FxmlWiring.Markup
