import FxmlWiring.Markup.Scan

/-! # References

A **reference** stands for a character given by its number, as in `&#65;` and `&#x41;`, or for an
entity given by its name, as in `&amp;`. Five entities are predefined. -/

namespace FxmlWiring.Markup

open Text

/-- What a reference names. -/
inductive Reference where
  | character (code : Nat)
  | entity (name : List Char)
deriving Repr, DecidableEq

namespace Reference

/-- The value of a hexadecimal digit. -/
def digitValue (c : Char) : Nat :=
  if c.isDigit then c.toNat - '0'.toNat
  else if c.isLower then c.toNat - 'a'.toNat + 10
  else c.toNat - 'A'.toNat + 10

/-- A hexadecimal digit in either case. -/
def isHexDigit (c : Char) : Bool :=
  c.isDigit || ('a' ≤ c && c ≤ 'f') || ('A' ≤ c && c ≤ 'F')

/-- The number that digits write. -/
def value (base : Nat) (digits : List Char) : Nat :=
  digits.foldl (fun n c => n * base + digitValue c) 0

/-- Scans the digits of a character number and the semicolon after them. -/
def scanNumber (base : Nat) (isDigit : Char → Bool) : List Char → Scan Reference
  | [] => .error .endOfMarkup
  | c :: s =>
    if isDigit c then
      match s.dropWhile isDigit with
      | ';' :: rest => .ok (.character (value base (c :: s.takeWhile isDigit)), rest)
      | [] => .error .endOfMarkup
      | rest => .error (.stray rest)
    else .error (.stray (c :: s))

/-- Scans what follows an ampersand, up to the semicolon. -/
def scan (a : Alphabet) : List Char → Scan Reference
  | '#' :: 'x' :: s => scanNumber 16 isHexDigit s
  | '#' :: s => scanNumber 10 Char.isDigit s
  | s =>
    match scanName a s with
    | .error h => .error h
    | .ok (name, ';' :: rest) => .ok (.entity name, rest)
    | .ok (_, []) => .error .endOfText
    | .ok (_, rest) => .error (.stray rest)

/-- The character of a number, if it is legal. -/
def characterOf? (code : Nat) : Option Char :=
  if code.isValidChar ∧ isLegal (Char.ofNat code) then some (Char.ofNat code) else none

/-- The predefined entities. -/
def predefined? (name : List Char) : Option Char :=
  [("lt", '<'), ("gt", '>'), ("amp", '&'), ("quot", '"'), ("apos", '\'')].lookup
    (String.ofList name)

theorem length_scanNumber_lt {base : Nat} {isDigit : Char → Bool} {s rest : List Char}
    {r : Reference} (h : scanNumber base isDigit s = .ok (r, rest)) : rest.length < s.length := by
  unfold scanNumber at h
  split at h
  · simp at h
  · rename_i c s
    split at h
    · have hd := length_dropWhile_le isDigit s
      split at h
      · rename_i hs
        simp only [Except.ok.injEq, Prod.mk.injEq] at h
        obtain ⟨-, rfl⟩ := h
        rw [hs] at hd
        simp only [List.length_cons] at hd ⊢
        omega
      · simp at h
      · simp at h
    · simp at h

/-- A reference takes at least one character. -/
theorem length_scan_lt {a : Alphabet} {s rest : List Char} {r : Reference}
    (h : scan a s = .ok (r, rest)) : rest.length < s.length := by
  unfold scan at h
  split at h
  · have := length_scanNumber_lt h
    simp only [List.length_cons]
    omega
  · have := length_scanNumber_lt h
    simp only [List.length_cons]
    omega
  · split at h
    · simp at h
    · rename_i hn
      have := length_scanName_lt hn
      simp only [Except.ok.injEq, Prod.mk.injEq] at h
      obtain ⟨-, rfl⟩ := h
      simp only [List.length_cons] at this
      omega
    · simp at h
    · simp at h

end Reference

end FxmlWiring.Markup
