import FxmlWiring.Markup.Reference

/-! # Tags

The **start tag** of an element with its attributes as they are written, and the **end tag**. The
whole tag is scanned before any value is looked into. -/

namespace FxmlWiring.Markup

open Text

/-! ## Tags as they are written -/

/-- An attribute as it is written. -/
structure WrittenAttribute where
  name : List Char
  /-- The text from the name on. -/
  nameAt : List Char
  /-- What stands between the quotes. -/
  value : List Char
  /-- The text from the closing quote on. -/
  valueEnd : List Char
deriving Repr, DecidableEq

/-- A start tag as it is written. -/
structure StartTag where
  name : List Char
  attributes : List WrittenAttribute
  /-- Whether the tag closes its element. -/
  isEmpty : Bool
deriving Repr, DecidableEq

/-! ## Values and attributes -/

/-- What halts the scan of a value in quotes of the kind, if anything does. The references in it
have to be complete, and `<` cannot stand in it. -/
def valueHalt? (a : Alphabet) (quote : Char) (s : List Char) : Option Halt :=
  match s with
  | [] => some .endOfText
  | c :: s =>
    if c = quote then none
    else if c = '&' then
      match _h : Reference.scan a s with
      | .error h => some h
      | .ok (_, rest) => valueHalt? a quote rest
    else if c = '<' ∨ !isLegal c then some (.stray (c :: s))
    else valueHalt? a quote s
termination_by s.length
decreasing_by
  · have := Reference.length_scan_lt (by assumption)
    simp only [List.length_cons]
    omega
  · simp

/-- Scans a value in quotes. The rest starts with the closing quote. -/
def scanQuoted (a : Alphabet) (s : List Char) : Scan (List Char) :=
  match s with
  | [] => .error .endOfMarkup
  | q :: s =>
    if q = '"' ∨ q = '\'' then
      match valueHalt? a q s with
      | some h => .error h
      | none => .ok (s.takeWhile (· ≠ q), s.dropWhile (· ≠ q))
    else .error (.stray (q :: s))

/-- Scans an attribute: a name, an equals sign between blanks, a value in quotes. -/
def scanAttribute (a : Alphabet) (s : List Char) : Scan WrittenAttribute :=
  match scanName a s with
  | .error h => .error h
  | .ok (_, []) => .error .endOfText
  | .ok (name, c :: r) =>
    if c = '=' ∨ isSpace c then
      match skipSpace (c :: r) with
      | [] => .error .endOfMarkup
      | '=' :: r =>
        match scanQuoted a (skipSpace r) with
        | .error h => .error h
        | .ok (value, r) => .ok (⟨name, s, value, r⟩, r.drop 1)
      | r => .error (.stray r)
    else .error (.stray (c :: r))

/-- Scans the end of a start tag, `>` or `/>`, if one stands there. The answer tells whether the
element is closed as well. -/
def scanTagEnd? : List Char → Option (Scan Bool)
  | '>' :: s => some (.ok (false, s))
  | '/' :: '>' :: s => some (.ok (true, s))
  | '/' :: [] => some (.error .endOfMarkup)
  | '/' :: s => some (.error (.stray s))
  | _ => none

theorem length_scanQuoted_le {a : Alphabet} {s v r : List Char}
    (h : scanQuoted a s = .ok (v, r)) : r.length ≤ s.length := by
  unfold scanQuoted at h
  split at h
  · simp at h
  · rename_i q s
    split at h
    · split at h
      · simp at h
      · simp only [Except.ok.injEq, Prod.mk.injEq] at h
        obtain ⟨-, rfl⟩ := h
        have := length_dropWhile_le (· ≠ q) s
        simp only [List.length_cons]
        omega
    · simp at h

theorem length_scanAttribute_lt {a : Alphabet} {s r : List Char} {w : WrittenAttribute}
    (h : scanAttribute a s = .ok (w, r)) : r.length < s.length := by
  unfold scanAttribute at h
  split at h
  · simp at h
  · simp at h
  · rename_i c t hn
    have hn := length_scanName_lt hn
    split at h
    · have hs := length_skipSpace_le (c :: t)
      split at h
      · simp at h
      · rename_i u hu
        rw [hu] at hs
        split at h
        · simp at h
        · rename_i v x hq
          have hq := length_scanQuoted_le hq
          have hu := length_skipSpace_le u
          simp only [Except.ok.injEq, Prod.mk.injEq] at h
          obtain ⟨-, rfl⟩ := h
          simp only [List.length_cons, List.length_drop] at *
          omega
      · simp at h
    · simp at h

theorem length_scanTagEnd_lt {s r : List Char} {b : Bool}
    (h : scanTagEnd? s = some (.ok (b, r))) : r.length < s.length := by
  unfold scanTagEnd? at h
  split at h <;> grind

/-! ## Whole tags -/

/-- Scans what follows the name of a start tag or the value of an attribute: blanks and the next
attribute, or the end of the tag. The first argument is the halt at the end of the text. -/
def scanAttributes (a : Alphabet) (ifEnds : Halt) (s : List Char) :
    Scan (List WrittenAttribute × Bool) :=
  match scanTagEnd? s with
  | some result => result.map fun (isEmpty, rest) => (([], isEmpty), rest)
  | none =>
    match s with
    | [] => .error ifEnds
    | c :: s =>
      if isSpace c then
        match scanTagEnd? (skipSpace s) with
        | some result => result.map fun (isEmpty, rest) => (([], isEmpty), rest)
        | none =>
          match _h : scanAttribute a (skipSpace s) with
          | .error h => .error h
          | .ok (written, rest) =>
            match scanAttributes a .endOfMarkup rest with
            | .error h => .error h
            | .ok ((attributes, isEmpty), rest) => .ok ((written :: attributes, isEmpty), rest)
      else .error (.stray (c :: s))
termination_by s.length
decreasing_by
  have := length_scanAttribute_lt (by assumption)
  have := length_skipSpace_le s
  simp only [List.length_cons]
  omega

/-- Scans what follows the `<` of a start tag. -/
def scanStartTag (a : Alphabet) (s : List Char) : Scan StartTag :=
  match scanName a s with
  | .error h => .error h
  | .ok (name, rest) =>
    match scanAttributes a .endOfText rest with
    | .error h => .error h
    | .ok ((attributes, isEmpty), rest) => .ok (⟨name, attributes, isEmpty⟩, rest)

/-- Scans what follows the `</` of an end tag: the name, then blanks and `>`. -/
def scanEndTag (a : Alphabet) (s : List Char) : Scan (List Char) :=
  match scanName a s with
  | .error h => .error h
  | .ok (_, []) => .error .endOfText
  | .ok (name, c :: rest) =>
    match skipSpace (c :: rest) with
    | '>' :: rest => .ok (name, rest)
    | [] => .error .endOfMarkup
    | rest => .error (.stray rest)

theorem length_scanAttributes_lt {a : Alphabet} {ifEnds : Halt} {s r : List Char}
    {x : List WrittenAttribute × Bool} (h : scanAttributes a ifEnds s = .ok (x, r)) :
    r.length < s.length := by
  fun_induction scanAttributes a ifEnds s generalizing x r with
  | case1 _ s result hs =>
    cases result with
    | error e => simp [Except.map] at h
    | ok y =>
      obtain ⟨b, t⟩ := y
      have := length_scanTagEnd_lt hs
      simp only [Except.map, Except.ok.injEq, Prod.mk.injEq] at h
      obtain ⟨-, rfl⟩ := h
      exact this
  | case2 => simp at h
  | case3 _ c s _ result hs =>
    cases result with
    | error e => simp [Except.map] at h
    | ok y =>
      obtain ⟨b, t⟩ := y
      have := length_scanTagEnd_lt hs
      have := length_skipSpace_le s
      simp only [Except.map, Except.ok.injEq, Prod.mk.injEq] at h
      obtain ⟨-, rfl⟩ := h
      simp only [List.length_cons]
      omega
  | case4 => simp at h
  | case5 => simp at h
  | case6 _ c s _ _ w t hw as b u hu _ ih =>
    have := length_scanAttribute_lt hw
    have := length_skipSpace_le s
    have := ih hu
    simp only [Except.ok.injEq, Prod.mk.injEq] at h
    obtain ⟨-, rfl⟩ := h
    simp only [List.length_cons]
    omega
  | case7 => simp at h

theorem length_scanStartTag_lt {a : Alphabet} {s r : List Char} {t : StartTag}
    (h : scanStartTag a s = .ok (t, r)) : r.length < s.length := by
  unfold scanStartTag at h
  split at h
  · simp at h
  · rename_i hn
    split at h
    · simp at h
    · rename_i hs
      have := length_scanName_lt hn
      have := length_scanAttributes_lt hs
      simp only [Except.ok.injEq, Prod.mk.injEq] at h
      obtain ⟨-, rfl⟩ := h
      omega

theorem length_scanEndTag_lt {a : Alphabet} {s n r : List Char}
    (h : scanEndTag a s = .ok (n, r)) : r.length < s.length := by
  unfold scanEndTag at h
  split at h
  · simp at h
  · simp at h
  · rename_i c t hn
    have := length_scanName_lt hn
    have hs := length_skipSpace_le (c :: t)
    split at h
    · rename_i hu
      rw [hu] at hs
      simp only [Except.ok.injEq, Prod.mk.injEq] at h
      obtain ⟨-, rfl⟩ := h
      simp only [List.length_cons] at *
      omega
    · simp at h
    · simp at h

end FxmlWiring.Markup
