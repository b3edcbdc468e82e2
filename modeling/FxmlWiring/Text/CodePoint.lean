import FxmlWiring.Text.Quoted

/-! # Texts of code points

A text that is handed in may hold **surrogates** among its characters. It has no encoding then, and
`surrogates?` tells where that is found out: at the first run of surrogates. -/

namespace FxmlWiring.Text

/-- A code point: a character, or a surrogate, numbered from the first one on. -/
inductive CodePoint where
  | character (c : Char)
  | surrogate (index : Fin 0x800)
deriving Repr, DecidableEq

namespace CodePoint

/-- The character that the code point is. -/
def character? : CodePoint → Option Char
  | character c => some c
  | surrogate _ => none

/-- Whether the code point is no character. -/
def isSurrogate (p : CodePoint) : Bool :=
  p.character?.isNone

/-- The characters of a text. -/
def characters (text : List CodePoint) : List Char :=
  text.filterMap character?

/-- A text of characters. -/
def ofString (s : String) : List CodePoint :=
  s.toList.map character

@[simp] theorem characters_append (s t : List CodePoint) :
    characters (s ++ t) = characters s ++ characters t := by
  simp [characters]

@[simp] theorem characters_ofString (s : String) : characters (ofString s) = s.toList := by
  simp [characters, ofString, character?, Function.comp_def]

theorem ofString_injective {s t : String} (h : ofString s = ofString t) : s = t := by
  have hc := congrArg characters h
  rw [characters_ofString, characters_ofString] at hc
  exact String.toList_injective hc

@[simp] theorem ofString_append (s t : String) : ofString (s ++ t) = ofString s ++ ofString t := by
  simp [ofString]

end CodePoint

/-- Surrogates in a row: how many code points go before them, the first one, and how many more
follow it. -/
structure Surrogates where
  before : Nat
  first : Fin 0x800
  more : Nat
deriving Repr, DecidableEq

namespace Surrogates

/-- How an encoder complains about the surrogates. -/
def message (s : Surrogates) : String :=
  let place :=
    if s.more = 0 then
      "character '\\u" ++ String.ofList (Quoted.hexDigits 4 (0xD800 + s.first)) ++
        "' in position " ++ toString s.before
    else "characters in position " ++ toString s.before ++ "-" ++ toString (s.before + s.more)
  "'utf-8' codec can't encode " ++ place ++ ": surrogates not allowed"

end Surrogates

/-- The first surrogates in a text. -/
def surrogates? (text : List CodePoint) : Option Surrogates :=
  match text.dropWhile (!·.isSurrogate) with
  | .surrogate i :: s =>
    some ⟨(text.takeWhile (!·.isSurrogate)).length, i, (s.takeWhile (·.isSurrogate)).length⟩
  | _ => none

@[simp] theorem surrogates?_nil : surrogates? [] = none := rfl

/-- A character before surrogates does not keep them from being found. -/
theorem surrogates?_character_cons_eq_none_iff (c : Char) (text : List CodePoint) :
    surrogates? (.character c :: text) = none ↔ surrogates? text = none := by
  have hd : (CodePoint.character c :: text).dropWhile (!·.isSurrogate) =
      text.dropWhile (!·.isSurrogate) := rfl
  rw [surrogates?, surrogates?, hd]
  split <;> simp

/-- A text has no surrogates if it is one of characters. -/
theorem surrogates?_eq_none_iff (text : List CodePoint) :
    surrogates? text = none ↔ text = (CodePoint.characters text).map .character := by
  induction text with
  | nil => simp [CodePoint.characters]
  | cons p text ih =>
    cases p with
    | character c =>
      rw [surrogates?_character_cons_eq_none_iff, ih]
      simp [CodePoint.characters, CodePoint.character?]
    | surrogate i =>
      refine ⟨nofun, fun h => ?_⟩
      have hmem : CodePoint.surrogate i ∈
          (CodePoint.characters (.surrogate i :: text)).map .character := h ▸ List.mem_cons_self
      simp at hmem

@[simp] theorem surrogates?_ofString (s : String) : surrogates? (CodePoint.ofString s) = none :=
  (surrogates?_eq_none_iff _).2 (by rw [CodePoint.characters_ofString]; rfl)

/-- A text without surrogates is a string. -/
theorem eq_ofString_of_surrogates? {text : List CodePoint} (h : surrogates? text = none) :
    text = CodePoint.ofString (.ofList (CodePoint.characters text)) := by
  rw [CodePoint.ofString, String.toList_ofList]
  exact (surrogates?_eq_none_iff text).1 h

end FxmlWiring.Text
