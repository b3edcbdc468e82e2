import FxmlWiring.Markup.NameTable

/-! # Characters of markup

Which characters are **legal** in a document at all, which are blanks between the parts of a
tag, and what an **alphabet** adds: the classes of characters that depend on how the document is
encoded. -/

namespace FxmlWiring.Markup

/-- Stands for a malformed byte sequence that begins like a character of several bytes. -/
def brokenSequence : Char := '\ufffe'

/-- Stands for any other malformed byte or code unit. -/
def brokenUnit : Char := '\x00'

/-- A character that may stand in a document: tab, line feed, carriage return, and everything from
the space on except U+FFFE and U+FFFF. -/
def isLegal (c : Char) : Bool :=
  (' ' ≤ c && c ≠ '\ufffe' && c ≠ '\uffff') || c = '\t' || c = '\n' || c = '\r'

example : isLegal brokenSequence = false ∧ isLegal brokenUnit = false := by decide

/-- A blank of markup: space, tab, line feed, carriage return. -/
def isSpace (c : Char) : Bool :=
  c = ' ' || c = '\t' || c = '\n' || c = '\r'

theorem isLegal_of_isSpace {c : Char} (h : isSpace c = true) : isLegal c = true := by
  simp only [isSpace, Bool.or_eq_true, decide_eq_true_eq] at h
  rcases h with ((rfl | rfl) | rfl) | rfl <;> decide

/-- What a reader has to know about the characters of a document: which ones make up names, which
ones spell the keyword of a declaration, which ones after `<` open an element, and how many code
units each takes. -/
structure Alphabet where
  startsName : Char → Bool
  continuesName : Char → Bool
  spellsKeyword : Char → Bool
  opensElement : Char → Bool
  units : Char → Nat
  /-- The bytes of a code unit. -/
  unitSize : Nat
  /-- Whether a carriage return breaks a line, alone or with a line feed after it. -/
  breaksAtReturn : Bool

namespace Alphabet

/-- The ASCII characters that may start a name. -/
def isAsciiStart (c : Char) : Bool :=
  c.isAlpha || c = '_' || c = ':'

/-- The alphabet of documents in UTF-8. -/
def utf8 : Alphabet where
  startsName := NameTable.isNameStart
  continuesName := NameTable.isName
  spellsKeyword := isAsciiStart
  opensElement c := isAsciiStart c || '\u0080' ≤ c
  units := Char.utf8Size
  unitSize := 1
  breaksAtReturn := true

/-- The alphabet of replacement texts. Their line breaks are line feeds already, and a carriage
return is a blank like any other. -/
def internal : Alphabet :=
  { utf8 with breaksAtReturn := false }

/-- In documents that are no UTF-8, the ordinal indicators and the micro sign start names as
well. -/
def isWideStart (c : Char) : Bool :=
  NameTable.isNameStart c || c = 'ª' || c = 'µ' || c = 'º'

/-- A name start within the first 256 characters. -/
def isLatinStart (c : Char) : Bool :=
  c ≤ 'ÿ' && isWideStart c

/-- The alphabet of documents in UTF-16. -/
def utf16 : Alphabet where
  startsName := isWideStart
  continuesName c := isWideStart c || NameTable.isName c
  spellsKeyword := isLatinStart
  opensElement c := isLatinStart c || ('ÿ' < c && c ≠ '\ufffe' && c ≠ '\uffff')
  units c := if c.toNat < 0x10000 then 1 else 2
  unitSize := 2
  breaksAtReturn := true

/-- The alphabet of documents in ISO-8859-1. -/
def latin1 : Alphabet where
  startsName := isWideStart
  continuesName c := isWideStart c || NameTable.isName c
  spellsKeyword := isWideStart
  opensElement := isWideStart
  units _ := 1
  unitSize := 1
  breaksAtReturn := true

/-- The alphabet of documents in another single-byte charset. -/
def singleByte : Alphabet where
  startsName := NameTable.isNameStart
  continuesName := NameTable.isName
  spellsKeyword := NameTable.isNameStart
  opensElement := NameTable.isNameStart
  units _ := 1
  unitSize := 1
  breaksAtReturn := true

/-- The bytes of a text. -/
def size (a : Alphabet) (s : List Char) : Nat :=
  s.foldr (fun c bytes => a.unitSize * a.units c + bytes) 0

@[simp] theorem size_nil (a : Alphabet) : a.size [] = 0 := rfl

theorem size_cons (a : Alphabet) (c : Char) (s : List Char) :
    a.size (c :: s) = a.unitSize * a.units c + a.size s := rfl

end Alphabet

end FxmlWiring.Markup
