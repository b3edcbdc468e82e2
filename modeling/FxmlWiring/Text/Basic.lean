/-! # Characters and fronts of a text

Classes of characters of controller text and of arguments, what is left of a text after a front of
it, and whether one text stands in another. -/

namespace FxmlWiring.Text

/-! ## Blanks

The **blank** characters that separate words of controller text are the six ASCII ones. -/

/-- Blank: space, tab, line feed, vertical tab, form feed, carriage return. -/
def isBlank (c : Char) : Bool :=
  c = ' ' || c = '\t' || c = '\n' || c = '\x0b' || c = '\x0c' || c = '\r'

/-- The indentation characters: space and tab. -/
def isIndent (c : Char) : Bool :=
  c = ' ' || c = '\t'

theorem isBlank_of_isIndent {c : Char} (h : isIndent c = true) : isBlank c = true := by
  simp only [isIndent, Bool.or_eq_true, decide_eq_true_eq] at h
  rcases h with rfl | rfl <;> rfl

/-! ## Decimal digits

The **decimal digits** of Unicode 14 come in runs of ten, from zero to nine, one run for each set of
digits. -/

/-- The zeros of all sets of digits. -/
def digitZeros : List Nat :=
  [0x0030, 0x0660, 0x06F0, 0x07C0, 0x0966, 0x09E6, 0x0A66, 0x0AE6, 0x0B66, 0x0BE6, 0x0C66, 0x0CE6,
   0x0D66, 0x0DE6, 0x0E50, 0x0ED0, 0x0F20, 0x1040, 0x1090, 0x17E0, 0x1810, 0x1946, 0x19D0, 0x1A80,
   0x1A90, 0x1B50, 0x1BB0, 0x1C40, 0x1C50, 0xA620, 0xA8D0, 0xA900, 0xA9D0, 0xA9F0, 0xAA50, 0xABF0,
   0xFF10, 0x104A0, 0x10D30, 0x11066, 0x110F0, 0x11136, 0x111D0, 0x112F0, 0x11450, 0x114D0,
   0x11650, 0x116C0, 0x11730, 0x118E0, 0x11950, 0x11C50, 0x11D50, 0x11DA0, 0x16A60, 0x16AC0,
   0x16B50, 0x1D7CE, 0x1D7D8, 0x1D7E2, 0x1D7EC, 0x1D7F6, 0x1E140, 0x1E2F0, 0x1E950, 0x1FBF0]

/-- A decimal digit of any set. -/
def isDecimalDigit (c : Char) : Bool :=
  digitZeros.any fun first => first ≤ c.toNat && c.toNat < first + 10

/-! ## Fronts -/

/-- Dropping a front makes no text longer. -/
theorem length_dropWhile_le (p : Char → Bool) (s : List Char) :
    (s.dropWhile p).length ≤ s.length :=
  (List.dropWhile_suffix p).length_le

/-- One leading `w` less, if the text starts with `w`. -/
def removeLeading (w s : List Char) : List Char :=
  if w.isPrefixOf s then s.drop w.length else s

@[simp] theorem removeLeading_append (w s : List Char) : removeLeading w (w ++ s) = s := by
  simp [removeLeading]

@[simp] theorem removeLeading_nil (s : List Char) : removeLeading [] s = s := by
  simp [removeLeading]

/-! ## Occurrence -/

/-- Whether `w` stands somewhere in the text. The empty text stands in every text. -/
def occursIn (w : List Char) : List Char → Bool
  | [] => w.isEmpty
  | c :: s => w.isPrefixOf (c :: s) || occursIn w s

/-- Occurring is being an infix. -/
theorem occursIn_iff {w s : List Char} : occursIn w s = true ↔ w <:+: s := by
  induction s with
  | nil => simp [occursIn]
  | cons c s ih => simp [occursIn, ih, List.infix_cons_iff]

end FxmlWiring.Text
