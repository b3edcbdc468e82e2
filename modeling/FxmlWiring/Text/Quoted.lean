import FxmlWiring.Text.Printable
import FxmlWiring.Text.Utf8

/-! # Quoted text

A **quoted** text stands between apostrophes, or between quotation marks if it holds an apostrophe
and no quotation mark. Backslashes and the enclosing mark are escaped, and so is every character
that is not printable: tab and line breaks by a letter, the others by their code in two, four or
eight hexadecimal digits. -/

namespace FxmlWiring.Text.Quoted

/-- A number as so many hexadecimal digits, the last ones first dropped if it has more. -/
def hexDigits : Nat → Nat → List Char
  | 0, _ => []
  | k + 1, n => hexDigits k (n / 16) ++ [Utf8.hexDigit (n % 16)]

/-- One character inside quotes of the given kind. -/
def escape (quote c : Char) : List Char :=
  if c = quote ∨ c = '\\' then ['\\', c]
  else if c = '\t' then ['\\', 't']
  else if c = '\n' then ['\\', 'n']
  else if c = '\r' then ['\\', 'r']
  else if isPrintable c then [c]
  else if c.toNat < 0x100 then '\\' :: 'x' :: hexDigits 2 c.toNat
  else if c.toNat < 0x10000 then '\\' :: 'u' :: hexDigits 4 c.toNat
  else '\\' :: 'U' :: hexDigits 8 c.toNat

/-- The quotes for a text: apostrophes unless only quotation marks save escaping. -/
def quoteFor (s : List Char) : Char :=
  if '\'' ∈ s ∧ '"' ∉ s then '"' else '\''

/-- A text in quotes. -/
def quote (s : String) : String :=
  let q := quoteFor s.toList
  .ofList (q :: s.toList.flatMap (escape q) ++ [q])

end FxmlWiring.Text.Quoted
