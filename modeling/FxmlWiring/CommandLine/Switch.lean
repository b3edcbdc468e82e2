import FxmlWiring.Text.Basic

/-! # Words of the command line

A **switch** is spelled in full, or by the start of a long spelling that no other switch shares. A
**word** of the command line is a switch, a value, or the separator after which every word is a
value. -/

namespace FxmlWiring.CommandLine

open Text

/-- The switches. -/
inductive Switch where
  | help
  | binding
  | idAttribute
  | actionAttribute
  | verbose
  | quiet
deriving Repr, DecidableEq

namespace Switch

/-- All spellings, in the order in which they are listed. -/
def spellings : List (String × Switch) :=
  [("-h", help), ("--help", help), ("--annotation", binding), ("--id-attribute", idAttribute),
    ("--action-attribute", actionAttribute), ("--verbose", verbose), ("--quiet", quiet)]

/-- How messages call a switch. -/
def label : Switch → String
  | help => "-h/--help"
  | binding => "--annotation"
  | idAttribute => "--id-attribute"
  | actionAttribute => "--action-attribute"
  | verbose => "--verbose"
  | quiet => "--quiet"

/-- Whether a value belongs to the switch. -/
def takesValue : Switch → Bool
  | binding | idAttribute | actionAttribute => true
  | help | verbose | quiet => false

end Switch

/-! ## Words -/

/-- A word of the command line. -/
inductive Word where
  /-- A path, or the value of the switch before it. -/
  | plain (text : String)
  | separator
  /-- A switch in its long spelling, or `-h`, with a value attached to it. -/
  | switch (s : Switch) (attached : Option String)
  /-- The short spelling of a switch with more attached to it: other letters, or a value. -/
  | letters (s : Switch) (attached : String)
  /-- What looks like a switch and is none. -/
  | unknown (text : String)
deriving Repr, DecidableEq

namespace Word

/-- The text of a word before the first equals sign, and what follows it, if there is one. -/
def splitValue (word : List Char) : List Char × Option (List Char) :=
  match word.dropWhile (· ≠ '=') with
  | [] => (word, none)
  | _ :: value => (word.takeWhile (· ≠ '='), some value)

/-- The spellings that start like the word before its equals sign. -/
def candidates (word : List Char) : List (String × Switch) :=
  Switch.spellings.filter fun entry => (splitValue word).1.isPrefixOf entry.1.toList

/-- Whether the word is a number below zero. A line feed may follow it. -/
def isNegativeNumber (word : List Char) : Bool :=
  let digits := if word.getLast? = some '\n' then word.dropLast else word
  match digits with
  | '-' :: s =>
    let whole := s.takeWhile isDecimalDigit
    match s.dropWhile isDecimalDigit with
    | [] => !whole.isEmpty
    | '.' :: fraction => !fraction.isEmpty && fraction.all isDecimalDigit
    | _ => false
  | _ => false

/-- A word that starts with a hyphen and is no spelling of a switch: a value if it is a negative
number or holds a space. -/
def unmatched (word : String) : Word :=
  if isNegativeNumber word.toList || ' ' ∈ word.toList then .plain word else .unknown word

/-- What a word is; the spellings that it may stand for if there are several. -/
def classify (word : String) : Except (List String) Word :=
  match word.toList with
  | '-' :: c :: s =>
    match Switch.spellings.lookup word with
    | some x => .ok (.switch x none)
    | none =>
      let (front, value) := splitValue word.toList
      match value, Switch.spellings.lookup (String.ofList front) with
      | some v, some x =>
        if front = ['-', 'h'] then .ok (.letters x (String.ofList s))
        else .ok (.switch x (some (String.ofList v)))
      | _, _ =>
        if c = '-' then
          match candidates word.toList with
          | [] => .ok (unmatched word)
          | [(_, x)] => .ok (.switch x (value.map String.ofList))
          | entries => .error (entries.map (·.1))
        else if c = 'h' then .ok (.letters .help (String.ofList s))
        else .ok (unmatched word)
  | _ => .ok (.plain word)

/-- What the words of a command line are, or the first one that may stand for several switches, with
these. -/
def classifyAll : List String → Except (String × List String) (List Word)
  | [] => .ok []
  | "--" :: words => .ok (separator :: words.map plain)
  | word :: words =>
    match classify word with
    | .error entries => .error (word, entries)
    | .ok w => (classifyAll words).map (w :: ·)

/-- A word as it was written, for a word that is no switch. -/
def text : Word → String
  | plain t | unknown t => t
  | separator => "--"
  | switch s _ | letters s _ => s.label

end Word

end FxmlWiring.CommandLine
