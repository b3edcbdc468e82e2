import FxmlWiring.Markup.Scan

/-! # The XML declaration

The declaration `<?xml version="1.0" encoding="…" standalone="…"?>` holds **settings**: the version,
then at most an encoding, then at most a word on standing alone. `read` takes what stands between
`<?xml` and `?>`. -/

namespace FxmlWiring.Markup.XmlDeclaration

/-- What a declaration says. -/
structure Contents where
  /-- The name of the encoding, with the text from the name on. -/
  encoding : Option (List Char × List Char) := none
  standalone : Bool := false
deriving Repr, DecidableEq

/-- A setting: its name, and its value with the text from each on. -/
structure Setting where
  name : List Char
  nameAt : List Char
  value : List Char
  valueAt : List Char
deriving Repr, DecidableEq

/-- A character of a value. -/
def isValueCharacter (c : Char) : Bool :=
  c.isAlphanum || c = '.' || c = '-' || c = '_'

/-- A character of the name of a setting: any ASCII character but blanks and the equals sign. -/
def isNameCharacter (c : Char) : Bool :=
  c < '\u0080' && !isSpace c && c ≠ '='

/-- Reads the value of a setting: quotes, and nothing but value characters between them. The rest is
the text after the closing quote; a failure tells the text from the faulty place on. -/
def readValue (s : List Char) : Except (List Char) (List Char × List Char × List Char) :=
  match skipSpace s with
  | [] => .error []
  | q :: s =>
    if q = '"' ∨ q = '\'' then
      match s.dropWhile isValueCharacter with
      | c :: rest =>
        if c = q then .ok (s.takeWhile isValueCharacter, s, rest) else .error (c :: rest)
      | [] => .error []
    else .error (q :: s)

/-- Reads the next setting, which blanks have to precede. There is none if nothing or only blanks
are left; then the text stays as it is. -/
def readSetting (s : List Char) : Except (List Char) (Option Setting × List Char) :=
  match s with
  | [] => .ok (none, s)
  | c :: _ =>
    if !isSpace c then .error s
    else
      match skipSpace s with
      | [] => .ok (none, s)
      | nameAt =>
        let name := nameAt.takeWhile isNameCharacter
        match skipSpace (nameAt.dropWhile isNameCharacter) with
        | '=' :: rest =>
          if name = [] then .error nameAt
          else
            match readValue rest with
            | .error left => .error left
            | .ok (value, valueAt, rest) => .ok (some ⟨name, nameAt, value, valueAt⟩, rest)
        | left => .error left

/-- Reads the last setting, which can only be about standing alone, and the blanks after it. -/
def readStandalone (encoding : Option (List Char × List Char)) (x : Setting) (rest : List Char) :
    Except (List Char) Contents :=
  if String.ofList x.name ≠ "standalone" then .error x.nameAt
  else if String.ofList x.value ≠ "yes" ∧ String.ofList x.value ≠ "no" then .error x.valueAt
  else if skipSpace rest ≠ [] then .error (skipSpace rest)
  else .ok ⟨encoding, String.ofList x.value = "yes"⟩

/-- Reads the settings after the version. -/
def readEncoding (x : Setting) (rest : List Char) : Except (List Char) Contents :=
  if String.ofList x.name = "encoding" then
    match x.value with
    | c :: _ =>
      if c.isAlpha then
        match readSetting rest with
        | .error left => .error left
        | .ok (none, _) => .ok ⟨some (x.value, x.valueAt), false⟩
        | .ok (some y, rest) => readStandalone (some (x.value, x.valueAt)) y rest
      else .error x.valueAt
    | [] => .error x.valueAt
  else readStandalone none x rest

/-- Reads the settings of a declaration. A failure tells the text from the faulty place on. -/
def read (s : List Char) : Except (List Char) Contents :=
  match readSetting s with
  | .error left => .error left
  | .ok (none, left) => .error left
  | .ok (some x, rest) =>
    if String.ofList x.name ≠ "version" then .error x.nameAt
    else
      match readSetting rest with
      | .error left => .error left
      | .ok (none, _) => .ok {}
      | .ok (some y, rest) => readEncoding y rest

end FxmlWiring.Markup.XmlDeclaration
