import FxmlWiring.Markup.Charset.Alias
import FxmlWiring.Markup.Charset.Table
import FxmlWiring.Markup.Source

/-! # Named charsets

An encoding that a document names is looked up by its **plain name**. It is a charset with one byte
per character, or one with several, or none that can be used. -/

namespace FxmlWiring.Markup.Charset

/-- A charset of single bytes: the alphabet of its documents, and the character of each byte. -/
structure SingleByte where
  alphabet : Alphabet
  character : UInt8 → Char

/-- A byte that is the code point of its number. -/
def ofCode (b : UInt8) : Char :=
  Char.ofNat b.toNat

/-- ISO-8859-1, in which every byte is a code point. -/
def latin1 : SingleByte :=
  ⟨.latin1, ofCode⟩

/-- US-ASCII, in which the upper half of the bytes has no characters. -/
def ascii : SingleByte :=
  ⟨.singleByte, fun b => if b < 0x80 then ofCode b else brokenUnit⟩

/-- US-ASCII without the tilde. -/
def withoutTilde : SingleByte :=
  ⟨.singleByte, fun b => if b = 0x7E then brokenUnit else ascii.character b⟩

/-- A charset given by the characters of its upper half. -/
def ofUpperHalf (rows : List String) : SingleByte :=
  let upper := (rows.flatMap String.toList).toArray
  ⟨.singleByte, fun b =>
    if b < 0x80 then ofCode b
    else
      match upper[b.toNat - 0x80]? with
      | some '\ufffd' | none => brokenUnit
      | some c => c⟩

/-- What a name stands for. -/
inductive Named where
  | singleByte (charset : SingleByte)
  | multiByte
  /-- A charset in which markup cannot be written with its usual bytes. -/
  | unusable
  /-- An encoding of something else than text. -/
  | transform
  /-- An encoding that decodes nothing. -/
  | refused (refusal : Refusal)
  | unknown

/-- The words of a name joined by underscores. The first argument tells whether a word is waiting to
be joined. -/
def plainFrom : Bool → List Char → List Char
  | _, [] => []
  | waiting, c :: s =>
    if c.isAlphanum ∨ c = '.' then
      if waiting then '_' :: c.toLower :: plainFrom false s else c.toLower :: plainFrom false s
    else plainFrom true s

/-- A name in lower case, its words joined by underscores, and nothing before the first or after the
last word. -/
def plainName (name : List Char) : String :=
  .ofList (plainFrom false (name.dropWhile fun c => !(c.isAlphanum || c = '.')))

/-- The canonical name of an alias. -/
def ofAlias? (name : String) : Option String :=
  (aliases.find? fun entry => name ∈ entry.2).map (·.1)

/-- Why the encoding of a canonical name decodes nothing, if it does not. -/
def refusal? (name : String) : Option Refusal :=
  [("idna", .strict), ("undefined", .undefined), ("punycode", .notAscii)].lookup name

/-- What a canonical name stands for. -/
def ofCanonical (name : String) : Named :=
  if name ∈ asciiOnly then .singleByte ascii
  else if name ∈ asciiWithoutTilde then .singleByte withoutTilde
  else if name ∈ latinBlock then .singleByte ⟨.singleByte, ofCode⟩
  else if name ∈ multiByte then .multiByte
  else if name ∈ notAscii then .unusable
  else if name ∈ transforms then .transform
  else
    match refusal? name, upperHalves.lookup name with
    | some refusal, _ => .refused refusal
    | none, some rows => .singleByte (ofUpperHalf rows)
    | none, none => .unknown

/-- What a name stands for. A full stop in a name counts as an underscore among aliases, and no
canonical name has one. -/
def ofName (name : List Char) : Named :=
  let plain := plainName name
  let underscored := plain.map fun c => if c = '.' then '_' else c
  match (ofAlias? plain).or (ofAlias? underscored) with
  | some canonical => ofCanonical canonical
  | none => ofCanonical plain

/-- The document in a charset of single bytes, all of whose bytes are shown, read from the offset
on. -/
def SingleByte.source (charset : SingleByte) (bytes : List UInt8) (offset : Nat) : Source :=
  let characters := bytes.map charset.character
  { alphabet := charset.alphabet
    shown := characters
    body := characters.drop offset
    ending := .complete }

/-- What a document that shows one encoding is to be read in after it has named an encoding. -/
inductive Choice where
  /-- As it shows itself. -/
  | asShown
  | singleByte (charset : SingleByte)
  /-- The named encoding contradicts the one that is shown. -/
  | contradiction
  | named (n : Named)

/-- The encodings that are known by their own names only, in any case. -/
def choose (family : Source.Family) (name : List Char) : Choice :=
  let isWide := family.unitSize = 2
  match String.ofList (name.map Char.toUpper) with
  | "ISO-8859-1" => if isWide then .contradiction else .singleByte latin1
  | "US-ASCII" => if isWide then .contradiction else .singleByte ascii
  | "UTF-8" => if isWide then .contradiction else .asShown
  | "UTF-16" => if isWide then .asShown else .contradiction
  | "UTF-16BE" => if family = .utf16 true then .asShown else .contradiction
  | "UTF-16LE" => if family = .utf16 false then .asShown else .contradiction
  | _ => .named (ofName name)

end FxmlWiring.Markup.Charset
