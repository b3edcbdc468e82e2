import FxmlWiring.Markup.Charset
import FxmlWiring.Markup.Content
import FxmlWiring.Markup.Prolog.Metering
import FxmlWiring.Markup.XmlDeclaration

/-! # Documents

`parse` reads a whole document: an XML declaration, which may change how the bytes are decoded, the
prolog, the root element, and nothing but blanks, comments and instructions after it. The account of
the document is kept along with it. -/

namespace FxmlWiring.Markup

open Text

namespace Source

/-- A fault of the document with its position. -/
def malformed (s : Source) (f : Fault) : Error :=
  .malformed f.cause (f.position s.shown)

/-- Reads the prolog, the root element and what follows it. -/
def readRoot (s : Source) (standalone : Bool) : Except Error Node :=
  match Prolog.readProlog s.alphabet s.ending .opening { standalone } s.body with
  | .error (.fault f) => .error (s.malformed f)
  | .error .repeatedElement => .error .repeatedElementDeclaration
  | .ok (d, text) =>
    match readContent d s.alphabet s.ending .document d.entities [] [] text with
    | .error f => .error (s.malformed f)
    | .ok ([root], rest) =>
      match Prolog.readEpilog s.alphabet s.ending rest with
      | .error f => .error (s.malformed f)
      | .ok () => .ok root
    | .ok (_, rest) => .error (s.malformed ⟨.noElement, rest⟩)

/-- The account of the document, with what goes before its body. -/
def meter (s : Source) (standalone : Bool) : Except Interruption Account := do
  let start : Account := ⟨s.alphabet.sizeTo s.shown s.body, 0⟩
  let (d, x, text) ←
    Prolog.meterProlog s.alphabet s.ending .opening { standalone } s.body start
  let (x, rest) ← meterContent d s.alphabet s.ending .document d.entities [] text x
  Prolog.meterEpilog s.alphabet s.ending rest x

/-- The text from the token on that makes the account intolerable, if reading gets to one. -/
def limit? (s : Source) (standalone : Bool) : Option (List Char) :=
  match s.meter standalone with
  | .error (.limit text) => some text
  | .error .fault | .ok _ => none

/-- Reads the document from its body on, as long as the account is tolerated. -/
def read (s : Source) (standalone : Bool) : Except Error Node :=
  match s.limit? standalone with
  | some text => .error (s.malformed ⟨.amplification, text⟩)
  | none => s.readRoot standalone

/-- The document after its declaration, in the encoding that the declaration names. Text is not
decoded again. -/
def redecode (s : Source) (markup : Markup) (family : Family) (mark : Nat)
    (encoding : Option (List Char × List Char)) (rest : List Char) (nameRest : List Char) :
    Except Error Source :=
  let after := { s with body := rest }
  match markup, encoding with
  | decoded _, _ | _, none => .ok after
  | encoded bytes, some (name, _) =>
    let offset := mark + family.unitSize * (s.body.length - rest.length)
    match Charset.choose family name with
    | .asShown => .ok after
    | .singleByte charset => .ok (charset.source bytes offset)
    | .contradiction => .error (s.malformed ⟨.incorrectEncoding, nameRest⟩)
    | .named (.singleByte charset) => .ok (charset.source bytes offset)
    | .named .multiByte => .error .multiByteEncoding
    | .named .unusable => .error (s.malformed ⟨.unknownEncoding, nameRest⟩)
    | .named .transform => .error (.notTextEncoding (.ofList name))
    | .named (.refused refusal) => .error (.refusedEncoding (.ofList name) refusal)
    | .named .unknown => .error (.noSuchEncoding (.ofList name))

/-- The text of the XML declaration at the front of the body, between its name and its closing, and
the rest of the body from the closing on; none if no XML declaration stands there. -/
def declaration? (s : Source) : Option (List Char × List Char) :=
  match Prolog.scan s.alphabet s.ending s.body with
  | .ok ⟨.xmlDeclaration, rest, _⟩ =>
    let length := s.body.length - rest.length
    some ((s.body.take (length - 2)).drop 5, s.body.drop (length - 2))
  | _ => none

end Source

/-- Reads a document that shows an encoding. -/
def parseAs (markup : Markup) (family : Source.Family) (mark : Nat) : Except Error Node :=
  let s := Source.ofFamily family mark markup.toBytes
  match s.declaration? with
  | none => s.read false
  | some (text, closing) =>
    match XmlDeclaration.read text with
    | .error left => .error (s.malformed ⟨.malformedDeclaration, left ++ closing⟩)
    | .ok contents =>
      let nameRest := (contents.encoding.map (·.2)).getD [] ++ closing
      match s.redecode markup family mark contents.encoding (closing.drop 2) nameRest with
      | .error e => .error e
      | .ok s => s.read contents.standalone

/-- Reads a document: its root element with everything below it, or why it cannot be read. -/
def parse (markup : Markup) : Except Error Node :=
  match markup.surrogates? with
  | some s => .error (.surrogates s)
  | none =>
    match Source.detect markup.toBytes with
    | none => .error (.malformed .unclosedToken .start)
    | some (family, mark) => parseAs markup family mark

end FxmlWiring.Markup
