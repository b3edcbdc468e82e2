import FxmlWiring.Text.CodePoint
import FxmlWiring.Text.LineBreak

/-! # What can be wrong with a document

A **cause** says why a document is not well-formed; reading stops at the first one. `Error` is what
the reader of a whole document answers: a cause with its position, or a failure that has none. -/

namespace FxmlWiring.Markup

open Text

/-- Why a document is not well-formed. -/
inductive Cause where
  /-- The document ends before its root element does. -/
  | noElement
  /-- A character stands where it cannot. -/
  | invalidToken
  /-- The text ends inside a token. -/
  | unclosedToken
  /-- The text ends inside the bytes of a character. -/
  | partialCharacter
  /-- An end tag names another element than the one that is open. -/
  | mismatchedTag
  /-- An attribute occurs twice in a tag. -/
  | duplicateAttribute
  /-- Something follows the root element. -/
  | junkAfterRoot
  /-- A parameter entity is used inside a declaration. -/
  | parameterReference
  /-- An entity is used that is not declared. -/
  | undefinedEntity
  /-- An entity is used inside its own replacement text. -/
  | recursiveEntity
  /-- Elements do not nest within the replacement text of an entity. -/
  | asynchronousEntity
  /-- A character reference names no legal character. -/
  | invalidCharacterNumber
  /-- An entity that holds no text is used. -/
  | binaryEntity
  /-- An entity outside the document is used in an attribute. -/
  | externalEntityInAttribute
  /-- The XML declaration stands elsewhere than at the start. -/
  | misplacedDeclaration
  /-- The document names an encoding that is of no use. -/
  | unknownEncoding
  /-- The document names another encoding than its own. -/
  | incorrectEncoding
  /-- A `CDATA` section is not closed. -/
  | unclosedCdata
  /-- A token stands where it cannot. -/
  | unexpectedToken
  /-- A public identifier holds a character that it must not hold. -/
  | publicId
  /-- The XML declaration is malformed. -/
  | malformedDeclaration
  /-- The entities make too much of the document. -/
  | amplification
deriving Repr, DecidableEq

/-- The wording of a cause. -/
def Cause.message : Cause → String
  | noElement => "no element found"
  | invalidToken => "not well-formed (invalid token)"
  | unclosedToken => "unclosed token"
  | partialCharacter => "partial character"
  | mismatchedTag => "mismatched tag"
  | duplicateAttribute => "duplicate attribute"
  | junkAfterRoot => "junk after document element"
  | parameterReference => "illegal parameter entity reference"
  | undefinedEntity => "undefined entity"
  | recursiveEntity => "recursive entity reference"
  | asynchronousEntity => "asynchronous entity"
  | invalidCharacterNumber => "reference to invalid character number"
  | binaryEntity => "reference to binary entity"
  | externalEntityInAttribute => "reference to external entity in attribute"
  | misplacedDeclaration => "XML or text declaration not at start of entity"
  | unknownEncoding => "unknown encoding"
  | incorrectEncoding => "encoding specified in XML declaration is incorrect"
  | unclosedCdata => "unclosed CDATA section"
  | unexpectedToken => "syntax error"
  | publicId => "illegal character(s) in public id"
  | malformedDeclaration => "XML declaration not well-formed"
  | amplification => "limit on input amplification factor (from DTD and entities) breached"

/-- Why a known encoding decodes nothing. -/
inductive Refusal where
  /-- It does not pass over what it cannot decode. -/
  | strict
  /-- It is there to be refused. -/
  | undefined
  /-- It takes bytes of ASCII only. -/
  | notAscii
deriving Repr, DecidableEq

/-- A document that cannot be read. -/
inductive Error where
  /-- It is not well-formed. -/
  | malformed (cause : Cause) (position : Position)
  /-- It is a text with surrogates. -/
  | surrogates (s : Surrogates)
  /-- It names an encoding that nobody knows. -/
  | noSuchEncoding (name : String)
  /-- It names an encoding that is not one of text. -/
  | notTextEncoding (name : String)
  /-- It names an encoding that decodes nothing. -/
  | refusedEncoding (name : String) (refusal : Refusal)
  /-- It names an encoding with characters of several bytes. -/
  | multiByteEncoding
  /-- It declares an element twice. -/
  | repeatedElementDeclaration
deriving Repr, DecidableEq

/-- The wording of a refusal. -/
def Refusal.message (name : String) : Refusal → String
  | strict =>
    "decoding with '" ++ name ++ "' codec failed (UnicodeError: Unsupported error handling replace)"
  | undefined => "decoding with '" ++ name ++ "' codec failed (UnicodeError: undefined encoding)"
  | notAscii => "'ascii' codec can't decode byte 0x80 in position 82: ordinal not in range(128)"

/-- The wording of an error. -/
def Error.message : Error → String
  | malformed cause p =>
    "FXML is not well-formed: " ++ cause.message ++ ": line " ++ toString p.line ++ ", column " ++
      toString p.column
  | noSuchEncoding name => "unknown encoding: " ++ name
  | notTextEncoding name =>
    "'" ++ name ++ "' is not a text encoding; use codecs.decode() to handle arbitrary codecs"
  | surrogates s => s.message
  | refusedEncoding name refusal => refusal.message name
  | multiByteEncoding => "multi-byte encodings are not supported"
  | repeatedElementDeclaration => ""

/-- A fault found while reading: its cause, and the text from the faulty place on. -/
structure Fault where
  cause : Cause
  rest : List Char
deriving Repr, DecidableEq

/-- The same fault, found at another place. -/
def Fault.movedTo (f : Fault) (rest : List Char) : Fault :=
  ⟨f.cause, rest⟩

/-- The position of a fault in the text in which it was found. -/
def Fault.position (f : Fault) (text : List Char) : Position :=
  .ofEnd (text.take (text.length - f.rest.length))

end FxmlWiring.Markup
