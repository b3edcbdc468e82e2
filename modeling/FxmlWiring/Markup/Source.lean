import FxmlWiring.Markup.Scan
import FxmlWiring.Text.Utf8

/-! # From bytes to characters

A **source** is a document as characters, with what its encoding adds: the alphabet, and how its
bytes end. The first two bytes, or a byte order mark, tell UTF-16 from the rest. A malformed
sequence becomes a stand-in that no document may hold, so a reader stops at the first one. -/

namespace FxmlWiring

open Text

/-- Markup as it is handed in: a text, or bytes that say themselves how they are to be decoded. -/
inductive Markup where
  | decoded (content : List CodePoint)
  | encoded (content : List UInt8)
deriving Repr, DecidableEq

namespace Markup

/-- Markup that is a text of characters. -/
def ofString (s : String) : Markup :=
  .decoded (CodePoint.ofString s)

/-- The bytes of the markup. The characters of a text are taken as UTF-8; surrogates have no
bytes. -/
def toBytes : Markup → List UInt8
  | decoded text => Utf8.encode (CodePoint.characters text)
  | encoded bytes => bytes

@[simp] theorem toBytes_ofString (s : String) : (ofString s).toBytes = Utf8.encode s.toList := by
  simp [ofString, toBytes]

/-- The surrogates for which the markup has no bytes, if it holds such. -/
def surrogates? : Markup → Option Surrogates
  | decoded text => Text.surrogates? text
  | encoded _ => none

@[simp] theorem surrogates?_ofString (s : String) : (ofString s).surrogates? = none :=
  Text.surrogates?_ofString s

/-- A decoded document. -/
structure Source where
  alphabet : Alphabet
  /-- All characters, which positions count. -/
  shown : List Char
  /-- The characters that are to be read. -/
  body : List Char
  ending : Ending

namespace Source

/-- The number of bytes of the character that starts with the byte, for a byte that starts one of
several. -/
def sequenceLength? (lead : UInt8) : Option Nat :=
  if 0xC0 ≤ lead ∧ lead < 0xE0 then some 2
  else if 0xE0 ≤ lead ∧ lead < 0xF0 then some 3
  else if 0xF0 ≤ lead ∧ lead < 0xF5 then some 4
  else none

/-- The characters of UTF-8 bytes. A lead byte without enough bytes after it ends the text. -/
def decodeUtf8 (bytes : List UInt8) : List Char × Ending :=
  match bytes with
  | [] => ([], .complete)
  | b :: bs =>
    match sequenceLength? b with
    | none =>
      let (cs, ending) := decodeUtf8 bs
      ((if b < 0x80 then Char.ofNat b.toNat else brokenUnit) :: cs, ending)
    | some n =>
      if bs.length + 1 < n then ([], .truncated (bs.length + 1))
      else
        match _h : Utf8.next (b :: bs) with
        | .ok (c, rest) =>
          let (cs, ending) := decodeUtf8 rest
          (c :: cs, ending)
        | .error _ =>
          let (cs, ending) := decodeUtf8 (bs.drop (n - 1))
          (brokenSequence :: cs, ending)
termination_by bytes.length
decreasing_by
  · simp
  · exact Utf8.next_length_lt (by assumption)
  · simp only [List.length_cons, List.length_drop]
    omega

/-- The code units of UTF-16 bytes in either order, and whether a byte is left over. -/
def units16 (bigEndian : Bool) : List UInt8 → List Nat × Bool
  | x :: y :: bs =>
    let (us, isOdd) := units16 bigEndian bs
    ((if bigEndian then x.toNat * 0x100 + y.toNat else y.toNat * 0x100 + x.toNat) :: us, isOdd)
  | [_] => ([], true)
  | [] => ([], false)

/-- The characters of UTF-16 code units. A high surrogate goes with whatever unit follows it, of
which ten bits count. -/
def decodeUnits (isOdd : Bool) : List Nat → List Char × Ending
  | [] => ([], if isOdd then .halfUnit else .complete)
  | u :: us =>
    if 0xD800 ≤ u ∧ u < 0xDC00 then
      match us with
      | [] => ([], .truncated 1)
      | v :: vs =>
        let (cs, ending) := decodeUnits isOdd vs
        (Char.ofNat (0x10000 + (u - 0xD800) * 0x400 + v % 0x400) :: cs, ending)
    else
      let (cs, ending) := decodeUnits isOdd us
      let c := if 0xDC00 ≤ u ∧ u < 0xE000 then brokenUnit else Char.ofNat u
      (c :: cs, ending)

/-- The characters of UTF-16 bytes. -/
def decodeUtf16 (bigEndian : Bool) (bytes : List UInt8) : List Char × Ending :=
  let (us, isOdd) := units16 bigEndian bytes
  decodeUnits isOdd us

/-- The encodings that a document shows without saying. -/
inductive Family where
  | utf8
  | utf16 (bigEndian : Bool)
deriving Repr, DecidableEq

namespace Family

/-- Bytes per code unit. -/
def unitSize : Family → Nat
  | utf8 => 1
  | utf16 _ => 2

/-- The alphabet of the documents. -/
def alphabet : Family → Alphabet
  | utf8 => .utf8
  | utf16 _ => .utf16

/-- The characters of the bytes. -/
def decode : Family → List UInt8 → List Char × Ending
  | utf8, bytes => decodeUtf8 bytes
  | utf16 bigEndian, bytes => decodeUtf16 bigEndian bytes

end Family

/-- The encoding that the first bytes show, and how many of them are a byte order mark. There is
none for a start that could go on to show either. -/
def detect : List UInt8 → Option (Family × Nat)
  | [] => some (.utf8, 0)
  | [b] => if b ∈ [0xFE, 0xFF, 0xEF, 0x00, 0x3C] then none else some (.utf8, 0)
  | [0xEF, 0xBB] => none
  | 0xFE :: 0xFF :: _ => some (.utf16 true, 2)
  | 0xFF :: 0xFE :: _ => some (.utf16 false, 2)
  | 0x3C :: 0x00 :: _ => some (.utf16 false, 0)
  | 0xEF :: 0xBB :: 0xBF :: _ => some (.utf8, 3)
  | x :: y :: _ =>
    if x = 0 then some (.utf16 true, 0)
    else if y = 0 then some (.utf16 false, 0)
    else some (.utf8, 0)

/-- The document in the encoding. A byte order mark is shown and not read. -/
def ofFamily (family : Family) (mark : Nat) (bytes : List UInt8) : Source :=
  let (body, ending) := family.decode (bytes.drop mark)
  { alphabet := family.alphabet
    shown := if mark = 0 then body else '\ufeff' :: body
    body, ending }

end Source

end Markup

end FxmlWiring
