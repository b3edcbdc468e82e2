/-! # UTF-8

`encode` writes characters as bytes. `next` takes one character off a byte sequence and otherwise
names the **flaw**, and `decode` reads the whole sequence. Only shortest forms of Unicode scalar
values are characters: the byte after the lead byte is confined accordingly. -/

namespace FxmlWiring.Text.Utf8

/-- The bytes of a text. -/
def encode (s : List Char) : List UInt8 :=
  s.flatMap String.utf8EncodeChar

/-- Why a byte sequence holds no character at some place. -/
inductive Flaw where
  /-- No character starts with this byte. -/
  | startByte
  /-- A byte that has to continue a character does not. -/
  | continuationByte
  /-- The sequence ends inside a character. -/
  | endOfData
deriving Repr, DecidableEq

/-- The wording of a flaw. -/
def Flaw.message : Flaw → String
  | startByte => "invalid start byte"
  | continuationByte => "invalid continuation byte"
  | endOfData => "unexpected end of data"

/-- Bounds of the bytes that follow a lead byte; a byte that starts no character has none. -/
def followers (lead : UInt8) : Option (List (UInt8 × UInt8)) :=
  if lead < 0x80 then some []
  else if lead < 0xC2 then none
  else if lead < 0xE0 then some [(0x80, 0xBF)]
  else if lead = 0xE0 then some [(0xA0, 0xBF), (0x80, 0xBF)]
  else if lead = 0xED then some [(0x80, 0x9F), (0x80, 0xBF)]
  else if lead < 0xF0 then some [(0x80, 0xBF), (0x80, 0xBF)]
  else if lead = 0xF0 then some [(0x90, 0xBF), (0x80, 0xBF), (0x80, 0xBF)]
  else if lead < 0xF4 then some [(0x80, 0xBF), (0x80, 0xBF), (0x80, 0xBF)]
  else if lead = 0xF4 then some [(0x80, 0x8F), (0x80, 0xBF), (0x80, 0xBF)]
  else none

/-- The bits of a lead byte with so many followers that belong to the code point. -/
def leadBits (lead : UInt8) : Nat → Nat
  | 0 => lead.toNat
  | 1 => lead.toNat % 0x20
  | 2 => lead.toNat % 0x10
  | _ => lead.toNat % 0x08

/-- Reads the bytes after a lead byte. `code` holds the bits so far, and `taken` counts the bytes
so far, which are the extent of a flaw. -/
def follow (code taken : Nat) :
    List (UInt8 × UInt8) → List UInt8 → Except (Flaw × Nat) (Char × List UInt8)
  | [], bytes => .ok (Char.ofNat code, bytes)
  | _ :: _, [] => .error (.endOfData, taken)
  | (low, high) :: bounds, b :: bytes =>
    if low ≤ b ∧ b ≤ high then follow (code * 0x40 + b.toNat % 0x40) (taken + 1) bounds bytes
    else .error (.continuationByte, taken)

/-- The first character of a byte sequence and the bytes after it, or the flaw at its front with the
number of bytes that it spans. -/
def next : List UInt8 → Except (Flaw × Nat) (Char × List UInt8)
  | [] => .error (.endOfData, 0)
  | lead :: bytes =>
    match followers lead with
    | some bounds => follow (leadBits lead bounds.length) 1 bounds bytes
    | none => .error (.startByte, 1)

theorem follow_length {code taken : Nat} {bounds : List (UInt8 × UInt8)} {bytes rest : List UInt8}
    {c : Char} (h : follow code taken bounds bytes = .ok (c, rest)) :
    bytes.length = rest.length + bounds.length := by
  fun_induction follow code taken bounds bytes with
  | case1 => simp_all
  | case2 => simp at h
  | case3 _ _ _ _ _ _ _ _ ih => simp only [List.length_cons]; have := ih h; omega
  | case4 => simp at h

/-- A character takes at least one byte. -/
theorem next_length_lt {bytes rest : List UInt8} {c : Char} (h : next bytes = .ok (c, rest)) :
    rest.length < bytes.length := by
  unfold next at h
  split at h
  · simp at h
  · split at h
    · have := follow_length h
      simp only [List.length_cons]
      omega
    · simp at h

/-- What is wrong with a byte sequence that is no UTF-8 text: the flaw, its first byte, and the
range of its offsets. -/
structure Fault where
  flaw : Flaw
  byte : UInt8
  start : Nat
  length : Nat
deriving Repr, DecidableEq

/-- The characters of a byte sequence that starts at the offset. -/
def decodeFrom (offset : Nat) (bytes : List UInt8) : Except Fault (List Char) :=
  match bytes with
  | [] => .ok []
  | b :: bs =>
    match _h : next (b :: bs) with
    | .ok (c, rest) =>
      (decodeFrom (offset + ((b :: bs).length - rest.length)) rest).map (c :: ·)
    | .error (flaw, length) => .error ⟨flaw, b, offset, length⟩
termination_by bytes.length
decreasing_by exact next_length_lt (by assumption)

/-- The text that the bytes encode. -/
def decode (bytes : List UInt8) : Except Fault (List Char) :=
  decodeFrom 0 bytes

/-- A digit of a hexadecimal number in lower case. -/
def hexDigit (n : Nat) : Char :=
  "0123456789abcdef".toList.getD n '0'

/-- A byte as two hexadecimal digits. -/
def hexByte (b : UInt8) : String :=
  .ofList [hexDigit (b.toNat / 16), hexDigit (b.toNat % 16)]

/-- The wording of a fault, with the byte if it spans only one, else with the range of offsets. -/
def Fault.message (f : Fault) : String :=
  "'utf-8' codec can't decode " ++
    (if f.length = 1 then "byte 0x" ++ hexByte f.byte ++ " in position " ++ toString f.start
     else "bytes in position " ++ toString f.start ++ "-" ++ toString (f.start + f.length - 1)) ++
    ": " ++ f.flaw.message

end FxmlWiring.Text.Utf8
