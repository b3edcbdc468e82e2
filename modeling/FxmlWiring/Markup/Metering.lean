import FxmlWiring.Markup.Content

/-! # The limit on amplification

Entities make a long text of a short document, so the bytes that are read are counted: those of the
document, and those of replacement texts each time that one is read. A token goes into the
**account** as soon as it is scanned, and reading ends there if the account is not **tolerated**.

The functions that keep the account go over a text as its reader does. They end early where
something is wrong with the text, and leave it to the reader to tell what. -/

namespace FxmlWiring.Markup

/-! ## Accounts -/

/-- The bytes that have been read. -/
structure Account where
  /-- Those of the document. -/
  direct : Nat
  /-- Those of replacement texts. -/
  expanded : Nat
deriving Repr, DecidableEq

/-- The number rounded to 24 binary digits, a half to the even one of its neighbours. -/
def round24 (n : Nat) : Nat :=
  let unit := 1 <<< (n.log2 - 23)
  let q := n / unit
  let r := n % unit
  (if unit < 2 * r ∨ unit = 2 * r ∧ q % 2 = 1 then q + 1 else q) * unit

/-- Why the account of a text ends early. -/
inductive Interruption where
  /-- Something is wrong with the text. -/
  | fault
  /-- The token at the front of `text` makes the account intolerable. -/
  | limit (text : List Char)
deriving Repr, DecidableEq

/-- The same interruption, found at another place. -/
def Interruption.movedTo (text : List Char) : Interruption → Interruption
  | fault => fault
  | limit _ => limit text

namespace Account

/-- All bytes that have been read. -/
def output (x : Account) : Nat :=
  x.direct + x.expanded

/-- Whether the account is tolerated: as long as it is below 8 MiB, and if it makes no more than a
hundred bytes of each byte of the document. Both numbers and their quotient are rounded to 24
digits, and a quotient up to 100 + 2⁻¹⁸, which is 26214401 / 262144, is rounded to a hundred at
most. -/
def isTolerated (x : Account) : Bool :=
  x.output < 8388608 || round24 x.output * 262144 ≤ 26214401 * round24 x.direct

/-- The account with more bytes of a document or of a replacement text. -/
def add (x : Account) (place : Place) (bytes : Nat) : Account :=
  match place with
  | .document => { x with direct := x.direct + bytes }
  | .entity => { x with expanded := x.expanded + bytes }

/-- Puts a token into the account, unless it belongs to something that is in it already. The token
is at the front of `text`, or part of what is there. -/
def charge (x : Account) (place : Option Place) (bytes : Nat) (text : List Char) :
    Except Interruption Account :=
  match place with
  | none => .ok x
  | some place =>
    if (x.add place bytes).isTolerated then .ok (x.add place bytes) else .error (.limit text)

end Account

/-- The bytes of what stands before the rest of a text. -/
def Alphabet.sizeTo (a : Alphabet) (text rest : List Char) : Nat :=
  a.size (text.take (text.length - rest.length))

/-- The bytes after the last code unit. -/
def Ending.oddBytes : Ending → Nat
  | halfUnit => 1
  | complete | truncated _ => 0

/-- Whether the character breaks a line, alone or with another one. -/
def Alphabet.breaksLine (a : Alphabet) (c : Char) : Bool :=
  c = '\n' || c = '\r' && a.breaksAtReturn

/-! ## Attribute values -/

/-- A character of a value that stands for itself. -/
def isPlainInValue (c : Char) : Bool :=
  c ≠ '&' && c ≠ '<' && !isSpace c

/-- Keeps the account of a value: of its references, its blanks, and its other characters as far as
they stand in a row. `tagAt` is the text from the tag on. -/
def meterValue (d : Declarations) (a : Alphabet) (place : Option Place) (tagAt : List Char)
    (closed : Entities) (s : List Char) (x : Account) : Except Interruption Account :=
  match s with
  | [] => .ok x
  | c :: s =>
    if c = '&' then
      match _h : Reference.scan a s with
      | .error _ => .error .fault
      | .ok (r, rest) => do
        let x ← x.charge place (a.sizeTo (c :: s) rest) tagAt
        match r with
        | .character code =>
          if (Reference.characterOf? code).isSome then meterValue d a place tagAt closed rest x
          else .error .fault
        | .entity name =>
          -- The character of a predefined entity is counted, but no limit is looked at.
          if (Reference.predefined? name).isSome then
            meterValue d a place tagAt closed rest (x.add .entity 1)
          else
            match _h : closed.lookup name with
            | some (.internal text) => do
              let x ← meterValue d .internal (some .entity) tagAt (closed.without name) text x
              meterValue d a place tagAt closed rest x
            | some _ => .error .fault
            | none =>
              if d.declares name || d.isStrict then .error .fault
              else meterValue d a place tagAt closed rest x
    else if c = '<' then .error .fault
    else if isSpace c then do
      let rest := skipPairedBreak a c s
      -- A break at the very end is left out.
      let bytes := if c = '\r' ∧ a.breaksAtReturn ∧ s = [] then 0 else a.sizeTo (c :: s) rest
      let x ← x.charge place bytes tagAt
      meterValue d a place tagAt closed rest x
    else
      let rest := s.dropWhile isPlainInValue
      if rest.head? = some '<' then .error .fault
      else do
        let x ← x.charge place (a.sizeTo (c :: s) rest) tagAt
        meterValue d a place tagAt closed rest x
termination_by (closed.length, s.length)
decreasing_by
  all_goals first
    | exact Prod.Lex.left _ _ (Entities.length_without_lt (by assumption))
    | exact Prod.Lex.right _ (Nat.lt_succ_of_lt (Reference.length_scan_lt (by assumption)))
    | exact Prod.Lex.right _ (Nat.lt_succ_of_le (length_skipPairedBreak_le a c s))
    | exact Prod.Lex.right _ (Nat.lt_succ_of_le (Text.length_dropWhile_le isPlainInValue s))

/-- Whether a value is written as it is read, whatever the type of the attribute. -/
def isReadAsWritten (value : List Char) : Bool :=
  value.all (fun c => c ≠ '&' && (c = ' ' || !isSpace c)) && squeeze value = value

/-- Keeps the account of an attribute. A value that is read as it is written is part of the tag and
no more. -/
def meterAttribute (d : Declarations) (a : Alphabet) (place : Option Place) (tagAt : List Char)
    (closed : Entities) (w : WrittenAttribute) (x : Account) : Except Interruption Account :=
  if isReadAsWritten w.value then .ok x else meterValue d a place tagAt closed w.value x

/-- Keeps the account of the attributes of a tag. -/
def meterAttributes (d : Declarations) (a : Alphabet) (place : Option Place) (tagAt : List Char)
    (closed : Entities) (seen : List (List Char)) (written : List WrittenAttribute) (x : Account) :
    Except Interruption Account :=
  match written with
  | [] => .ok x
  | w :: ws =>
    if seen.contains w.name then .error .fault
    else do
      let x ← meterAttribute d a place tagAt closed w x
      meterAttributes d a place tagAt closed (w.name :: seen) ws x

/-! ## Content -/

/-- Keeps the account of a `CDATA` section from the text in it on: of line breaks, brackets, and
other characters as far as they stand in a row. -/
def meterCdata (a : Alphabet) (ending : Ending) (place : Place) (text : List Char) (x : Account) :
    Except Interruption Account :=
  match text with
  | [] => .error .fault
  | ']' :: ']' :: '>' :: s => x.charge (some place) (a.sizeTo text s) text
  | c :: s =>
    if !isLegal c then .error .fault
    else if !ending.isTruncated ∧ endsUndecided (c :: s) ∧ (c = ']' ∨ a.breaksLine c) then
      .error .fault
    else do
      let rest :=
        if a.breaksLine c then skipPairedBreak a c s
        else s.dropWhile fun c => c ≠ ']' && !a.breaksLine c && isLegal c
      let x ← x.charge (some place) (a.sizeTo (c :: s) rest) (c :: s)
      meterCdata a ending place rest x
termination_by text.length
decreasing_by
  refine Nat.lt_succ_of_le ?_
  split
  · exact length_skipPairedBreak_le a c s
  · exact Text.length_dropWhile_le ..

/-- Keeps the account of a `CDATA` section, if one starts at the front of the text. -/
def meterSection (a : Alphabet) (ending : Ending) (place : Place) (text : List Char) (x : Account) :
    Except Interruption Account :=
  match text with
  | '<' :: '!' :: '[' :: s =>
    match scanCdataStart a ending s with
    | .error _ => .ok x
    | .ok rest => do
      let x ← x.charge (some place) (a.sizeTo text rest) text
      meterCdata a ending place rest x
  | _ => .ok x

/-- Keeps the account of a token that starts as a tag and adds nothing: of a comment, of an
instruction, or of a `CDATA` section. -/
def meterMarkup (a : Alphabet) (ending : Ending) (place : Place) (text rest : List Char)
    (x : Account) : Except Interruption Account :=
  match text with
  | '<' :: '!' :: '[' :: _ => meterSection a ending place text x
  | _ => x.charge (some place) (a.sizeTo text rest) text

/-- The text after character data that has started, up to a line break or markup; none if `]]>`
stands in it. Brackets at the very end are not part of it. -/
def skipData (a : Alphabet) (ending : Ending) : List Char → Option (List Char)
  | [] => some []
  | ']' :: ']' :: '>' :: _ => none
  | c :: s =>
    if c = '<' ∨ c = '&' ∨ a.breaksLine c ∨ !isLegal c then some (c :: s)
    else if !ending.isTruncated ∧ (c :: s = [']'] ∨ c :: s = [']', ']']) then some (c :: s)
    else skipData a ending s

/-- The text after the token of character data at its front: a line break, or other characters in a
row. -/
def dataEnd? (a : Alphabet) (ending : Ending) : List Char → Option (List Char)
  | [] => none
  | ']' :: ']' :: '>' :: _ => none
  | c :: s => if a.breaksLine c then some (skipPairedBreak a c s) else skipData a ending s

theorem length_skipData_le {a : Alphabet} {ending : Ending} {s r : List Char}
    (h : skipData a ending s = some r) : r.length ≤ s.length := by
  fun_induction skipData a ending s with
  | case1 =>
    obtain rfl := Option.some.inj h
    exact Nat.le_refl _
  | case2 => cases h
  | case3 =>
    obtain rfl := Option.some.inj h
    exact Nat.le_refl _
  | case4 =>
    obtain rfl := Option.some.inj h
    exact Nat.le_refl _
  | case5 c s _ _ _ ih => exact Nat.le_succ_of_le (ih h)

theorem length_dataEnd?_lt {a : Alphabet} {ending : Ending} {s r : List Char}
    (h : dataEnd? a ending s = some r) : r.length < s.length := by
  unfold dataEnd? at h
  split at h
  · cases h
  · cases h
  · rename_i c s _
    refine Nat.lt_succ_of_le ?_
    split at h
    · obtain rfl := Option.some.inj h
      exact length_skipPairedBreak_le a c s
    · exact length_skipData_le h

/-- Keeps the account of what is left where content ends. -/
def meterEnd (a : Alphabet) (ending : Ending) (place : Place) (text : List Char) (x : Account) :
    Except Interruption Account :=
  if text = [] then .ok x else x.charge (some place) (a.size text + ending.oddBytes) text

/-- Keeps the account of content. `stack` holds the names of the open elements, the innermost first.
The answer tells the rest of the text after the root element of a document. -/
def meterContent (d : Declarations) (a : Alphabet) (ending : Ending) (place : Place)
    (closed : Entities) (stack : List (List Char)) (text : List Char) (x : Account) :
    Except Interruption (Account × List Char) :=
  match endOfContent? ending text with
  | some _ => do
    let x ← meterEnd a ending place text x
    if place = .entity ∧ stack = [] then .ok (x, []) else .error .fault
  | none =>
    match _h : scanContent a ending text with
    | .error _ => do
      let _ ← meterSection a ending place text x
      .error .fault
    | .ok (.ignorable, rest) =>
      if text.head? = some '<' then do
        let x ← meterMarkup a ending place text rest x
        meterContent d a ending place closed stack rest x
      else
        match _h : dataEnd? a ending text with
        | none => .error .fault
        | some rest => do
          let x ← x.charge (some place) (a.sizeTo text rest) text
          meterContent d a ending place closed stack rest x
    | .ok (.declaration, rest) => do
      let _ ← x.charge (some place) (a.sizeTo text rest) text
      .error .fault
    | .ok (.reference r, rest) => do
      let x ← x.charge (some place) (a.sizeTo text rest) text
      match r with
      | .character code =>
        if (Reference.characterOf? code).isSome then
          meterContent d a ending place closed stack rest x
        else .error .fault
      | .entity name =>
        if (Reference.predefined? name).isSome then
          meterContent d a ending place closed stack rest (x.add .entity 1)
        else
          match _h : closed.lookup name with
          | some (.internal inner) => do
            let (x, _) ←
              (meterContent d .internal .complete .entity (closed.without name) [] inner
                x).mapError (·.movedTo text)
            meterContent d a ending place closed stack rest x
          | some .external => meterContent d a ending place closed stack rest x
          | some .unparsed => .error .fault
          | none =>
            if d.declares name || d.isStrict then .error .fault
            else meterContent d a ending place closed stack rest x
    | .ok (.startTag tag, rest) => do
      let x ← x.charge (some place) (a.sizeTo text rest) text
      -- In a tag that opens an element, the values are counted again.
      let again := if tag.isEmpty then none else some place
      let x ← meterAttributes d a again text closed [] tag.attributes x
      if tag.isEmpty then
        if place = .document ∧ stack = [] then .ok (x, rest)
        else meterContent d a ending place closed stack rest x
      else meterContent d a ending place closed (tag.name :: stack) rest x
    | .ok (.endTag name _, rest) => do
      let x ← x.charge (some place) (a.sizeTo text rest) text
      match stack with
      | [] => .error .fault
      | element :: stack =>
        if name = element then
          if place = .document ∧ stack = [] then .ok (x, rest)
          else meterContent d a ending place closed stack rest x
        else .error .fault
termination_by (closed.length, text.length)
decreasing_by
  all_goals first
    | exact Prod.Lex.left _ _ (Entities.length_without_lt (by assumption))
    | exact Prod.Lex.right _ (length_scanContent_lt (by assumption))
    | exact Prod.Lex.right _ (length_dataEnd?_lt (by assumption))

end FxmlWiring.Markup
