import FxmlWiring.Markup.Enclosed

/-! # Tokens outside the root element

Before and after the root element, and inside the document type, a document is a sequence of
**tokens**: blanks, comments, instructions, and the words and signs of declarations. A token that
ends only because the text does is accepted, and half a code unit after it counts as part of it. -/

namespace FxmlWiring.Markup.Prolog

open Text

/-! ## Tokens -/

/-- A token outside the root element. -/
inductive Token where
  | space
  | comment
  | instruction
  | xmlDeclaration
  /-- `<!` and a keyword. -/
  | declaration (keyword : List Char)
  /-- `<![`. -/
  | sectionOpen
  /-- `]]>`. -/
  | sectionClose
  /-- `<` and what may be the name of an element. -/
  | elementStart
  /-- What stands between quotes, with the text from the closing quote on, and whether half a code
  unit is taken for a part of it. -/
  | literal (value valueEnd : List Char) (isCut : Bool)
  /-- A name, and the sign of repetition after it. -/
  | name (name : List Char) (repetition : Option Char)
  /-- A word that starts like no name. -/
  | nameToken
  /-- A name after a number sign. -/
  | keyword (name : List Char)
  | percent
  | parameterReference
  | comma
  | bar
  | openBracket
  | closeBracket
  | openParen
  /-- A closing parenthesis, and the sign of repetition after it. -/
  | closeParen (repetition : Option Char)
  /-- `>`. -/
  | close
deriving Repr, DecidableEq

/-- The token with half a code unit at its end. A word is spelled differently then. -/
def Token.cut : Token → Token
  | name word repetition => name (word ++ [brokenUnit]) repetition
  | keyword word => keyword (word ++ [brokenUnit])
  | literal value valueEnd _ => literal value valueEnd true
  | t => t

/-- A scanned token, the text after it, and whether it ends only because the text does. -/
structure Scanned where
  token : Token
  rest : List Char
  isLast : Bool := false
deriving Repr, DecidableEq

/-! ## Scanning -/

/-- The answer for a token after which the text ends: accepted unless the start of a character
follows. -/
def atEnd (ending : Ending) (halt : Halt) (t : Token) : Except Halt Scanned :=
  match ending with
  | .complete => .ok ⟨t, [], true⟩
  | .halfUnit => .ok ⟨t.cut, [], true⟩
  | .truncated _ => .error halt

/-- Whether the sign may tell how often something is repeated. -/
def isRepetition (c : Char) : Bool :=
  c = '?' || c = '*' || c = '+'

/-- A character after which a word of a declaration has ended. -/
def endsWord (c : Char) : Bool :=
  isSpace c || c = '>' || c = ')' || c = ',' || c = '|' || c = '[' || c = '%'

/-- Scans a word, which is a name if it starts like one. -/
def scanWord (a : Alphabet) (ending : Ending) : List Char → Except Halt Scanned
  | [] => .error .endOfText
  | c :: s =>
    if a.continuesName c then
      let word := c :: s.takeWhile a.continuesName
      let isName := a.startsName c
      let token := fun r => if isName then Token.name word r else .nameToken
      match s.dropWhile a.continuesName with
      | [] => atEnd ending .endOfText (token none)
      | x :: rest =>
        if endsWord x then .ok ⟨token none, x :: rest, false⟩
        else if isRepetition x ∧ isName then .ok ⟨token (some x), rest, false⟩
        else .error (.stray (x :: rest))
    else .error (.stray (c :: s))

/-- Scans a literal after its opening quote. Blanks, `>`, `%` or `[` have to follow it. -/
def scanLiteral (ending : Ending) (quote : Char) (s : List Char) : Except Halt Scanned :=
  match s.dropWhile fun c => isLegal c ∧ c ≠ quote with
  | [] => .error .endOfText
  | c :: rest =>
    if c = quote then
      let token := Token.literal (s.takeWhile fun c => isLegal c ∧ c ≠ quote) (c :: rest) false
      match rest with
      | [] => atEnd ending (.stray []) token
      | x :: _ =>
        if isSpace x ∨ x = '>' ∨ x = '%' ∨ x = '[' then .ok ⟨token, rest, false⟩
        else .error (.stray rest)
    else .error (.stray (c :: rest))

/-- Scans what follows a percent sign: nothing of its own, or the name of a parameter entity and a
semicolon. The answer tells whether it is a reference. -/
def scanPercent (a : Alphabet) (s : List Char) : Scan Bool :=
  match s with
  | [] => .error .endOfText
  | c :: _ =>
    if isSpace c ∨ c = '%' then .ok (false, s)
    else
      match scanName a s with
      | .error h => .error h
      | .ok (_, ';' :: rest) => .ok (true, rest)
      | .ok (_, []) => .error .endOfText
      | .ok (_, rest) => .error (.stray rest)

/-- Scans the name after a number sign. -/
def scanKeyword (a : Alphabet) (ending : Ending) (s : List Char) : Except Halt Scanned :=
  match scanName a s with
  | .error h => .error h
  | .ok (name, []) => atEnd ending .endOfText (.keyword name)
  | .ok (name, c :: rest) =>
    if isSpace c ∨ c = ')' ∨ c = '>' ∨ c = '%' ∨ c = '|' then
      .ok ⟨.keyword name, c :: rest, false⟩
    else .error (.stray (c :: rest))

/-- Scans what follows `<!`. -/
def scanDeclaration (a : Alphabet) (ending : Ending) (s : List Char) : Except Halt Scanned :=
  match s with
  | [] => .error .endOfMarkup
  | '-' :: s => (scanComment s).map (⟨.comment, ·, false⟩)
  | '[' :: s => .ok ⟨.sectionOpen, s, false⟩
  | c :: s =>
    if a.spellsKeyword c then
      let token := Token.declaration (c :: s.takeWhile a.spellsKeyword)
      match s.dropWhile a.spellsKeyword with
      | [] => .error .endOfMarkup
      | '%' :: rest =>
        match rest with
        | [] => if ending.isTruncated then .ok ⟨token, '%' :: rest, false⟩ else .error .tooShort
        | x :: _ =>
          if isSpace x ∨ x = '%' then .error (.stray ('%' :: rest))
          else .ok ⟨token, '%' :: rest, false⟩
      | x :: rest =>
        if isSpace x then .ok ⟨token, x :: rest, false⟩ else .error (.stray (x :: rest))
    else .error (.stray (c :: s))

/-- Scans a bracket after the first one: two of them with `>` close a section. -/
def scanBrackets (ending : Ending) (s : List Char) : Except Halt Scanned :=
  match s with
  | [] => .ok ⟨.closeBracket, [], !ending.isTruncated⟩
  | ']' :: '>' :: rest => .ok ⟨.sectionClose, rest, false⟩
  | ']' :: [] => if ending.isTruncated then .ok ⟨.closeBracket, s, false⟩ else .error .tooShort
  | _ => .ok ⟨.closeBracket, s, false⟩

/-- Scans what follows a closing parenthesis. -/
def scanParen (ending : Ending) (s : List Char) : Except Halt Scanned :=
  match s with
  | [] => atEnd ending (.stray []) (.closeParen none)
  | c :: rest =>
    if isRepetition c then .ok ⟨.closeParen (some c), rest, false⟩
    else if isSpace c ∨ c = '>' ∨ c = ',' ∨ c = '|' ∨ c = ')' then
      .ok ⟨.closeParen none, s, false⟩
    else .error (.stray s)

/-- Scans the next token. -/
def scan (a : Alphabet) (ending : Ending) (text : List Char) : Except Halt Scanned :=
  match text with
  | [] => .error .endOfText
  | '<' :: [] => if ending.isTruncated then .ok ⟨.elementStart, [], false⟩ else .error .endOfText
  | '<' :: '!' :: s => scanDeclaration a ending s
  | '<' :: '?' :: s =>
    (scanInstruction a s).map fun (target, rest) =>
      ⟨if target = ['x', 'm', 'l'] then .xmlDeclaration else .instruction, rest, false⟩
  | '<' :: c :: s =>
    if a.opensElement c then .ok ⟨.elementStart, c :: s, false⟩ else .error (.stray (c :: s))
  | '%' :: s =>
    (scanPercent a s).map fun (isReference, rest) =>
      ⟨if isReference then .parameterReference else .percent, rest, false⟩
  | ',' :: s => .ok ⟨.comma, s, false⟩
  | '|' :: s => .ok ⟨.bar, s, false⟩
  | '[' :: s => .ok ⟨.openBracket, s, false⟩
  | ']' :: s => scanBrackets ending s
  | '(' :: s => .ok ⟨.openParen, s, false⟩
  | ')' :: s => scanParen ending s
  | '>' :: s => .ok ⟨.close, s, false⟩
  | '#' :: s => scanKeyword a ending s
  | c :: s =>
    if isSpace c then .ok ⟨.space, s, false⟩
    else if c = '"' ∨ c = '\'' then scanLiteral ending c s
    else scanWord a ending text

/-! ## Progress

Every token takes at least one character, so reading token by token comes to an end. -/

theorem length_atEnd_le {ending : Ending} {halt : Halt} {t : Token} {r : Scanned} (n : Nat)
    (h : atEnd ending halt t = .ok r) : r.rest.length ≤ n := by
  unfold atEnd at h
  split at h
  · obtain rfl := Except.ok.inj h
    simp
  · obtain rfl := Except.ok.inj h
    simp
  · simp at h

theorem length_scanWord_lt {a : Alphabet} {ending : Ending} {s : List Char} {r : Scanned}
    (h : scanWord a ending s = .ok r) : r.rest.length < s.length := by
  unfold scanWord at h
  split at h
  · simp at h
  · rename_i c s
    split at h
    · have hd := length_dropWhile_le a.continuesName s
      dsimp only at h
      split at h
      · exact Nat.lt_succ_of_le (length_atEnd_le _ h)
      · rename_i hs
        rw [hs] at hd
        split at h
        · obtain rfl := Except.ok.inj h
          simp only [List.length_cons] at *
          omega
        · split at h
          · obtain rfl := Except.ok.inj h
            simp only [List.length_cons] at *
            omega
          · simp at h
    · simp at h

theorem length_scanLiteral_le {ending : Ending} {q : Char} {s : List Char} {r : Scanned}
    (h : scanLiteral ending q s = .ok r) : r.rest.length ≤ s.length := by
  unfold scanLiteral at h
  have hd := length_dropWhile_le (fun c => isLegal c ∧ c ≠ q) s
  split at h
  · simp at h
  · rename_i hs
    rw [hs] at hd
    split at h
    · dsimp only at h
      split at h
      · exact length_atEnd_le _ h
      · split at h
        · obtain rfl := Except.ok.inj h
          simp only [List.length_cons] at *
          omega
        · simp at h
    · simp at h

theorem length_scanPercent_le {a : Alphabet} {s r : List Char} {b : Bool}
    (h : scanPercent a s = .ok (b, r)) : r.length ≤ s.length := by
  unfold scanPercent at h
  split at h
  · simp at h
  · split at h
    · simp only [Except.ok.injEq, Prod.mk.injEq] at h
      obtain ⟨-, rfl⟩ := h
      exact Nat.le_refl _
    · split at h
      · simp at h
      · rename_i hn
        have := length_scanName_lt hn
        simp only [Except.ok.injEq, Prod.mk.injEq] at h
        obtain ⟨-, rfl⟩ := h
        simp only [List.length_cons] at *
        omega
      · simp at h
      · simp at h

theorem length_scanKeyword_le {a : Alphabet} {ending : Ending} {s : List Char} {r : Scanned}
    (h : scanKeyword a ending s = .ok r) : r.rest.length ≤ s.length := by
  unfold scanKeyword at h
  split at h
  · simp at h
  · exact length_atEnd_le _ h
  · rename_i hn
    have := length_scanName_lt hn
    split at h
    · obtain rfl := Except.ok.inj h
      exact Nat.le_of_lt this
    · simp at h

theorem length_scanDeclaration_le {a : Alphabet} {ending : Ending} {s : List Char} {r : Scanned}
    (h : scanDeclaration a ending s = .ok r) : r.rest.length ≤ s.length := by
  unfold scanDeclaration at h
  split at h
  · simp at h
  · rename_i s
    cases hc : scanComment s with
    | error e => simp [hc, Except.map] at h
    | ok t =>
      have := length_scanComment_lt hc
      rw [hc] at h
      obtain rfl := Except.ok.inj h
      simp only [List.length_cons]
      omega
  · obtain rfl := Except.ok.inj h
    simp
  · rename_i c s _ _
    have hd := length_dropWhile_le a.spellsKeyword s
    split at h
    · dsimp only at h
      split at h
      · simp at h
      · rename_i hs
        rw [hs] at hd
        split at h
        · split at h
          · obtain rfl := Except.ok.inj h
            simp only [List.length_cons] at *
            omega
          · simp at h
        · split at h
          · simp at h
          · obtain rfl := Except.ok.inj h
            simp only [List.length_cons] at *
            omega
      · rename_i hs
        rw [hs] at hd
        split at h
        · obtain rfl := Except.ok.inj h
          simp only [List.length_cons] at *
          omega
        · simp at h
    · simp at h

theorem length_scanBrackets_le {ending : Ending} {s : List Char} {r : Scanned}
    (h : scanBrackets ending s = .ok r) : r.rest.length ≤ s.length := by
  unfold scanBrackets at h
  split at h
  · obtain rfl := Except.ok.inj h
    simp
  · obtain rfl := Except.ok.inj h
    simp only [List.length_cons]
    omega
  · split at h
    · obtain rfl := Except.ok.inj h
      simp
    · simp at h
  · obtain rfl := Except.ok.inj h
    exact Nat.le_refl _

theorem length_scanParen_le {ending : Ending} {s : List Char} {r : Scanned}
    (h : scanParen ending s = .ok r) : r.rest.length ≤ s.length := by
  unfold scanParen at h
  split at h
  · exact length_atEnd_le _ h
  · split at h
    · obtain rfl := Except.ok.inj h
      simp
    · split at h
      · obtain rfl := Except.ok.inj h
        exact Nat.le_refl _
      · simp at h

/-- A token takes at least one character. -/
theorem length_scan_lt {a : Alphabet} {ending : Ending} {text : List Char} {r : Scanned}
    (h : scan a ending text = .ok r) : r.rest.length < text.length := by
  unfold scan at h
  split at h
  · simp at h
  · split at h
    · obtain rfl := Except.ok.inj h
      simp
    · simp at h
  · have := length_scanDeclaration_le h
    simp only [List.length_cons]
    omega
  · rename_i s
    cases hi : scanInstruction a s with
    | error e => simp [hi, Except.map] at h
    | ok t =>
      have := length_scanInstruction_lt hi
      rw [hi] at h
      obtain rfl := Except.ok.inj h
      simp only [List.length_cons]
      omega
  · split at h
    · obtain rfl := Except.ok.inj h
      simp
    · simp at h
  · rename_i s
    cases hp : scanPercent a s with
    | error e => simp [hp, Except.map] at h
    | ok t =>
      have := length_scanPercent_le hp
      rw [hp] at h
      obtain rfl := Except.ok.inj h
      simp only [List.length_cons]
      omega
  · obtain rfl := Except.ok.inj h; simp
  · obtain rfl := Except.ok.inj h; simp
  · obtain rfl := Except.ok.inj h; simp
  · exact Nat.lt_succ_of_le (length_scanBrackets_le h)
  · obtain rfl := Except.ok.inj h; simp
  · exact Nat.lt_succ_of_le (length_scanParen_le h)
  · obtain rfl := Except.ok.inj h; simp
  · exact Nat.lt_succ_of_le (length_scanKeyword_le h)
  · split at h
    · obtain rfl := Except.ok.inj h; simp
    · split at h
      · exact Nat.lt_succ_of_le (length_scanLiteral_le h)
      · exact length_scanWord_lt h

end FxmlWiring.Markup.Prolog
