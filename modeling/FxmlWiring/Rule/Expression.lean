/-! # Regular expressions

An **expression** is a regular expression as data. `Expression.read?` reads the usual notation in
two steps. The characters are taken for **tokens**, where a backslash takes the character behind it
along; the tokens are put together from left to right, with the open groups on a stack.

Only a part of the notation is read: groups that capture nothing, alternatives, greedy repetition,
`.` and `\s`. A text that makes use of anything else, such as classes of characters, bounds, anchors
and lazy or possessive repetition, has no reading here. -/

namespace FxmlWiring

/-- How often something may come, one after another. -/
inductive Quantifier where
  /-- At most once, `?`. -/
  | optional
  /-- Any number of times, `*`. -/
  | star
  /-- At least once, `+`. -/
  | plus
deriving Repr, DecidableEq

/-- A regular expression. -/
inductive Expression where
  /-- Nothing at all. -/
  | empty
  /-- Exactly this character. -/
  | char (c : Char)
  /-- One blank, `\s`. -/
  | blank
  /-- One character of any kind, `.`. -/
  | any
  | seq (a b : Expression)
  | either (a b : Expression)
  | repeated (q : Quantifier) (e : Expression)
deriving Repr, DecidableEq

namespace Expression

/-- Expressions one after another. -/
def sequence : List Expression → Expression
  | [] => empty
  | e :: es => seq e (sequence es)

/-- Every character of a text for itself. -/
def literally (w : List Char) : List Expression :=
  w.map char

@[simp] theorem literally_nil : literally [] = [] := rfl

@[simp] theorem literally_cons (c : Char) (w : List Char) :
    literally (c :: w) = char c :: literally w := rfl

/-- A sequence says what it is made up of. -/
theorem sequence_injective : Function.Injective sequence := by
  intro es fs h
  induction es generalizing fs with
  | nil =>
    cases fs with
    | nil => rfl
    | cons => cases h
  | cons e es ih =>
    cases fs with
    | nil => cases h
    | cons f fs =>
      obtain ⟨he, hs⟩ := Expression.seq.inj h
      rw [he, ih hs]

/-! ## Tokens -/

/-- A sign of the notation. -/
inductive Token where
  | item (e : Expression)
  | quantifier (q : Quantifier)
  | openGroup
  | closeGroup
  | bar
deriving Repr, DecidableEq

/-- A character with a backslash before it. Apart from letters and digits it stands for itself. -/
def Token.ofEscaped? (c : Char) : Option Token :=
  if c = 's' then some (item blank)
  else if c.isAlphanum then none
  else some (item (char c))

/-- A character by itself. -/
def Token.ofPlain? : Char → Option Token
  | '.' => some (item any)
  | '?' => some (quantifier .optional)
  | '*' => some (quantifier .star)
  | '+' => some (quantifier .plus)
  | '|' => some bar
  | ')' => some closeGroup
  | '(' | '[' | '\x7b' | '^' | '$' | '\\' => none
  | c => some (item (char c))

/-- The tokens of a text. -/
def tokens? : List Char → Option (List Token)
  | [] => some []
  | '\\' :: c :: s => (Token.ofEscaped? c).bind fun t => (tokens? s).map (t :: ·)
  | '(' :: '?' :: ':' :: s => (tokens? s).map (Token.openGroup :: ·)
  | c :: s => (Token.ofPlain? c).bind fun t => (tokens? s).map (t :: ·)

/-! ## Reading -/

/-- A group that is not yet closed: its finished alternatives and the items of the one at work, the
last ones first. -/
structure Group where
  alternatives : List Expression := []
  row : List Expression := []
deriving Repr, DecidableEq

namespace Group

/-- The group with more items in the alternative at work. -/
def append (g : Group) (es : List Expression) : Group :=
  ⟨g.alternatives, es.reverse ++ g.row⟩

/-- The group with a new alternative at work. -/
def next (g : Group) : Group :=
  ⟨sequence g.row.reverse :: g.alternatives, []⟩

/-- The group with its last item repeated; there has to be one, and not a repeated one. -/
def repeatLast? (g : Group) (q : Quantifier) : Option Group :=
  match g.row with
  | [] | repeated .. :: _ => none
  | e :: row => some ⟨g.alternatives, repeated q e :: row⟩

/-- What the group stands for. -/
def close (g : Group) : Expression :=
  g.alternatives.foldl (fun later earlier => either earlier later) (sequence g.row.reverse)

end Group

/-- The group at work, and the groups around it from the inside out. -/
structure Reading where
  group : Group := {}
  outer : List Group := []
deriving Repr, DecidableEq

namespace Reading

/-- The reading behind one more token. -/
def step? (r : Reading) : Token → Option Reading
  | .item e => some ⟨r.group.append [e], r.outer⟩
  | .quantifier q => (r.group.repeatLast? q).map fun g => ⟨g, r.outer⟩
  | .bar => some ⟨r.group.next, r.outer⟩
  | .openGroup => some ⟨{}, r.group :: r.outer⟩
  | .closeGroup =>
    match r.outer with
    | [] => none
    | g :: outer => some ⟨g.append [r.group.close], outer⟩

/-- The reading behind more tokens. -/
def run? (r : Reading) : List Token → Option Reading
  | [] => some r
  | t :: ts => (r.step? t).bind fun r => r.run? ts

/-- What has been read, if no group is left open. -/
def finish? (r : Reading) : Option Expression :=
  if r.outer = [] then some r.group.close else none

end Reading

/-- The expression that a text is the notation of. -/
def read? (s : List Char) : Option Expression := do
  let ts ← tokens? s
  let r ← Reading.run? {} ts
  r.finish?

/-- A backslash takes away what a sign means; a quantifier belongs to the item before it. -/
example : read? "\\(a|b\\s*".toList =
    some (either (sequence [char '(', char 'a']) (sequence [char 'b', repeated .star blank])) := by
  decide

end Expression

end FxmlWiring
