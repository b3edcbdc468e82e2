/-! # Line breaks and positions

A **line break** is a line feed, a carriage return, or the two in this order, which count as one.
`unifyBreaks` writes every break as a line feed. A **position** is where a text ends: the line, from
one, and the number of characters since its last break. -/

namespace FxmlWiring.Text

/-- The text with every line break written as a line feed. -/
def unifyBreaks : List Char → List Char
  | '\r' :: '\n' :: s => '\n' :: unifyBreaks s
  | c :: s => (if c = '\r' then '\n' else c) :: unifyBreaks s
  | [] => []

@[simp] theorem unifyBreaks_nil : unifyBreaks [] = [] := rfl

/-- Nothing that ends in a carriage return is left. -/
theorem not_mem_unifyBreaks (s : List Char) : '\r' ∉ unifyBreaks s := by
  fun_induction unifyBreaks s with
  | case1 s ih => simp [ih]
  | case2 c s _ ih =>
    rw [List.mem_cons, not_or]
    refine ⟨?_, ih⟩
    split <;> simp_all [eq_comm]
  | case3 => simp

/-- A line, from one, and a column, from zero. -/
structure Position where
  line : Nat
  column : Nat
deriving Repr, DecidableEq

namespace Position

/-- The first position of a text. -/
def start : Position :=
  ⟨1, 0⟩

/-- The position at the end of a text that starts at the position. -/
def after (p : Position) : List Char → Position
  | '\r' :: '\n' :: s => after ⟨p.line + 1, 0⟩ s
  | c :: s =>
    if c = '\n' ∨ c = '\r' then after ⟨p.line + 1, 0⟩ s else after ⟨p.line, p.column + 1⟩ s
  | [] => p

/-- The position at the end of a text. -/
def ofEnd (s : List Char) : Position :=
  start.after s

@[simp] theorem ofEnd_nil : ofEnd [] = start := rfl

end Position

end FxmlWiring.Text
