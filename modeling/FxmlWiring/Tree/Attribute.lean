/-! # Attributes of an element

An **attribute** is a name with a value. A table of attributes holds each name once; building it by
hand, one `set` after another, keeps each *local name* once too. -/

namespace FxmlWiring

/-- A name with a value. -/
structure Attribute where
  name : String
  value : String
deriving Repr, DecidableEq

namespace Attribute

/-- What follows the first colon of a name; the whole name if it has none. -/
def localName (name : String) : List Char :=
  match name.toList.dropWhile (· ≠ ':') with
  | [] => name.toList
  | _ :: rest => rest

/-- A table with one more attribute. An attribute of the same name keeps its place and takes the new
value; a new name takes the place of an attribute with the same local name. -/
def set (table : List Attribute) (a : Attribute) : List Attribute :=
  if table.any (·.name = a.name) then
    table.map fun b => if b.name = a.name then a else b
  else
    table.filter (fun b => localName b.name ≠ localName a.name) ++ [a]

/-- The table that setting the attributes one after another builds. -/
def table (attributes : List Attribute) : List Attribute :=
  attributes.foldl set []

@[simp] theorem table_nil : table [] = [] := rfl

/-- Setting one more attribute after the others. -/
@[simp] theorem table_append_singleton (as : List Attribute) (a : Attribute) :
    table (as ++ [a]) = set (table as) a := by
  simp [table]

end Attribute

end FxmlWiring
