import FxmlWiring.Tree.Attribute

/-! # The tree of a markup document

A **node** is an element with attributes and child nodes, or a piece of character data, a `CDATA`
section or a comment. `Node.preorder` lists the elements in document order, each with its depth. -/

namespace FxmlWiring

/-- A node of a markup tree. -/
inductive Node where
  | element (tag : String) (attributes : List Attribute) (children : List Node)
  | text (content : String)
  | cdata (content : String)
  | comment (content : String)
deriving Repr

namespace Node

mutual

/-- The number of nodes of a tree. -/
def size : Node → Nat
  | element _ _ children => sizeAll children + 1
  | text _ | cdata _ | comment _ => 1

/-- The number of nodes of several trees. -/
def sizeAll : List Node → Nat
  | [] => 0
  | n :: ns => n.size + sizeAll ns

end

@[simp] theorem sizeAll_append (ns ms : List Node) :
    sizeAll (ns ++ ms) = sizeAll ns + sizeAll ms := by
  induction ns with
  | nil => simp [sizeAll]
  | cons n ns ih => simp [sizeAll, ih, Nat.add_assoc]

/-- The child nodes of an element; other nodes have none. -/
def children : Node → List Node
  | element _ _ cs => cs
  | text _ | cdata _ | comment _ => []

theorem sizeAll_children_lt (n : Node) : sizeAll n.children < n.size := by
  cases n <;> simp [children, size, sizeAll]

/-- Whether the node is an element. -/
def isElement : Node → Bool
  | element .. => true
  | text _ | cdata _ | comment _ => false

/-- The child nodes that are elements. -/
def childElements (n : Node) : List Node :=
  n.children.filter isElement

theorem sizeAll_filter_le (p : Node → Bool) (ns : List Node) :
    sizeAll (ns.filter p) ≤ sizeAll ns := by
  induction ns with
  | nil => simp
  | cons n ns ih =>
    by_cases h : p n = true
    · simpa [h, sizeAll] using ih
    · simp only [h, Bool.false_eq_true, not_false_eq_true, List.filter_cons_of_neg, sizeAll]
      omega

theorem sizeAll_childElements_lt (n : Node) : sizeAll n.childElements < n.size :=
  Nat.lt_of_le_of_lt (sizeAll_filter_le isElement n.children) n.sizeAll_children_lt

mutual

/-- The elements of a tree whose root stands at the depth: parents before children, and all of a
child before its following siblings. -/
def preorder (depth : Nat) : Node → List (Nat × String × List Attribute)
  | element tag attributes cs => (depth, tag, attributes) :: preorderAll (depth + 1) cs
  | text _ | cdata _ | comment _ => []

/-- The elements of several trees side by side. -/
def preorderAll (depth : Nat) : List Node → List (Nat × String × List Attribute)
  | [] => []
  | n :: ns => n.preorder depth ++ preorderAll depth ns

end

end Node

end FxmlWiring
