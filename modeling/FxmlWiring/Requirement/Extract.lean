import FxmlWiring.Requirement.Basic
import FxmlWiring.Settings
import FxmlWiring.Text.Basic
import FxmlWiring.Tree.Node

/-! # Requirements of a markup tree

Each attribute is looked at in its written form `name="value"`: the id marker in it asks for a
field, the action marker for a handler. `ofElement` lists the requirements of one element, its
attributes in the order of their names; `collect` visits the elements of a tree one by one from a
stack. -/

namespace FxmlWiring.Requirement

open Text

/-- The written form of an attribute, `name="value"`. -/
def written (a : Attribute) : List Char :=
  a.name.toList ++ '=' :: '"' :: a.value.toList ++ ['"']

/-- A handler name without one leading sigil. -/
def handlerName (sigil value : String) : String :=
  .ofList (removeLeading sigil.toList value.toList)

/-- What one attribute of an element asks for: at most one field, then at most one handler. -/
def ofAttribute (s : Settings) (tag : String) (a : Attribute) : List Requirement :=
  (if occursIn s.idMarker.toList (written a) then [field tag a.value] else []) ++
  (if occursIn s.actionMarker.toList (written a) then [handler (handlerName s.sigil a.value)]
   else [])

/-- Attributes in the order of their names, by code points. -/
def byName (attributes : List Attribute) : List Attribute :=
  attributes.mergeSort fun a b => decide (a.name ≤ b.name)

/-- What one element asks for, its attributes taken by name. -/
def ofElement (s : Settings) (tag : String) (attributes : List Attribute) : List Requirement :=
  (byName attributes).flatMap (ofAttribute s tag)

/-- What one node asks for by itself; only elements ask for anything. -/
def ofNode (s : Settings) : Node → List Requirement
  | .element tag attributes _ => ofElement s tag attributes
  | .text _ | .cdata _ | .comment _ => []

/-! ## The walk over a tree -/

/-- Where a walk over a tree stands: the elements that are still to be visited, the next one on top,
and what the visited ones ask for. -/
structure Walk where
  stack : List Node
  found : List Requirement

/-- A stack with more nodes put on it, one after another. -/
def push (stack nodes : List Node) : List Node :=
  nodes.foldl (fun stack n => n :: stack) stack

/-- What is put on in reverse order comes off in order. -/
@[simp] theorem push_reverse (stack nodes : List Node) :
    push stack nodes.reverse = nodes ++ stack := by
  simp [push, List.foldl_reverse]

namespace Walk

/-- One round of a walk, if anything is left to be visited: the element on top is taken off and
visited, and its child elements are put on, the last one first. -/
def next? (s : Settings) (w : Walk) : Option Walk :=
  match w.stack with
  | [] => none
  | n :: stack => some ⟨push stack n.childElements.reverse, w.found ++ ofNode s n⟩

/-- A walk is over when its stack is empty. -/
theorem next?_eq_none_iff {s : Settings} {w : Walk} : w.next? s = none ↔ w.stack = [] := by
  unfold next?
  split <;> simp_all

/-- What a round does. -/
theorem next?_eq_some_iff {s : Settings} {w w' : Walk} :
    w.next? s = some w' ↔ ∃ n stack, w.stack = n :: stack ∧
      w' = ⟨n.childElements ++ stack, w.found ++ ofNode s n⟩ := by
  unfold next?
  split
  · simp_all
  · rename_i n stack h
    rw [h, push_reverse, Option.some.injEq, eq_comm]
    simp [and_assoc]

/-- The stack gets smaller with each round, if the nodes below its elements count as well. -/
theorem sizeAll_next_lt {s : Settings} {w w' : Walk} (h : w.next? s = some w') :
    Node.sizeAll w'.stack < Node.sizeAll w.stack := by
  obtain ⟨n, stack, hs, rfl⟩ := next?_eq_some_iff.1 h
  have := n.sizeAll_childElements_lt
  simp only [Node.sizeAll_append, hs, Node.sizeAll]
  omega

/-- What a walk has found when nothing is left to be visited. -/
def finish (s : Settings) (w : Walk) : List Requirement :=
  match _h : w.next? s with
  | none => w.found
  | some w' => w'.finish s
termination_by Node.sizeAll w.stack
decreasing_by exact sizeAll_next_lt (by assumption)

end Walk

/-- The requirements of a whole tree in document order. -/
def collect (s : Settings) (root : Node) : List Requirement :=
  Walk.finish s ⟨[root], []⟩

end FxmlWiring.Requirement
