import FxmlWiring.Tree.Node
import Mathlib.Data.List.Forall2

/-! # The elements of a tree

How the listing of elements goes together over trees side by side, and when two trees have the
**same elements**: the same tags at the same depths, in the same order, each with the same
attributes. -/

namespace FxmlWiring.Node

mutual

/-- The elements of a tree are the same wherever it stands. -/
theorem map_snd_preorder (m n : Nat) (t : Node) :
    (t.preorder m).map Prod.snd = (t.preorder n).map Prod.snd := by
  cases t with
  | element tag as cs =>
    simp only [preorder, List.map_cons, map_snd_preorderAll (m + 1) (n + 1) cs]
  | text s => rfl
  | cdata s => rfl
  | comment s => rfl

/-- The elements of several trees are the same wherever these stand. -/
theorem map_snd_preorderAll (m n : Nat) (ts : List Node) :
    (preorderAll m ts).map Prod.snd = (preorderAll n ts).map Prod.snd := by
  cases ts with
  | nil => rfl
  | cons t ts =>
    simp only [preorderAll, List.map_append, map_snd_preorder m n t, map_snd_preorderAll m n ts]

end

/-- The elements of trees in a row stand in a row. -/
theorem preorderAll_append (depth : Nat) (ts us : List Node) :
    preorderAll depth (ts ++ us) = preorderAll depth ts ++ preorderAll depth us := by
  induction ts with
  | nil => rfl
  | cons t ts ih => rw [List.cons_append, preorderAll, preorderAll, ih, List.append_assoc]

/-- Only elements are listed. -/
theorem preorderAll_filter_isElement (depth : Nat) (ts : List Node) :
    preorderAll depth (ts.filter isElement) = preorderAll depth ts := by
  induction ts with
  | nil => rfl
  | cons t ts ih => cases t <;> simp [List.filter_cons, isElement, preorderAll, preorder, ih]

/-- Listed elements agree one by one: depth, tag, and the attributes up to their order. -/
abbrev SameElements (xs ys : List (Nat × String × List Attribute)) : Prop :=
  List.Forall₂ (fun x y => x.1 = y.1 ∧ x.2.1 = y.2.1 ∧ y.2.2.Perm x.2.2) xs ys

end FxmlWiring.Node
