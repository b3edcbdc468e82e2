import FxmlWiring.Proofs.Tree.Preorder
import FxmlWiring.Requirement.Extract
import Mathlib.Data.List.Nodup
import Mathlib.Data.String.Basic

/-! # What a tree asks for

The requirements of a tree are those of its elements in document order (`collect_eq_flatMap`), and
those of an element do not depend on the order of its attributes (`ofElement_perm`). So trees with
the same elements ask for the same (`collect_congr`). -/

namespace FxmlWiring.Requirement

open Node

/-! ## One element -/

/-- The sorted attributes are in the order of their names. -/
theorem pairwise_byName (as : List Attribute) : (byName as).Pairwise (·.name ≤ ·.name) := by
  have ht : ∀ a b c : Attribute, decide (a.name ≤ b.name) = true → decide (b.name ≤ c.name) = true →
      decide (a.name ≤ c.name) = true := by
    intro a b c
    simp only [decide_eq_true_eq]
    exact le_trans
  have hl : ∀ a b : Attribute, (decide (a.name ≤ b.name) || decide (b.name ≤ a.name)) = true := by
    intro a b
    simp only [Bool.or_eq_true, decide_eq_true_eq]
    exact le_total a.name b.name
  exact (List.pairwise_mergeSort ht hl as).imp fun h => of_decide_eq_true h

/-- Attributes with different names have one order by name. -/
theorem byName_perm {as bs : List Attribute} (h : as.Perm bs) (hn : (bs.map (·.name)).Nodup) :
    byName as = byName bs := by
  have ha := List.mergeSort_perm as fun a b => decide (a.name ≤ b.name)
  have hb := List.mergeSort_perm bs fun a b => decide (a.name ≤ b.name)
  -- Both are permutations of the attributes in the order of the names, which are different.
  refine List.Perm.eq_of_pairwise ?_ (pairwise_byName as) (pairwise_byName bs)
    ((ha.trans h).trans hb.symm)
  intro x y hx hy hxy hyx
  have hx := (ha.trans h).mem_iff.1 hx
  have hy := hb.mem_iff.1 hy
  exact List.inj_on_of_nodup_map hn hx hy (le_antisymm hxy hyx)

/-- What an element asks for does not depend on the order of its attributes. -/
theorem ofElement_perm (s : Settings) (tag : String) {as bs : List Attribute} (h : as.Perm bs)
    (hn : (bs.map (·.name)).Nodup) : ofElement s tag as = ofElement s tag bs := by
  rw [ofElement, ofElement, byName_perm h hn]

/-! ## Whole trees -/

/-- A walk finds what is asked for by the elements on its stack and below them, in document order.
-/
theorem finish_eq_append_flatMap (s : Settings) (depth : Nat) (w : Walk) :
    w.finish s = w.found ++
      ((preorderAll depth w.stack).map Prod.snd).flatMap fun e => ofElement s e.1 e.2 := by
  -- An element puts its children on top of what is on the stack; their depth does not matter.
  fun_induction Walk.finish s w with
  | case1 w h => simp [Walk.next?_eq_none_iff.1 h, preorderAll]
  | case2 w w' h ih =>
    obtain ⟨t, stack, hs, rfl⟩ := Walk.next?_eq_some_iff.1 h
    rw [ih, hs]
    cases t with
    | element tag as cs =>
      simp only [ofNode, childElements, children, preorderAll, preorder, preorderAll_append,
        preorderAll_filter_isElement, List.map_append, List.map_cons, List.flatMap_append,
        List.flatMap_cons, List.cons_append, List.append_assoc,
        map_snd_preorderAll (depth + 1) depth cs]
    | text c => simp [ofNode, preorderAll, preorder, childElements, children]
    | cdata c => simp [ofNode, preorderAll, preorder, childElements, children]
    | comment c => simp [ofNode, preorderAll, preorder, childElements, children]

/-- **The requirements of a tree are those of its elements**, in document order. -/
theorem collect_eq_flatMap (s : Settings) (root : Node) :
    collect s root = (root.preorder 0).flatMap fun e => ofElement s e.2.1 e.2.2 := by
  rw [collect, finish_eq_append_flatMap s 0]
  simp [preorderAll, List.flatMap_map]

/-- **Trees with the same elements ask for the same**, if no element has two attributes of one
name. -/
theorem collect_congr (s : Settings) {t u : Node}
    (ht : ∀ e ∈ t.preorder 0, (e.2.2.map (·.name)).Nodup)
    (h : SameElements (t.preorder 0) (u.preorder 0)) : collect s u = collect s t := by
  rw [collect_eq_flatMap, collect_eq_flatMap]
  generalize t.preorder 0 = xs at ht h ⊢
  generalize u.preorder 0 = ys at h ⊢
  -- The induction goes over both lists of elements side by side.
  induction h with
  | nil => rfl
  | @cons x y xs ys hxy _ ih =>
    rw [List.forall_mem_cons] at ht
    obtain ⟨-, htag, hp⟩ := hxy
    rw [List.flatMap_cons, List.flatMap_cons, ih ht.2, htag, ofElement_perm s y.2.1 hp ht.1]

end FxmlWiring.Requirement
