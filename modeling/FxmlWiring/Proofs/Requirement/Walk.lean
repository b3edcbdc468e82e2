import FxmlWiring.Proofs.Requirement.Extract
import FxmlWiring.Proofs.Tree.Place

/-! # The walk over a tree

A **run** of a walk is a row of its rounds; it visits one element a round. A run that starts with an
element on top of the stack visits what is below it before anything else (`Run.of_element`), so the
walk from the root visits the elements of the tree in document order, each of them once, and finds
what the root asks for before what its children ask for (`walk_visits_in_document_order`). -/

namespace FxmlWiring.Requirement

open Node

/-- Rounds of a walk, one after another, with the nodes that are visited in them. -/
inductive Walk.Run (s : Settings) : Walk → List Node → Walk → Prop
  | stay (w : Walk) : Run s w [] w
  | round {w w₁ w₂ : Walk} {n : Node} {stack visited : List Node} (htop : w.stack = n :: stack)
      (hnext : w.next? s = some w₁) (hrun : Run s w₁ visited w₂) : Run s w (n :: visited) w₂

namespace Walk.Run

variable {s : Settings}

/-- A run goes on where another one has come to. -/
theorem trans {w₁ w₂ w₃ : Walk} {visited more : List Node} (h : Run s w₁ visited w₂)
    (h' : Run s w₂ more w₃) : Run s w₁ (visited ++ more) w₃ := by
  induction h with
  | stay w => exact h'
  | round htop hnext _ ih => exact .round htop hnext (ih h')

/-- Where a run has come to, the walk finishes as it does from where the run started. -/
theorem finish_eq {w₁ w₂ : Walk} {visited : List Node} (h : Run s w₁ visited w₂) :
    w₁.finish s = w₂.finish s := by
  induction h with
  | stay w => rfl
  | round htop hnext _ ih =>
    rw [Walk.finish, ← ih]
    split
    · simp_all
    · simp_all

mutual

/-- **An element on top of the stack** is visited with all that is below it, in document order,
before what is under it on the stack. -/
theorem of_element {t : Node} (ht : t.isElement = true) (stack : List Node)
    (found : List Requirement) :
    Run s ⟨t :: stack, found⟩ (t.located.map Prod.snd)
      ⟨stack, found ++ (t.located.map Prod.snd).flatMap (ofNode s)⟩ := by
  cases t with
  | element tag as cs =>
    have hnext : Walk.next? s ⟨element tag as cs :: stack, found⟩ =
        some ⟨cs.filter isElement ++ stack, found ++ ofElement s tag as⟩ :=
      Walk.next?_eq_some_iff.2 ⟨_, _, rfl, rfl⟩
    have h := of_children 0 cs stack (found ++ ofElement s tag as)
    rw [List.append_assoc] at h
    exact .round rfl hnext h
  | text c => cases ht
  | cdata c => cases ht
  | comment c => cases ht

/-- Child elements on top of the stack are visited one after another. -/
theorem of_children (i : Nat) (cs stack : List Node) (found : List Requirement) :
    Run s ⟨cs.filter isElement ++ stack, found⟩ ((locatedAll i cs).map Prod.snd)
      ⟨stack, found ++ ((locatedAll i cs).map Prod.snd).flatMap (ofNode s)⟩ := by
  cases cs with
  | nil =>
    simp only [List.filter_nil, List.nil_append, locatedAll, List.map_nil, List.flatMap_nil,
      List.append_nil]
    exact .stay _
  | cons t ts =>
    rw [map_snd_locatedAll_cons, List.flatMap_append, ← List.append_assoc found]
    cases ht : t.isElement with
    | true =>
      rw [List.filter_cons_of_pos ht]
      exact (of_element ht _ found).trans (of_children (i + 1) ts stack _)
    | false =>
      -- Anything else is not put on the stack and has no elements.
      have hnone : t.located = [] := by
        cases t <;> first | rfl | cases ht
      rw [List.filter_cons_of_neg (by simp [ht]), hnone]
      simpa using of_children (i + 1) ts stack found

end

end Walk.Run

/-! ## The whole walk -/

/-- What an element asks for with all that is below it, from the elements in document order. -/
theorem collect_eq_flatMap_located (s : Settings) {t : Node} (ht : t.isElement = true) :
    collect s t = (t.located.map Prod.snd).flatMap (ofNode s) := by
  rw [collect, (Walk.Run.of_element ht [] []).finish_eq, List.nil_append, Walk.finish]
  split
  · rfl
  · rename_i h
    obtain ⟨n, stack, hs, -⟩ := Walk.next?_eq_some_iff.1 h
    cases hs

/-- What children ask for with all that is below them, child by child. -/
theorem flatMap_locatedAll (s : Settings) (i : Nat) (cs : List Node) :
    ((locatedAll i cs).map Prod.snd).flatMap (ofNode s) =
      (cs.filter isElement).flatMap (collect s) := by
  have h : ∀ t ∈ cs.filter isElement,
      (t.located.map Prod.snd).flatMap (ofNode s) = collect s t :=
    fun t ht => (collect_eq_flatMap_located s (List.mem_filter.1 ht).2).symm
  rw [map_snd_locatedAll, List.flatMap_assoc]
  exact List.flatMap_congr h

/-- **The walk visits the elements in document order.** It comes to its end; on the way each element
of the tree is visited once, parents before children and children before following siblings. What it
finds is what the root asks for, then what each child element asks for with all that is below it. -/
theorem walk_visits_in_document_order (s : Settings) (tag : String) (as : List Attribute)
    (cs : List Node) :
    collect s (.element tag as cs) =
        ofElement s tag as ++ (cs.filter isElement).flatMap (collect s) ∧
      ∃ visits : List (Place × Node),
        Walk.Run s ⟨[.element tag as cs], []⟩ (visits.map Prod.snd)
          ⟨[], collect s (.element tag as cs)⟩ ∧
        (∀ p n, (p, n) ∈ visits ↔ at? (.element tag as cs) p = some n ∧ n.isElement = true) ∧
        (visits.map Prod.fst).Nodup ∧
        visits.Pairwise fun x y => x.1.Before y.1 := by
  have hroot : isElement (.element tag as cs) = true := rfl
  refine ⟨?_, located (.element tag as cs), ?_, fun p n => mem_located_iff, nodup_located _,
    pairwise_located _⟩
  · rw [← flatMap_locatedAll s 0 cs, collect_eq_flatMap_located s hroot, located, List.map_cons,
      List.flatMap_cons]
    rfl
  · rw [collect_eq_flatMap_located s hroot]
    simpa using Walk.Run.of_element (s := s) hroot [] []

end FxmlWiring.Requirement
