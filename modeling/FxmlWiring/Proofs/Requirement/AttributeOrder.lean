import FxmlWiring.Proofs.Requirement.Extract
import FxmlWiring.Proofs.Tree.Building

/-! # The order of attributes

What a tree built by hand asks for does not depend on the order in which its attributes are set, nor
on values that are overridden later, nor on nodes that are no elements
(`collect_build_eq_of_alike`). What counts is which attribute of each *local name* is set last; the
last one of each name does not say enough (`local_name_is_overridden`). -/

namespace FxmlWiring.Requirement

open Attribute Node

/-- **Extraction does not depend on the order of attributes.** Two trees built by hand ask for the
same, in the same order, if they are alike apart from nodes that are no elements, and the attributes
of their elements have the same last one for each local name; or the same last one for each name,
where no two names of an element have the same local name. -/
theorem collect_build_eq_of_alike (s : Settings) {t u : Node}
    (h : Alike (SameLast localKey) [t] [u] ∨
      Alike (SameLast (·.name)) [t] [u] ∧ ∀ e ∈ t.preorder 0, LocalNamesDiffer e.2.2) :
    collect s t.build = collect s u.build := by
  have hlocal : Alike (SameLast localKey) [t] [u] := by
    obtain h | ⟨h, hd⟩ := h
    · exact h
    · refine h.imp_of_mem 0 fun e he bs hl => hl.localKey_of_name (hd e ?_)
      simpa [preorderAll] using he
  exact (collect_congr s (fun e he => nodup_name_of_mem_preorder_build he)
    (sameElements_build hlocal)).symm

/-- A button whose handler is overridden, with some text before it. -/
def overridden : Node :=
  .element "VBox" [] [.text "x",
    .element "Button" [⟨"onAction", "#a"⟩, ⟨"fx:id", "ok"⟩, ⟨"onAction", "#b"⟩] []]

/-- The same button, with its attributes in another order, and other nodes around it. -/
def reordered : Node :=
  .element "VBox" [] [
    .element "Button" [⟨"fx:id", "ok"⟩, ⟨"onAction", "#b"⟩] [.comment "y"], .cdata "z"]

/-- The two buttons ask for the same. -/
theorem overridden_asks_as_reordered :
    collect .standard overridden.build = collect .standard reordered.build :=
  collect_build_eq_of_alike .standard <| Or.inr
    ⟨.element "VBox" (by decide) (.skipLeft rfl (.element "Button" (by decide +kernel)
        (.skipRight rfl .nil) (.skipRight rfl .nil))) .nil,
      by decide +kernel⟩

/-- **A local name is overridden**: these buttons have the same last attribute for each name, but
setting one of the attributes removes the other, and only one of the buttons is left with its id. -/
theorem local_name_is_overridden :
    Alike (SameLast (·.name)) [.element "Button" [⟨"fx:id", "a"⟩, ⟨"id", "b"⟩] []]
        [.element "Button" [⟨"id", "b"⟩, ⟨"fx:id", "a"⟩] []] ∧
      collect .standard (build (.element "Button" [⟨"fx:id", "a"⟩, ⟨"id", "b"⟩] [])) = [] ∧
      collect .standard (build (.element "Button" [⟨"id", "b"⟩, ⟨"fx:id", "a"⟩] [])) =
        [.field "Button" "a"] := by
  refine ⟨.element "Button" (by decide +kernel) .nil .nil, ?_, ?_⟩
  · rw [collect_eq_flatMap]
    decide +kernel
  · rw [collect_eq_flatMap]
    decide +kernel

end FxmlWiring.Requirement
