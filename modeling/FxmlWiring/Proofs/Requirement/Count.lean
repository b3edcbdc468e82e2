import FxmlWiring.Proofs.Requirement.Extract
import Mathlib.Data.List.Infix
import Mathlib.Data.List.Perm.Basic

/-! # How often something is asked for

A tree asks for a field or a handler as often as it has an attribute that says so: the requirements
are, up to their order, those of the attributes one by one (`collect_perm_flatMap`), and each
attribute asks for a field once and for a handler once, or not at all (`count_field_ofAttribute`,
`count_handler_ofAttribute`). A marker without the separators of the written form is found in an
attribute exactly when it stands in the name or in the value (`occursIn_written_iff`). -/

namespace FxmlWiring.Requirement

open Node Text

/-! ## Markers -/

/-- A text without the character stands on one side of it. -/
theorem infix_append_cons_iff {w xs ys : List Char} {c : Char} (h : c ∉ w) :
    w <:+: xs ++ c :: ys ↔ w <:+: xs ∨ w <:+: ys := by
  constructor
  · rintro ⟨s, t, ht⟩
    -- The text ends before the character, starts behind it, or has it inside.
    obtain ⟨a, rfl, -⟩ | ⟨b, hb, hys⟩ := List.append_eq_append_iff.1 ht
    · exact Or.inl ⟨s, a, rfl⟩
    · cases b with
      | nil => exact Or.inl ⟨s, [], by simpa using hb⟩
      | cons d b =>
        obtain ⟨rfl, rfl⟩ := List.cons.inj hys
        obtain ⟨a, -, rfl⟩ | ⟨a, -, ha⟩ := List.append_eq_append_iff.1 hb
        · exact absurd (by simp) h
        · cases a with
          | nil =>
            obtain rfl : c :: b = w := ha
            exact absurd List.mem_cons_self h
          | cons e a =>
            obtain ⟨-, rfl⟩ := List.cons.inj ha
            exact Or.inr ⟨a, t, rfl⟩
  · rintro (h | h)
    · exact h.trans (List.prefix_append xs _).isInfix
    · exact h.trans ((List.suffix_cons c ys).trans (List.suffix_append xs _)).isInfix

/-- An attribute carries a marker if this stands in its name or in its value. -/
def Carries (marker : String) (a : Attribute) : Prop :=
  marker.toList <:+: a.name.toList ∨ marker.toList <:+: a.value.toList

instance (marker : String) (a : Attribute) : Decidable (Carries marker a) :=
  inferInstanceAs (Decidable (_ ∨ _))

/-- **The separators do not matter**: a marker without them is found in the written form exactly if
the attribute carries it. -/
theorem occursIn_written_iff {marker : String} (heq : '=' ∉ marker.toList)
    (hquote : '"' ∉ marker.toList) (a : Attribute) :
    occursIn marker.toList (written a) = true ↔ Carries marker a := by
  have hnil : marker.toList <:+: [] → marker.toList <:+: a.name.toList := by
    rw [List.infix_nil]
    intro h
    rw [h]
    exact List.nil_infix
  rw [occursIn_iff, written, List.append_assoc, List.cons_append, List.cons_append,
    infix_append_cons_iff heq, ← List.nil_append ('"' :: _), infix_append_cons_iff hquote,
    infix_append_cons_iff hquote, Carries]
  tauto

/-- What the handler of a value is called: the value less one sigil in front, or the value if no
sigil is there. -/
def IsHandlerName (sigil value handler : String) : Prop :=
  value = sigil ++ handler ∨ ¬ sigil.toList <+: value.toList ∧ handler = value

instance (sigil value handler : String) : Decidable (IsHandlerName sigil value handler) :=
  inferInstanceAs (Decidable (_ ∨ _))

/-- The name without the sigil is what the handler is called. -/
theorem handlerName_eq_iff {sigil value handler : String} :
    handlerName sigil value = handler ↔ IsHandlerName sigil value handler := by
  rw [handlerName, removeLeading, IsHandlerName]
  split
  · rename_i h
    obtain ⟨rest, hv⟩ := List.isPrefixOf_iff_prefix.1 h
    obtain rfl : value = sigil ++ .ofList rest := String.toList_injective (by simp [← hv])
    rw [String.append_right_inj]
    simp [eq_comm]
  · rename_i h
    rw [List.isPrefixOf_iff_prefix] at h
    have hne : value ≠ sigil ++ handler := by
      rintro rfl
      exact h (by simp)
    simp [h, hne, eq_comm]

/-! ## One attribute -/

/-- The attributes of a tree, each with the tag of its element. -/
def taggedAttributes (root : Node) : List (String × Attribute) :=
  (root.preorder 0).flatMap fun e => e.2.2.map fun a => (e.2.1, a)

theorem count_field_ofAttribute (s : Settings) (tag : String) (a : Attribute)
    (type identifier : String) :
    (ofAttribute s tag a).count (.field type identifier) =
      if tag = type ∧ a.value = identifier ∧ occursIn s.idMarker.toList (written a) then 1
      else 0 := by
  rw [ofAttribute, List.count_append]
  split <;> split <;> simp [List.count_cons, *]

theorem count_handler_ofAttribute (s : Settings) (tag : String) (a : Attribute)
    (handler : String) :
    (ofAttribute s tag a).count (.handler handler) =
      if occursIn s.actionMarker.toList (written a) ∧ handlerName s.sigil a.value = handler then 1
      else 0 := by
  rw [ofAttribute, List.count_append]
  split <;> split <;> simp [List.count_cons, *]

/-! ## Whole trees -/

/-- Up to their order, the requirements of a tree are those of its attributes one by one. -/
theorem collect_perm_flatMap (s : Settings) (root : Node) :
    (collect s root).Perm ((taggedAttributes root).flatMap fun p => ofAttribute s p.1 p.2) := by
  rw [collect_eq_flatMap, taggedAttributes, List.flatMap_assoc]
  refine List.Perm.flatMap_left _ fun e _ => ?_
  rw [List.flatMap_map]
  exact (List.mergeSort_perm e.2.2 _).flatMap_right _

/-- What some of the entries of a list give once and the others do not give is given as often as
there are such entries. -/
theorem count_flatMap_eq_countP {α : Type} (f : α → List Requirement) (r : Requirement)
    (p : α → Bool) (h : ∀ x, (f x).count r = if p x then 1 else 0) (xs : List α) :
    (xs.flatMap f).count r = xs.countP p := by
  induction xs with
  | nil => rfl
  | cons x xs ih => rw [List.flatMap_cons, List.count_append, ih, h, List.countP_cons, Nat.add_comm]

/-- **Nothing is lost, invented or doubled.** With markers that contain no separator of the written
form, a field is asked for as often as an element of its type has an attribute with its identifier
that carries the id marker, and a handler as often as there is an attribute of that handler name
that carries the action marker. -/
theorem requirements_are_counted (s : Settings)
    (hid : '=' ∉ s.idMarker.toList ∧ '"' ∉ s.idMarker.toList)
    (haction : '=' ∉ s.actionMarker.toList ∧ '"' ∉ s.actionMarker.toList) (root : Node) :
    (∀ type identifier, (collect s root).count (.field type identifier) =
      (taggedAttributes root).countP fun p =>
        p.1 = type ∧ p.2.value = identifier ∧ Carries s.idMarker p.2) ∧
    (∀ handler, (collect s root).count (.handler handler) =
      (taggedAttributes root).countP fun p =>
        Carries s.actionMarker p.2 ∧ IsHandlerName s.sigil p.2.value handler) := by
  constructor
  · intro type identifier
    rw [(collect_perm_flatMap s root).count_eq]
    refine count_flatMap_eq_countP _ _ _ (fun p => ?_) _
    simp only [count_field_ofAttribute, occursIn_written_iff hid.1 hid.2, decide_eq_true_eq]
  · intro handler
    rw [(collect_perm_flatMap s root).count_eq]
    refine count_flatMap_eq_countP _ _ _ (fun p => ?_) _
    simp only [count_handler_ofAttribute, occursIn_written_iff haction.1 haction.2,
      handlerName_eq_iff, decide_eq_true_eq]

/-- A box with two buttons of one name, one of which names the id marker in its handler too. -/
def twoButtons : Node :=
  .element "VBox" [] [
    .element "Button" [⟨"onAction", "##fx:id"⟩, ⟨"fx:id", "ok"⟩, ⟨"text", "fx:id=\"ok\""⟩] [],
    .comment "fx:id",
    .element "Button" [⟨"fx:id", "ok"⟩] []]

/-- The two buttons ask for their field twice, and one of them for a handler and, by its handler,
for a second field. -/
theorem twoButtons_are_counted :
    (collect .standard twoButtons).count (.field "Button" "ok") = 2 ∧
      (collect .standard twoButtons).count (.field "Button" "##fx:id") = 1 ∧
      (collect .standard twoButtons).count (.handler "#fx:id") = 1 := by
  obtain ⟨hfield, hhandler⟩ := requirements_are_counted .standard (by decide) (by decide) twoButtons
  rw [hfield, hfield, hhandler]
  decide +kernel

end FxmlWiring.Requirement
