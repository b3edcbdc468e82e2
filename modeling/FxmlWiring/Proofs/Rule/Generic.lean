import FxmlWiring.Proofs.Rule.Acceptance
import FxmlWiring.Text.Basic

/-! # Fields of a generic type

The type arguments of a generic field are any text, so they may run on over the end of a statement.
A generic rule then finds a type at the front of one statement and an identifier at the end of
another. `genericField` is what one statement declares, and `foreignField` what the rule takes for a
declaration across statements. Main statement: `genericField_or_foreignField`, by which an accepted
field is declared in one statement unless a field of its name and another type stands behind an
opening of its type. -/

namespace FxmlWiring

namespace Declaration

/-- What stands in front of a declaration by the rule. -/
def qualifier (s : Settings) : Rule → Language Char
  | .annotatedField | .annotatedGenericField | .annotatedHandler =>
    exactly s.binding * gap * access
  | .publicField | .publicGenericField | .publicHandler => exactly "public" * gap

/-- A type and the bracket before its arguments. -/
def typeOpening (type : String) : Language Char :=
  exactly type * blanks * exactly "<"

/-- The bracket behind the arguments of a type, and the end of the declaration. -/
def genericEnd (identifier : String) : Language Char :=
  exactly ">" * gap * exactly identifier * blanks * exactly ";"

/-- Type arguments that stay in one statement: any text without a semicolon, but the empty one. -/
def arguments : Language Char :=
  {x | x ≠ [] ∧ ';' ∉ x}

/-- A field of a generic type, declared within one statement. -/
def genericField (type identifier : String) : Language Char :=
  typeOpening type * arguments * genericEnd identifier

/-- A front of one statement in which no type arguments of the type run on. -/
def unopened (type : String) : Language Char :=
  {y | ';' ∉ y ∧ y ∉ ⊤ * typeOpening type * filler}

/-- A statement that declares a generic field of the name, but not of the type. -/
def otherField (type identifier : String) : Language Char :=
  unopened type * genericEnd identifier

/-- An opening of the type in one statement, and another field of the name in a later one. -/
def foreignField (s : Settings) (rule : Rule) (type identifier : String) : Language Char :=
  qualifier s rule * typeOpening type * ⊤ * exactly ";" * otherField type identifier

/-- The declarations of the generic rules, in parts. -/
theorem declarations_generic (s : Settings) (type identifier : String) {rule : Rule}
    (hr : rule = .annotatedGenericField ∨ rule = .publicGenericField) :
    (Requirement.field type identifier).declarations s rule =
      qualifier s rule * typeOpening type * filler * genericEnd identifier := by
  rcases hr with rfl | rfl
  all_goals simp only [Requirement.declarations, qualifier, typeOpening, genericEnd, mul_assoc]

/-- A text with a semicolon has a last one. -/
theorem exists_last_semicolon {x : List Char} (h : ';' ∈ x) :
    ∃ u y, x = u ++ ';' :: y ∧ ';' ∉ y := by
  induction x with
  | nil => cases h
  | cons c x ih =>
    by_cases hx : ';' ∈ x
    · obtain ⟨u, y, rfl, hy⟩ := ih hx
      exact ⟨c :: u, y, rfl, hy⟩
    · rcases List.mem_cons.1 h with rfl | h
      · exact ⟨[], x, rfl, hx⟩
      · exact absurd h hx

variable {s : Settings} {rule : Rule} {type identifier : String}

/-- **What a generic rule takes for a declaration** holds a declaration within one statement, or it
is made up of an opening of the type and another field of the name. -/
theorem genericField_or_foreignField {w : List Char}
    (hw : w ∈ qualifier s rule * typeOpening type * filler * genericEnd identifier) :
    (∃ v ∈ genericField type identifier, v <:+: w) ∨ w ∈ foreignField s rule type identifier := by
  obtain ⟨_, ⟨_, ⟨q, hq, o, ho, rfl⟩, x, hx, rfl⟩, e, he, rfl⟩ := hw
  by_cases hs : ';' ∈ x
  · -- The arguments run over the end of a statement; the last one decides.
    obtain ⟨u, y, rfl, hy⟩ := exists_last_semicolon hs
    by_cases ht : y ∈ ⊤ * typeOpening type * filler
    · obtain ⟨_, ⟨a, -, o', ho', rfl⟩, x', hx', rfl⟩ := ht
      have hx'' : x' ∈ arguments := ⟨hx', fun h => hy (List.mem_append_right _ h)⟩
      refine Or.inl ⟨o' ++ x' ++ e, ⟨o' ++ x', ⟨o', ho', x', hx'', rfl⟩, e, he, rfl⟩, ?_⟩
      exact ⟨q ++ o ++ u ++ ';' :: a, [], by simp⟩
    · have hopen : q ++ o ++ u ∈ qualifier s rule * typeOpening type * ⊤ :=
        ⟨q ++ o, ⟨q, hq, o, ho, rfl⟩, u, trivial, rfl⟩
      exact Or.inr ⟨q ++ o ++ u ++ [';'], ⟨q ++ o ++ u, hopen, [';'], rfl, rfl⟩, y ++ e,
        ⟨y, ⟨hy, ht⟩, e, he, rfl⟩, by simp⟩
  · exact Or.inl ⟨o ++ x ++ e, ⟨o ++ x, ⟨o, ho, x, ⟨hx, hs⟩, rfl⟩, e, he, rfl⟩, q, [], by simp⟩

/-- Another field of the name behind an opening of the type is taken for a declaration. -/
theorem mem_of_foreignField {w : List Char} (hw : w ∈ foreignField s rule type identifier) :
    w ∈ qualifier s rule * typeOpening type * filler * genericEnd identifier := by
  obtain ⟨_, ⟨_, ⟨a, ha, u, -, rfl⟩, _, rfl, rfl⟩, _, ⟨y, -, e, he, rfl⟩, rfl⟩ := hw
  refine ⟨a ++ (u ++ ';' :: y), ⟨a, ha, u ++ ';' :: y, ?_, rfl⟩, e, he, by simp⟩
  exact List.append_ne_nil_of_right_ne_nil u (List.cons_ne_nil _ _)

/-- A field that one statement declares has its only semicolon at the end. -/
theorem exists_of_mem_genericField (ht : ';' ∉ type.toList) (hi : ';' ∉ identifier.toList)
    {w : List Char} (hw : w ∈ genericField type identifier) : ∃ v, w = v ++ [';'] ∧ ';' ∉ v := by
  obtain ⟨_, ⟨_, ⟨_, ⟨_, rfl, g, hg, rfl⟩, _, rfl, rfl⟩, x, ⟨-, hx⟩, rfl⟩,
    _, ⟨_, ⟨_, ⟨_, ⟨_, rfl, g', ⟨-, hg'⟩, rfl⟩, _, rfl, rfl⟩, b, hb, rfl⟩, _, rfl, rfl⟩, rfl⟩ := hw
  have hblank {u : List Char} (hu : u ∈ blanks) : ';' ∉ u := fun h =>
    absurd (mem_blanks_iff.1 hu _ h) (by decide)
  refine ⟨type.toList ++ g ++ ['<'] ++ x ++ (['>'] ++ g' ++ identifier.toList ++ b), by simp, ?_⟩
  simp [ht, hi, hx, hblank hg, hblank hg', hblank hb]

/-- A field that one statement declares holds its type and its name. -/
theorem infix_of_mem_genericField {w : List Char} (hw : w ∈ genericField type identifier) :
    type.toList <:+: w ∧ identifier.toList <:+: w := by
  obtain ⟨_, ⟨_, ⟨_, ⟨_, rfl, g, -, rfl⟩, _, rfl, rfl⟩, x, -, rfl⟩,
    _, ⟨_, ⟨_, ⟨o, -, _, rfl, rfl⟩, b, -, rfl⟩, _, rfl, rfl⟩, rfl⟩ := hw
  constructor
  · exact ⟨[], g ++ "<".toList ++ x ++ (o ++ identifier.toList ++ b ++ ";".toList), by simp⟩
  · exact ⟨type.toList ++ g ++ "<".toList ++ x ++ o, b ++ ";".toList, by simp⟩

/-- A foreign field takes two statements. -/
theorem two_le_count_of_foreignField {w : List Char}
    (hw : w ∈ foreignField s rule type identifier) : 2 ≤ w.count ';' := by
  obtain ⟨_, ⟨a, -, _, rfl, rfl⟩, _, ⟨y, -, _, ⟨e, -, _, rfl, rfl⟩, rfl⟩, rfl⟩ := hw
  have h : ";".toList.count ';' = 1 := by decide
  simp only [List.count_append, h]
  omega

end Declaration

open Declaration Text

/-- **A field that a generic rule accepts is declared in one statement, or it is foreign**: then an
opening of its type stands in one statement, and a generic field of its name, but of another type,
in a later one. A foreign field is always accepted. -/
theorem generic_field_is_declared_or_foreign (s : Settings) {type identifier : String}
    (ht : ';' ∉ type.toList) (hi : ';' ∉ identifier.toList) {rule : Rule}
    (hr : rule = .annotatedGenericField ∨ rule = .publicGenericField) (source : String) :
    ((Requirement.field type identifier).acceptedBy? s source = some rule →
      (∃ v, v ++ [';'] ∈ genericField type identifier ∧ ';' ∉ v ∧
        v ++ [';'] <:+: source.toList) ∨
      ∃ w ∈ foreignField s rule type identifier, w <:+: source.toList) ∧
    ((∃ w ∈ foreignField s rule type identifier, w <:+: source.toList) →
      ((Requirement.field type identifier).acceptedBy? s source).isSome) := by
  constructor
  · intro ha
    obtain ⟨-, -, -, ⟨w, hw, hi'⟩, -⟩ :=
      (Requirement.acceptedBy?_eq_some_iff s _ source rule).1 ha
    rw [declarations_generic s type identifier hr] at hw
    rcases genericField_or_foreignField hw with ⟨v, hv, hvw⟩ | hf
    · obtain ⟨u, rfl, hu⟩ := exists_of_mem_genericField ht hi hv
      exact Or.inl ⟨u, hv, hu, hvw.trans hi'⟩
    · exact Or.inr ⟨w, hf, hi'⟩
  · rintro ⟨w, hw, hi'⟩
    rw [Requirement.isSome_acceptedBy?_iff]
    refine ⟨rule, ?_, w, ?_, hi'⟩
    · show rule ∈ Rule.fieldRules
      rcases hr with rfl | rfl
      all_goals decide
    · rw [declarations_generic s type identifier hr]
      exact mem_of_foreignField hw

/-- A list of that name is found in one statement. -/
theorem declared_list_is_found :
    (Requirement.field "List" "xs").acceptedBy? .standard "public List<A> xs;" =
        some .publicGenericField ∧
      ∃ v, v ++ [';'] ∈ genericField "List" "xs" ∧ ';' ∉ v ∧
        v ++ [';'] <:+: "public List<A> xs;".toList := by
  have ha : (Requirement.field "List" "xs").acceptedBy? .standard "public List<A> xs;" =
      some .publicGenericField := by decide +kernel
  refine ⟨ha, Or.resolve_right ((generic_field_is_declared_or_foreign .standard (by decide)
    (by decide) (Or.inr rfl) "public List<A> xs;").1 ha) ?_⟩
  -- There is only one statement.
  rintro ⟨w, hw, hi⟩
  have hc : w.count ';' ≤ "public List<A> xs;".toList.count ';' := hi.sublist.count_le ';'
  have h2 := two_le_count_of_foreignField hw
  rw [show "public List<A> xs;".toList.count ';' = 1 by decide] at hc
  omega

/-- A list of one name and a set of another. -/
def listThenSet : String :=
  "public List<A> as;\npublic Set<A> xs;"

/-- **A list is found where only a set of that name is declared.** -/
theorem list_is_found_in_set :
    (Requirement.field "List" "xs").acceptedBy? .standard listThenSet =
        some .publicGenericField ∧
      ∀ w ∈ genericField "List" "xs", ¬ w <:+: listThenSet.toList := by
  refine ⟨by decide +kernel, ?_⟩
  rintro w hw ⟨a, b, he⟩
  obtain ⟨v, rfl, hv⟩ := exists_of_mem_genericField (by decide) (by decide) hw
  obtain ⟨htype, hname⟩ := infix_of_mem_genericField hw
  -- No stretch of the text holds both names and has its only semicolon at the end.
  have hnone : ∀ i ≤ 36, ∀ j ≤ 36,
      ¬ (occursIn "List".toList ((listThenSet.toList.drop i).take j) ∧
        occursIn "xs".toList ((listThenSet.toList.drop i).take j) ∧
        ((listThenSet.toList.drop i).take j).getLast? = some ';' ∧
        ((listThenSet.toList.drop i).take j).count ';' ≤ 1) := by decide +kernel
  have hlen : a.length + (v ++ [';']).length + b.length = 36 := by
    rw [← List.length_append, ← List.length_append, he]
    decide
  have hcut : (listThenSet.toList.drop a.length).take (v ++ [';']).length = v ++ [';'] := by
    rw [← he, List.append_assoc, List.drop_left, List.take_left]
  refine hnone a.length (by omega) (v ++ [';']).length (by omega) ?_
  rw [hcut, occursIn_iff, occursIn_iff]
  exact ⟨htype, hname, by simp, by simp [List.count_eq_zero.2 hv]⟩

end FxmlWiring
