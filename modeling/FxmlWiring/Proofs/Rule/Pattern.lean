import FxmlWiring.Proofs.Rule.Expression

/-! # Values in the pattern of a rule

The pattern of a rule is its template with the values of a requirement, escaped. No value changes
what is around it. `Requirement.skeleton` writes out, rule by rule, the items of the expression that
the pattern has to be, with the values standing for themselves. Main statement:
`Rule.pattern_is_skeleton_with_literals`, by which the pattern is read as exactly this, and by which
it also says what the values have been.

A pattern gives its values back because no slot has text behind it (`Rule.isChain_shape`): a value
ends where the first item comes that is not a character. -/

namespace FxmlWiring

/-! ## Filling a template -/

namespace Pattern

variable {text? : String → Option String}

/-- What stands between the names of a template is kept. -/
theorem fillFrom?_append {w : List Char} (hw : ∀ c ∈ w, c ≠ '\x7b' ∧ c ≠ '\x7d') (s : List Char) :
    fillFrom? text? none (w ++ s) = (fillFrom? text? none s).map (w ++ ·) := by
  induction w with
  | nil => simp
  | cons c w ih =>
    rw [List.forall_mem_cons] at hw
    rw [List.cons_append, fillFrom?, if_neg hw.1.1, if_neg hw.1.2, ih hw.2, Option.map_map]
    rfl

theorem fillFrom?_some {name : List Char} (hn : '\x7d' ∉ name) (front s : List Char) :
    fillFrom? text? (some front) (name ++ '\x7d' :: s) =
      (text? (.ofList (front ++ name))).bind fun t =>
        (fillFrom? text? none s).map (t.toList ++ ·) := by
  induction name generalizing front with
  | nil => rw [List.nil_append, fillFrom?, if_pos rfl, List.append_nil]
  | cons c name ih =>
    rw [List.mem_cons, not_or] at hn
    rw [List.cons_append, fillFrom?, if_neg (Ne.symm hn.1), ih hn.2, List.append_assoc]
    rfl

/-- A name in braces is replaced by its text. -/
theorem fillFrom?_placeholder {name : String} (hn : '\x7d' ∉ name.toList) (s : List Char) :
    fillFrom? text? none ((placeholder name).toList ++ s) =
      (text? name).bind fun t => (fillFrom? text? none s).map (t.toList ++ ·) := by
  have h : (placeholder name).toList ++ s = '\x7b' :: (name.toList ++ '\x7d' :: s) := by
    simp [placeholder]
  rw [h, fillFrom?, if_pos rfl, fillFrom?_some hn, List.nil_append, String.ofList_toList]

end Pattern

/-! ## Parts and their pieces -/

section

variable {value? : Slot → Option String}

/-- A row of parts is filled part by part. -/
theorem Part.mapM_fill_cons {part : Part} {parts : List Part} {ps : List Piece}
    (h : (part :: parts).mapM (Part.fill value?) = .ok ps) :
    ∃ p qs, part.fill value? = .ok p ∧ parts.mapM (Part.fill value?) = .ok qs ∧ ps = p :: qs := by
  rw [List.mapM_cons] at h
  cases hp : part.fill value? with
  | error e =>
    rw [hp] at h
    cases h
  | ok p =>
    cases hq : parts.mapM (Part.fill value?) with
    | error e =>
      rw [hp, hq] at h
      cases h
    | ok qs =>
      rw [hp, hq] at h
      exact ⟨p, qs, rfl, rfl, (Except.ok.inj h).symm⟩

/-- A slot that is filled has a value. -/
theorem Part.fill_slot_eq_ok {slot : Slot} {p : Piece}
    (h : (Part.slot slot).fill value? = .ok p) :
    ∃ v, value? slot = some v ∧ p = .literal v.toList := by
  rw [Part.fill] at h
  split at h
  · rename_i v hv
    exact ⟨v, hv, (Except.ok.inj h).symm⟩
  · cases h

end

/-- The part is no word with a brace in it. -/
def Part.isPlain : Part → Bool
  | word w => (Pattern.escape w.toList).all fun c => c ≠ '\x7b' ∧ c ≠ '\x7d'
  | _ => true

open Pattern in
/-- **A part of a template is filled with the notation of its piece.** -/
theorem Part.fillFrom?_template {s : Settings} {r : Requirement} {part : Part} {p : Piece}
    (hb : part.isPlain = true) (h : part.fill (r.value? s) = .ok p) (rest : List Char) :
    fillFrom? (r.text? s) none (part.template.toList ++ rest) =
      (fillFrom? (r.text? s) none rest).map (p.pattern.toList ++ ·) := by
  cases part with
  | slot slot =>
    obtain ⟨v, hv, rfl⟩ := fill_slot_eq_ok h
    have hn : slot.name ≠ "access" ∧ '\x7d' ∉ slot.name.toList := by
      cases slot <;> decide
    have ht : r.text? s slot.name = some (.ofList (escape v.toList)) := by
      rw [Requirement.text?, if_neg hn.1, Slot.ofName?_name, Option.bind_some, hv, Option.map_some]
    rw [template, fillFrom?_placeholder hn.2, ht]
    rfl
  | word w =>
    obtain rfl := Except.ok.inj h
    rw [template, Piece.pattern, String.toList_ofList]
    exact fillFrom?_append (by simpa [isPlain] using hb) rest
  | access =>
    obtain rfl := Except.ok.inj h
    have ht : r.text? s "access" = some Pattern.access := if_pos rfl
    rw [template, fillFrom?_placeholder (by decide), ht]
    rfl
  | gap =>
    obtain rfl := Except.ok.inj h
    exact fillFrom?_append (w := Pattern.gap.toList) (by decide) rest
  | optionalGap =>
    obtain rfl := Except.ok.inj h
    exact fillFrom?_append (w := Pattern.optionalGap.toList) (by decide) rest
  | filler =>
    obtain rfl := Except.ok.inj h
    exact fillFrom?_append (w := Pattern.filler.toList) (by decide) rest

open Pattern in
/-- A template is filled with the notation of the pieces. -/
theorem Part.fillFrom?_templates {s : Settings} {r : Requirement} {parts : List Part}
    {ps : List Piece} (hb : ∀ part ∈ parts, part.isPlain = true)
    (h : parts.mapM (Part.fill (r.value? s)) = .ok ps) :
    fillFrom? (r.text? s) none (String.join (parts.map Part.template)).toList =
      some (String.join (ps.map Piece.pattern)).toList := by
  simp only [String.toList_join, List.flatMap_map]
  induction parts generalizing ps with
  | nil =>
    obtain rfl := Except.ok.inj h
    rfl
  | cons part parts ih =>
    obtain ⟨p, qs, hp, hq, rfl⟩ := mapM_fill_cons h
    rw [List.forall_mem_cons] at hb
    rw [List.flatMap_cons, fillFrom?_template hb.1 hp, ih hb.2 hq, List.flatMap_cons]
    rfl

/-! ## Values that can be read back -/

namespace Part

/-- The part is a text: a value or a word. -/
def isText : Part → Bool
  | slot _ | word _ => true
  | _ => false

/-- Behind a slot stands no text. -/
def mayPrecede : Part → Part → Bool
  | slot _, b => !b.isText
  | _, _ => true

end Part

/-- No slot of a rule has text behind it. -/
theorem Rule.isChain_shape (rule : Rule) :
    rule.shape.IsChain fun a b => a.mayPrecede b = true := by
  cases rule <;> decide

namespace Expression

/-- The items do not begin with a character. -/
def BeginsApart (es : List Expression) : Prop :=
  ∀ c, es.head? ≠ some (char c)

/-- A text that stands for itself ends where the first item comes that is no character. -/
theorem literally_append_inj {w v : List Char} {es fs : List Expression} (he : BeginsApart es)
    (hf : BeginsApart fs) (h : literally w ++ es = literally v ++ fs) : w = v ∧ es = fs := by
  induction w generalizing v with
  | nil =>
    cases v with
    | nil => exact ⟨rfl, h⟩
    | cons d v =>
      have hd : es = char d :: (literally v ++ fs) := h
      exact absurd (by rw [hd]; rfl) (he d)
  | cons c w ih =>
    cases v with
    | nil =>
      have hc : char c :: (literally w ++ es) = fs := h
      exact absurd (by rw [← hc]; rfl) (hf c)
    | cons d v =>
      obtain ⟨hcd, ht⟩ := List.cons.inj h
      obtain ⟨rfl, hes⟩ := ih ht
      exact ⟨by rw [char.inj hcd], hes⟩

end Expression

section

variable {value? value?' : Slot → Option String} {parts : List Part} {ps qs : List Piece}

/-- The items behind a slot do not begin with a character. -/
theorem Part.beginsApart_of_isChain {slot : Slot}
    (hc : (Part.slot slot :: parts).IsChain fun a b => a.mayPrecede b = true)
    (h : parts.mapM (Part.fill value?) = .ok ps) :
    Expression.BeginsApart (ps.flatMap Piece.items) := by
  intro c hh
  cases parts with
  | nil =>
    obtain rfl := Except.ok.inj h
    cases hh
  | cons part parts =>
    have hn : (!part.isText) = true := (List.isChain_cons_cons.1 hc).1
    obtain ⟨p, ps, hp, -, rfl⟩ := mapM_fill_cons h
    rw [List.flatMap_cons] at hh
    cases part with
    | slot | word => cases hn
    | access | gap | optionalGap | filler =>
      obtain rfl := Except.ok.inj hp
      cases hh

/-- **The items of a row say with what its first part has been filled**, and what is behind it. -/
theorem Part.eq_of_items_append_eq {part : Part} {p q : Piece}
    (hc : (part :: parts).IsChain fun a b => a.mayPrecede b = true)
    (hp : part.fill value? = .ok p) (hps : parts.mapM (Part.fill value?) = .ok ps)
    (hq : part.fill value?' = .ok q) (hqs : parts.mapM (Part.fill value?') = .ok qs)
    (h : p.items ++ ps.flatMap Piece.items = q.items ++ qs.flatMap Piece.items) :
    p = q ∧ ps.flatMap Piece.items = qs.flatMap Piece.items := by
  cases part with
  | slot slot =>
    obtain ⟨v, -, rfl⟩ := fill_slot_eq_ok hp
    obtain ⟨v', -, rfl⟩ := fill_slot_eq_ok hq
    obtain ⟨hv, ht⟩ :=
      Expression.literally_append_inj (beginsApart_of_isChain hc hps)
        (beginsApart_of_isChain hc hqs) h
    exact ⟨congrArg Piece.literal hv, ht⟩
  | word | access | gap | optionalGap | filler =>
    -- Whatever the values are, the piece is the same.
    obtain rfl := Except.ok.inj hp
    obtain rfl := Except.ok.inj hq
    exact ⟨rfl, List.append_cancel_left h⟩

/-- **Items say with what the slots have been filled**, if no slot has text behind it. -/
theorem Part.value?_eq_of_items_eq (hc : parts.IsChain fun a b => a.mayPrecede b = true)
    (hp : parts.mapM (Part.fill value?) = .ok ps) (hq : parts.mapM (Part.fill value?') = .ok qs)
    (h : ps.flatMap Piece.items = qs.flatMap Piece.items) {slot : Slot}
    (hs : Part.slot slot ∈ parts) : value? slot = value?' slot := by
  induction parts generalizing ps qs with
  | nil => cases hs
  | cons part parts ih =>
    obtain ⟨p, ps, hp₁, hps, rfl⟩ := mapM_fill_cons hp
    obtain ⟨q, qs, hq₁, hqs, rfl⟩ := mapM_fill_cons hq
    obtain ⟨rfl, ht⟩ := eq_of_items_append_eq hc hp₁ hps hq₁ hqs h
    rcases List.mem_cons.1 hs with rfl | hs
    · obtain ⟨v, hv, rfl⟩ := fill_slot_eq_ok hp₁
      obtain ⟨v', hv', he⟩ := fill_slot_eq_ok hq₁
      rw [hv, hv', String.toList_inj.1 (Piece.literal.inj he)]
    · exact ih hc.of_cons hps hqs ht hs

end

/-! ## Skeletons -/

open Expression in
/-- The items of the expression by which a rule looks for a requirement: the template of the rule,
with every value as the sequence of its characters. A rule of another kind has none. -/
def Requirement.skeleton (s : Settings) : Requirement → Rule → List Expression
  | .field type identifier, .annotatedField =>
    literally s.binding.toList ++ [gap, access] ++ literally type.toList ++ [gap] ++
      literally identifier.toList ++ [blanks, char ';']
  | .field type identifier, .publicField =>
    literally "public".toList ++ [gap] ++ literally type.toList ++ [gap] ++
      literally identifier.toList ++ [blanks, char ';']
  | .field type identifier, .annotatedGenericField =>
    literally s.binding.toList ++ [gap, access] ++ literally type.toList ++
      [blanks, char '<', blanks, filler, blanks, char '>', gap] ++ literally identifier.toList ++
      [blanks, char ';']
  | .field type identifier, .publicGenericField =>
    literally "public".toList ++ [gap] ++ literally type.toList ++
      [blanks, char '<', blanks, filler, blanks, char '>', gap] ++ literally identifier.toList ++
      [blanks, char ';']
  | .handler identifier, .annotatedHandler =>
    literally s.binding.toList ++ [gap, access] ++ literally "void".toList ++ [gap] ++
      literally identifier.toList ++ [blanks, char '(', blanks, char ')']
  | .handler identifier, .publicHandler =>
    literally "public".toList ++ [gap] ++ literally "void".toList ++ [gap] ++
      literally identifier.toList ++ [blanks, char '(', blanks, char ')']
  | .field .., .annotatedHandler | .field .., .publicHandler => []
  | .handler _, .annotatedField | .handler _, .publicField
  | .handler _, .annotatedGenericField | .handler _, .publicGenericField => []

namespace Rule

/-- The items of a rule's pieces are its skeleton. -/
theorem flatMap_items_eq_skeleton {s : Settings} {r : Requirement} {rule : Rule}
    (h : rule ∈ r.rules) {ps : List Piece} (hp : rule.pieces s r = .ok ps) :
    ps.flatMap Piece.items = r.skeleton s rule := by
  cases r with
  | field type identifier =>
    have h : rule = annotatedField ∨ rule = publicField ∨ rule = annotatedGenericField ∨
        rule = publicGenericField := by simpa [Requirement.rules, fieldRules] using h
    rcases h with rfl | rfl | rfl | rfl
    all_goals
      obtain rfl := Except.ok.inj hp
      simp [Piece.items, Requirement.skeleton, Requirement.identifier]
  | handler identifier =>
    have h : rule = annotatedHandler ∨ rule = publicHandler := by
      simpa [Requirement.rules, handlerRules] using h
    rcases h with rfl | rfl
    all_goals
      obtain rfl := Except.ok.inj hp
      simp [Piece.items, Requirement.skeleton, Requirement.identifier]

/-- The fixed words of a rule have no braces. -/
theorem isPlain_of_mem_shape (rule : Rule) : ∀ part ∈ rule.shape, part.isPlain = true := by
  cases rule <;> decide

/-- **A value in a pattern is nothing but its characters.** The pattern of a rule is its template,
filled with the escaped values. It is read as the rule's skeleton with every value as the sequence
of its characters, and the words of this expression are the declarations that the rule accepts. Two
patterns of one rule are the same text only if they have been filled with the same values. -/
theorem pattern_is_skeleton_with_literals (rule : Rule) :
    (∀ (s : Settings) (r : Requirement), rule ∈ r.rules →
      ∃ text, rule.pattern s r = .ok text ∧
        Pattern.fill? (r.text? s) rule.template = some text ∧
        Expression.read? text.toList = some (Expression.sequence (r.skeleton s rule)) ∧
        (Expression.sequence (r.skeleton s rule)).words = r.declarations s rule) ∧
    ∀ (s s' : Settings) (r r' : Requirement), rule ∈ r.rules → rule ∈ r'.rules →
      rule.pattern s r = rule.pattern s' r' →
        ∀ slot, Part.slot slot ∈ rule.shape → r.value? s slot = r'.value? s' slot := by
  constructor
  · intro s r h
    obtain ⟨ps, hp, hl⟩ := exists_pieces s h
    have hitems := flatMap_items_eq_skeleton h hp
    refine ⟨String.join (ps.map Piece.pattern), by rw [pattern, hp]; rfl, ?_, ?_, ?_⟩
    · rw [Pattern.fill?, template, Part.fillFrom?_templates rule.isPlain_of_mem_shape hp,
        Option.map_some, String.ofList_toList]
    · rw [(Piece.readsAs_join ps).read?_eq, hitems]
    · rw [← hitems, Piece.words_flatMap_items, hl]
  · intro s s' r r' h h' he slot hs
    obtain ⟨ps, hp, -⟩ := exists_pieces s h
    obtain ⟨qs, hq, -⟩ := exists_pieces s' h'
    rw [pattern, pattern, hp, hq] at he
    have htext : String.join (ps.map Piece.pattern) = String.join (qs.map Piece.pattern) :=
      Except.ok.inj he
    -- One text has one reading, and a sequence says what it is made up of.
    have hread := (Piece.readsAs_join ps).read?_eq
    rw [htext, (Piece.readsAs_join qs).read?_eq] at hread
    have hitems := Expression.sequence_injective (Option.some.inj hread)
    exact Part.value?_eq_of_items_eq rule.isChain_shape hp hq hitems.symm hs

/-- A gap that is spelled out in the type, and one in the identifier. Without escaping, both would
give the same pattern. -/
theorem spelled_gaps_are_told_apart :
    publicField ∈ (Requirement.field "a\\s+b" "c").rules ∧
      publicField ∈ (Requirement.field "a" "b\\s+c").rules ∧
      publicField.pattern .standard (.field "a\\s+b" "c") =
        .ok "public\\s+a\\\\s\\+b\\s+c\\s*;" ∧
      publicField.pattern .standard (.field "a\\s+b" "c") ≠
        publicField.pattern .standard (.field "a" "b\\s+c") := by
  have h : publicField ∈ (Requirement.field "a\\s+b" "c").rules := by decide
  have h' : publicField ∈ (Requirement.field "a" "b\\s+c").rules := by decide
  refine ⟨h, h', by decide +kernel, fun he => ?_⟩
  have hvalue := (pattern_is_skeleton_with_literals publicField).2 .standard .standard _ _ h h' he
    .identifier (by decide)
  exact absurd hvalue (by decide)

end Rule

end FxmlWiring
