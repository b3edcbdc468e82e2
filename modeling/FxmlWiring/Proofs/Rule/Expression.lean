import FxmlWiring.Proofs.Rule.Declaration
import FxmlWiring.Proofs.Text.Span
import FxmlWiring.Rule.Expression
import FxmlWiring.Rule.Pattern

/-! # Reading the pattern of a rule

The pattern of a rule is text, in which the values of a requirement are escaped. This file reads it
back. A text `ReadsAs` some items if it adds these items to whatever is being read, no matter what
stands in front of it and behind it; such texts can be put one after another. The pieces of a rule
are written as such texts (`Piece.readsAs_pattern`), so no value reaches beyond its own place.

`Expression.words` says which texts an expression describes. The items of a piece describe the words
of the piece (`Piece.words_items`). -/

namespace FxmlWiring

namespace Expression

/-! ## Texts that are read on their own -/

/-- The text is read as the items, whatever stands in front of it and behind it. -/
def ReadsAs (w : List Char) (es : List Expression) : Prop :=
  ∃ ts, (∀ s, tokens? (w ++ s) = (tokens? s).map (ts ++ ·)) ∧
    ∀ r : Reading, r.run? ts = some ⟨r.group.append es, r.outer⟩

theorem Reading.run?_append (r : Reading) (ts us : List Token) :
    r.run? (ts ++ us) = (r.run? ts).bind fun r => r.run? us := by
  induction ts generalizing r with
  | nil => rfl
  | cons t ts ih =>
    rw [List.cons_append, Reading.run?, Reading.run?, Option.bind_assoc]
    exact congrArg _ (funext fun r => ih r)

theorem readsAs_nil : ReadsAs [] [] := by
  refine ⟨[], fun s => ?_, fun r => rfl⟩
  simp

theorem ReadsAs.append {w v : List Char} {es fs : List Expression} (hw : ReadsAs w es)
    (hv : ReadsAs v fs) : ReadsAs (w ++ v) (es ++ fs) := by
  obtain ⟨ts, ht, hr⟩ := hw
  obtain ⟨us, hu, hq⟩ := hv
  refine ⟨ts ++ us, fun s => ?_, fun r => ?_⟩
  · rw [List.append_assoc, ht, hu, Option.map_map]
    simp only [Function.comp_def, List.append_assoc]
  · rw [Reading.run?_append, hr, Option.bind_some, hq]
    simp only [Group.append, List.reverse_append, List.append_assoc]

/-- A text that is read on its own is the notation of the sequence of its items. -/
theorem ReadsAs.read?_eq {w : List Char} {es : List Expression} (h : ReadsAs w es) :
    read? w = some (sequence es) := by
  obtain ⟨ts, ht, hr⟩ := h
  have hw : tokens? w = some ts := by simpa [tokens?] using ht []
  rw [read?, hw]
  show ((Reading.run? {} ts).bind fun r => r.finish?) = some (sequence es)
  rw [hr]
  simp [Reading.finish?, Group.append, Group.close]

/-! ## Signs of the notation -/

/-- A character that is a sign by itself is a token, whatever is behind it. -/
theorem tokens?_cons {c : Char} {t : Token} (h : Token.ofPlain? c = some t) (s : List Char) :
    tokens? (c :: s) = (tokens? s).map (t :: ·) := by
  have hb : ∀ d u, c = '\\' → s = d :: u → False := by
    rintro d u rfl -
    cases h
  have ho : ∀ u, c = '(' → s = '?' :: ':' :: u → False := by
    rintro u rfl -
    cases h
  rw [tokens?.eq_4 c s hb ho, h, Option.bind_some]

/-- A character that stands for an item is read as this item. -/
theorem readsAs_plain {c : Char} {e : Expression} (h : Token.ofPlain? c = some (.item e)) :
    ReadsAs [c] [e] :=
  ⟨[.item e], tokens?_cons h, fun _ => rfl⟩

/-- So is one with a backslash before it. -/
theorem readsAs_escaped {c : Char} {e : Expression} (h : Token.ofEscaped? c = some (.item e)) :
    ReadsAs ['\\', c] [e] := by
  refine ⟨[.item e], fun s => ?_, fun r => rfl⟩
  rw [List.cons_append, List.singleton_append, tokens?, h]
  rfl

/-- A quantifier behind an item that has none repeats it. -/
theorem ReadsAs.quantified {w : List Char} {e : Expression} {c : Char} {q : Quantifier}
    (h : ReadsAs w [e]) (hc : Token.ofPlain? c = some (.quantifier q))
    (he : ∀ q f, e ≠ repeated q f) : ReadsAs (w ++ [c]) [repeated q e] := by
  obtain ⟨ts, ht, hr⟩ := h
  refine ⟨ts ++ [.quantifier q], fun s => ?_, fun r => ?_⟩
  · rw [List.append_assoc, List.singleton_append, ht, tokens?_cons hc, Option.map_map]
    simp only [Function.comp_def, List.append_assoc, List.singleton_append]
  · have hl : (r.group.append [e]).repeatLast? q = some (r.group.append [repeated q e]) := by
      cases e with
      | repeated q f => exact absurd rfl (he q f)
      | _ => rfl
    rw [Reading.run?_append, hr, Option.bind_some, Reading.run?, Reading.step?, hl]
    rfl

/-- A group is one item. -/
theorem ReadsAs.group {w : List Char} {es : List Expression} (h : ReadsAs w es) :
    ReadsAs ('(' :: '?' :: ':' :: w ++ [')']) [sequence es] := by
  obtain ⟨ts, ht, hr⟩ := h
  refine ⟨.openGroup :: ts ++ [.closeGroup], fun s => ?_, fun r => ?_⟩
  · show (tokens? (w ++ [')'] ++ s)).map (Token.openGroup :: ·) = _
    rw [List.append_assoc, ht, List.singleton_append, tokens?_cons rfl, Option.map_map,
      Option.map_map]
    simp [Function.comp_def]
  · show ((Reading.run? ⟨{}, r.group :: r.outer⟩ (ts ++ [.closeGroup]))) = _
    rw [Reading.run?_append, hr]
    simp [Reading.run?, Reading.step?, Group.append, Group.close]

/-- A group of two alternatives is one item. -/
theorem ReadsAs.alternatives {w v : List Char} {es fs : List Expression} (hw : ReadsAs w es)
    (hv : ReadsAs v fs) :
    ReadsAs ('(' :: '?' :: ':' :: w ++ '|' :: v ++ [')'])
      [either (sequence es) (sequence fs)] := by
  obtain ⟨ts, ht, hr⟩ := hw
  obtain ⟨us, hu, hq⟩ := hv
  refine ⟨.openGroup :: ts ++ .bar :: us ++ [.closeGroup], fun s => ?_, fun r => ?_⟩
  · show (tokens? (w ++ '|' :: v ++ [')'] ++ s)).map (Token.openGroup :: ·) = _
    rw [List.append_assoc, List.append_assoc, ht, List.cons_append, tokens?_cons rfl, hu,
      List.singleton_append, tokens?_cons rfl, Option.map_map, Option.map_map, Option.map_map,
      Option.map_map]
    simp [Function.comp_def]
  · show (Reading.run? ⟨{}, r.group :: r.outer⟩ (ts ++ .bar :: us ++ [.closeGroup])) = _
    rw [List.append_assoc, Reading.run?_append, hr, Option.bind_some, List.cons_append,
      Reading.run?, Reading.step?, Option.bind_some, Reading.run?_append, hq]
    simp [Reading.run?, Reading.step?, Group.append, Group.next, Group.close]

/-! ## Escaped texts -/

/-- A special character with a backslash before it stands for itself. -/
theorem ofEscaped?_of_mem_specials {c : Char} (hc : c ∈ Pattern.specials) :
    Token.ofEscaped? c = some (.item (char c)) := by
  have h : ∀ c ∈ Pattern.specials, c ≠ 's' ∧ c.isAlphanum = false := by decide
  obtain ⟨hs, ha⟩ := h c hc
  simp [Token.ofEscaped?, hs, ha]

/-- Any other character stands for itself without one. -/
theorem ofPlain?_of_not_mem_specials {c : Char} (hc : c ∉ Pattern.specials) :
    Token.ofPlain? c = some (.item (char c)) := by
  unfold Token.ofPlain?
  split
  all_goals first
    | rfl
    | exact absurd (by decide) hc

/-- **An escaped text is read as its characters**, each of them standing for itself. -/
theorem readsAs_escape (w : List Char) : ReadsAs (Pattern.escape w) (literally w) := by
  induction w with
  | nil => exact readsAs_nil
  | cons c w ih =>
    rw [Pattern.escape]
    by_cases hc : c ∈ Pattern.specials
    · rw [if_pos hc]
      exact (readsAs_escaped (ofEscaped?_of_mem_specials hc)).append ih
    · rw [if_neg hc]
      exact (readsAs_plain (ofPlain?_of_not_mem_specials hc)).append ih

/-! ## The parts of a pattern -/

/-- One or more blanks. -/
def gap : Expression :=
  repeated .plus blank

/-- Any number of blanks. -/
def blanks : Expression :=
  repeated .star blank

/-- One or more characters of any kind. -/
def filler : Expression :=
  repeated .plus any

/-- One of the two access words and a gap, or nothing. -/
def access : Expression :=
  repeated .optional (sequence
    [either (sequence (literally "private".toList)) (sequence (literally "protected".toList)), gap])

theorem readsAs_gap : ReadsAs "\\s+".toList [gap] :=
  (readsAs_escaped (c := 's') rfl).quantified (c := '+') rfl (by simp)

theorem readsAs_blanks : ReadsAs "\\s*".toList [blanks] :=
  (readsAs_escaped (c := 's') rfl).quantified (c := '*') rfl (by simp)

theorem readsAs_filler : ReadsAs ".+".toList [filler] :=
  (readsAs_plain (c := '.') rfl).quantified (c := '+') rfl (by simp)

theorem readsAs_access : ReadsAs "(?:(?:private|protected)\\s+)?".toList [access] := by
  have hprivate : ReadsAs "private".toList (literally "private".toList) :=
    readsAs_escape "private".toList
  have hprotected : ReadsAs "protected".toList (literally "protected".toList) :=
    readsAs_escape "protected".toList
  have hwords := (hprivate.alternatives hprotected).append readsAs_gap
  exact hwords.group.quantified (c := '?') rfl (by simp [sequence])

end Expression

/-! ## Pieces -/

namespace Piece

open Expression in
/-- The items that describe a piece. -/
def items : Piece → List Expression
  | literal w => literally w
  | access => [Expression.access]
  | gap => [Expression.gap]
  | optionalGap => [blanks]
  | filler => [Expression.filler]

open Expression in
/-- **The notation of a piece is read as its items.** -/
theorem readsAs_pattern (p : Piece) : ReadsAs p.pattern.toList p.items := by
  cases p with
  | literal w =>
    rw [pattern, String.toList_ofList]
    exact readsAs_escape w
  | access => exact readsAs_access
  | gap => exact readsAs_gap
  | optionalGap => exact readsAs_blanks
  | filler => exact readsAs_filler

open Expression in
/-- The notation of pieces in a row is read as their items. -/
theorem readsAs_join (ps : List Piece) :
    ReadsAs (String.join (ps.map pattern)).toList (ps.flatMap items) := by
  rw [String.toList_join, List.flatMap_map]
  induction ps with
  | nil => exact readsAs_nil
  | cons p ps ih =>
    rw [List.flatMap_cons, List.flatMap_cons]
    exact p.readsAs_pattern.append ih

end Piece

/-! ## Words of expressions -/

namespace Expression

/-- One character of a class. -/
def oneOf (p : Char → Prop) : Language Char :=
  {s | ∃ c, p c ∧ s = [c]}

/-- The texts that an expression describes. -/
def words : Expression → Language Char
  | empty => 1
  | char c => oneOf (· = c)
  | blank => oneOf (Text.isBlank · = true)
  | any => oneOf fun _ => True
  | seq a b => words a * words b
  | either a b => words a + words b
  | repeated .optional e => 1 + words e
  | repeated .star e => KStar.kstar (words e)
  | repeated .plus e => words e * KStar.kstar (words e)

theorem words_sequence (es : List Expression) :
    words (sequence es) = (es.map words).prod := by
  induction es with
  | nil => rfl
  | cons e es ih => rw [sequence, words, ih, List.map_cons, List.prod_cons]

/-- A text that stands for itself is its only word. -/
theorem words_literally (w : List Char) : words (sequence (literally w)) = {w} := by
  induction w with
  | nil => rfl
  | cons c w ih =>
    rw [literally_cons, sequence, words, ih, words]
    ext s
    constructor
    · rintro ⟨_, ⟨_, rfl, rfl⟩, _, rfl, rfl⟩
      rfl
    · rintro rfl
      exact ⟨[c], ⟨c, rfl, rfl⟩, w, rfl, rfl⟩

/-- Repeating one character of a class gives the texts of the class. -/
theorem mem_kstar_oneOf_iff {p : Char → Prop} {s : List Char} :
    s ∈ KStar.kstar (oneOf p) ↔ ∀ c ∈ s, p c := by
  rw [Language.mem_kstar]
  constructor
  · rintro ⟨ws, rfl, hws⟩ c hc
    obtain ⟨w, hw, hc⟩ := List.mem_flatten.1 hc
    obtain ⟨d, hd, rfl⟩ := hws w hw
    rwa [List.mem_singleton.1 hc]
  · intro hs
    refine ⟨s.map fun c => [c], ?_, fun w hw => ?_⟩
    · rw [← List.flatMap_def, List.flatMap_singleton']
    · obtain ⟨c, hc, rfl⟩ := List.mem_map.1 hw
      exact ⟨c, hs c hc, rfl⟩

theorem mem_mul_kstar_oneOf_iff {p : Char → Prop} {s : List Char} :
    s ∈ oneOf p * KStar.kstar (oneOf p) ↔ s ≠ [] ∧ ∀ c ∈ s, p c := by
  constructor
  · rintro ⟨_, ⟨c, hc, rfl⟩, v, hv, rfl⟩
    exact ⟨List.cons_ne_nil c v, List.forall_mem_cons.2 ⟨hc, mem_kstar_oneOf_iff.1 hv⟩⟩
  · rintro ⟨hne, hs⟩
    obtain ⟨c, v, rfl⟩ := List.exists_cons_of_ne_nil hne
    rw [List.forall_mem_cons] at hs
    exact ⟨[c], ⟨c, hs.1, rfl⟩, v, mem_kstar_oneOf_iff.2 hs.2, rfl⟩

theorem words_gap : gap.words = Declaration.gap := by
  ext s
  exact mem_mul_kstar_oneOf_iff.trans Declaration.mem_gap_iff.symm

theorem words_blanks : blanks.words = Declaration.blanks := by
  ext s
  exact mem_kstar_oneOf_iff.trans Declaration.mem_blanks_iff.symm

theorem words_filler : filler.words = Declaration.filler := by
  ext s
  refine mem_mul_kstar_oneOf_iff.trans ?_
  show (s ≠ [] ∧ ∀ c ∈ s, True) ↔ s ≠ []
  simp

theorem words_access : access.words = Declaration.access := by
  have hprivate : words (sequence (literally "private".toList)) = Declaration.exactly "private" :=
    words_literally _
  have hprotected :
      words (sequence (literally "protected".toList)) = Declaration.exactly "protected" :=
    words_literally _
  rw [access, words, words_sequence, List.map_cons, List.map_singleton, List.prod_cons,
    List.prod_singleton, words, hprivate, hprotected, words_gap, Declaration.access, add_mul,
    add_assoc]

end Expression

/-- **The items of a piece describe its words.** -/
theorem Piece.words_items (p : Piece) : (Expression.sequence p.items).words = p.language := by
  cases p with
  | literal w => exact Expression.words_literally w
  | _ =>
    simp only [items, Expression.words_sequence, List.map_cons, List.map_nil, List.prod_cons,
      List.prod_nil, mul_one, Expression.words_access, Expression.words_gap,
      Expression.words_blanks, Expression.words_filler, language_access, language_gap,
      language_optionalGap, language_filler]

/-- The items of pieces in a row describe their words. -/
theorem Piece.words_flatMap_items (ps : List Piece) :
    (Expression.sequence (ps.flatMap items)).words = (ps.map language).prod := by
  induction ps with
  | nil => rfl
  | cons p ps ih =>
    rw [Expression.words_sequence] at ih ⊢
    rw [List.flatMap_cons, List.map_append, List.prod_append, ih, ← Expression.words_sequence,
      p.words_items, List.map_cons, List.prod_cons]

end FxmlWiring
