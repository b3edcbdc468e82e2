import FxmlWiring.Proofs.Rule.Search
import Mathlib.Computability.Language

/-! # Declarations as a language

`Requirement.declarations` writes out, rule by rule, the texts that declare what a requirement asks
for. Main statement: `Rule.accepts_iff`, by which a rule accepts a controller text exactly when one
of its declarations stands in it.

The **words** of a row of pieces are the product of the languages of its pieces, so comparing the
two is algebra of languages. The one law that is special to rules is `blanks_mul_filler_mul_blanks`:
optional blanks on either side of a filler add nothing to it. -/

namespace FxmlWiring

open Text

/-! ## Parts of declarations -/

namespace Declaration

/-- Any number of blanks. -/
def blanks : Language Char :=
  {s | ∀ c ∈ s, c ∈ [' ', '\t', '\n', '\x0b', '\x0c', '\r']}

/-- One or more blanks. -/
def gap : Language Char :=
  {s | s ≠ [] ∧ s ∈ blanks}

/-- Exactly this text. -/
def exactly (w : String) : Language Char :=
  {w.toList}

/-- Nothing, or an access word with a gap after it. -/
def access : Language Char :=
  1 + exactly "private" * gap + exactly "protected" * gap

/-- Any text but the empty one. -/
def filler : Language Char :=
  {s | s ≠ []}

theorem mem_blanks_iff {s : List Char} : s ∈ blanks ↔ ∀ c ∈ s, isBlank c = true := by
  have h (c : Char) : c ∈ [' ', '\t', '\n', '\x0b', '\x0c', '\r'] ↔ isBlank c = true := by
    simp [isBlank, or_assoc]
  simp only [← h]
  rfl

theorem mem_gap_iff {s : List Char} : s ∈ gap ↔ Piece.IsGap s := by
  rw [Piece.IsGap, ← mem_blanks_iff]
  rfl

@[simp] theorem mem_exactly {w : String} {s : List Char} : s ∈ exactly w ↔ s = w.toList :=
  Iff.rfl

/-- Optional blanks on either side of a filler add nothing to it. -/
theorem blanks_mul_filler_mul_blanks (L : Language Char) :
    blanks * (filler * (blanks * L)) = filler * L := by
  have hn : ([] : List Char) ∈ blanks := by simp [mem_blanks_iff]
  have h : blanks * (filler * blanks) = filler := by
    ext s
    constructor
    · rintro ⟨a, -, t, ⟨b, hb, d, -, rfl⟩, rfl⟩
      have hb : b ≠ [] := hb
      show a ++ (b ++ d) ≠ []
      simp [hb]
    · intro hs
      exact ⟨[], hn, s, ⟨s, hs, [], hn, List.append_nil s⟩, rfl⟩
  rw [← mul_assoc filler, ← mul_assoc blanks, h]

end Declaration

/-! ## Declarations of a requirement -/

open Declaration in
/-- The declarations by which a rule accepts a requirement. A rule of another kind has none. -/
def Requirement.declarations (s : Settings) : Requirement → Rule → Language Char
  | .field type identifier, .annotatedField =>
    exactly s.binding * gap * access * exactly type * gap * exactly identifier * blanks *
      exactly ";"
  | .field type identifier, .publicField =>
    exactly "public" * gap * exactly type * gap * exactly identifier * blanks * exactly ";"
  | .field type identifier, .annotatedGenericField =>
    exactly s.binding * gap * access * exactly type * blanks * exactly "<" * filler *
      exactly ">" * gap * exactly identifier * blanks * exactly ";"
  | .field type identifier, .publicGenericField =>
    exactly "public" * gap * exactly type * blanks * exactly "<" * filler * exactly ">" * gap *
      exactly identifier * blanks * exactly ";"
  | .handler identifier, .annotatedHandler =>
    exactly s.binding * gap * access * exactly "void" * gap * exactly identifier * blanks *
      exactly "(" * blanks * exactly ")"
  | .handler identifier, .publicHandler =>
    exactly "public" * gap * exactly "void" * gap * exactly identifier * blanks * exactly "(" *
      blanks * exactly ")"
  | .field .., .annotatedHandler | .field .., .publicHandler => 0
  | .handler _, .annotatedField | .handler _, .publicField
  | .handler _, .annotatedGenericField | .handler _, .publicGenericField => 0

/-- A declaration by which the rule accepts the requirement stands in the text. -/
def Rule.StandsIn (rule : Rule) (s : Settings) (r : Requirement) (source : String) : Prop :=
  ∃ w ∈ r.declarations s rule, w <:+: source.toList

/-! ## Words of pieces as languages -/

namespace Piece

/-- The words of one piece as a language. -/
def language (q : Piece) : Language Char :=
  {s | q.IsWord s}

@[simp] theorem language_literal (w : String) :
    language (literal w.toList) = Declaration.exactly w := rfl

@[simp] theorem language_gap : language gap = Declaration.gap := by
  ext s
  exact Declaration.mem_gap_iff.symm

@[simp] theorem language_optionalGap : language optionalGap = Declaration.blanks := by
  ext s
  exact Declaration.mem_blanks_iff.symm

@[simp] theorem language_filler : language filler = Declaration.filler := rfl

@[simp] theorem language_access : language access = Declaration.access := by
  ext s
  -- Both sides say the same about each access word in turn.
  show (s = [] ∨ ∃ w ∈ accessWords, ∃ g, IsGap g ∧ s = w.toList ++ g) ↔ _
  simp only [accessWords, Declaration.access, Language.mem_add, Language.mem_one,
    Language.mem_mul, Declaration.mem_exactly, Declaration.mem_gap_iff, List.mem_cons,
    List.not_mem_nil, or_false, exists_eq_or_imp, exists_eq_left, or_assoc, eq_comm]

/-- The words of pieces in a row are the product of their languages. -/
theorem areWords_iff_mem_prod (ps : List Piece) (s : List Char) :
    AreWords ps s ↔ s ∈ (ps.map language).prod := by
  induction ps generalizing s with
  | nil => exact Iff.rfl
  | cons q ps ih =>
    rw [List.map_cons, List.prod_cons, Language.mem_mul]
    constructor
    · rintro ⟨u, v, rfl, hu, hv⟩
      exact ⟨u, hu, v, (ih v).1 hv, rfl⟩
    · rintro ⟨u, hu, v, hv, rfl⟩
      exact ⟨u, v, rfl, hu, (ih v).2 hv⟩

/-- The words of a row of pieces are those of the first one before those of the others. -/
theorem prod_language_cons (q : Piece) (ps : List Piece) :
    ((q :: ps).map language).prod = q.language * (ps.map language).prod := by
  rw [List.map_cons, List.prod_cons]

/-- The words of an empty row. -/
theorem prod_language_nil : (([] : List Piece).map language).prod = 1 := rfl

end Piece

/-! ## Rules and their declarations -/

namespace Rule

/-- A rule of the requirement's kind can fill all its slots, and its words are the declarations. -/
theorem exists_pieces (s : Settings) {r : Requirement} {rule : Rule} (h : rule ∈ r.rules) :
    ∃ ps, rule.pieces s r = .ok ps ∧ (ps.map Piece.language).prod = r.declarations s rule := by
  -- The pieces of each rule are its shape, filled. Their product is the declarations up to
  -- brackets and to the blanks around a filler.
  cases r with
  | field type identifier =>
    have h : rule = annotatedField ∨ rule = publicField ∨ rule = annotatedGenericField ∨
        rule = publicGenericField := by simpa [Requirement.rules, fieldRules] using h
    rcases h with rfl | rfl | rfl | rfl
    all_goals
      refine ⟨_, rfl, ?_⟩
      simp only [List.reverse_cons, List.reverse_nil, List.nil_append, List.cons_append,
        Piece.prod_language_cons, Piece.prod_language_nil, Piece.language_literal,
        Piece.language_gap, Piece.language_access, Piece.language_optionalGap,
        Piece.language_filler, Requirement.declarations, Requirement.identifier,
        Declaration.blanks_mul_filler_mul_blanks, mul_assoc, mul_one]
  | handler identifier =>
    have h : rule = annotatedHandler ∨ rule = publicHandler := by
      simpa [Requirement.rules, handlerRules] using h
    rcases h with rfl | rfl
    all_goals
      refine ⟨_, rfl, ?_⟩
      simp only [List.reverse_cons, List.reverse_nil, List.nil_append, List.cons_append,
        Piece.prod_language_cons, Piece.prod_language_nil, Piece.language_literal,
        Piece.language_gap, Piece.language_access, Piece.language_optionalGap,
        Requirement.declarations, Requirement.identifier, mul_assoc, mul_one]

/-- **A rule accepts exactly the texts in which one of its declarations stands.** -/
theorem accepts_iff (s : Settings) {r : Requirement} {rule : Rule} (h : rule ∈ r.rules)
    (source : String) : rule.accepts s r source = true ↔ rule.StandsIn s r source := by
  obtain ⟨ps, hp, hl⟩ := exists_pieces s h
  have hs : rule.accepts s r source = (Piece.find? ps 0 source.toList).isSome := by
    rw [accepts, find?, hp, Except.map]
    cases Piece.find? ps 0 source.toList <;> rfl
  rw [hs, Piece.isSome_find?_iff, StandsIn, ← hl]
  simp only [Piece.areWords_iff_mem_prod]

end Rule

end FxmlWiring
