import FxmlWiring.Rule.Search

/-! # The words of a rule

The **words** of a sequence of pieces are the texts that are made up of one word of each piece, one
after another. A rule's words are the declarations that it accepts, said without a search. -/

namespace FxmlWiring

open Text

namespace Piece

/-- One or more blanks. -/
def IsGap (s : List Char) : Prop :=
  s ≠ [] ∧ ∀ c ∈ s, isBlank c = true

/-- The words of one piece. -/
def IsWord : Piece → List Char → Prop
  | literal w, s => s = w
  | access, s => s = [] ∨ ∃ w ∈ accessWords, ∃ g, IsGap g ∧ s = w.toList ++ g
  | gap, s => IsGap s
  | optionalGap, s => ∀ c ∈ s, isBlank c = true
  | filler, s => s ≠ []

/-- The words of several pieces in a row. -/
def AreWords : List Piece → List Char → Prop
  | [], s => s = []
  | p :: ps, s => ∃ u v, s = u ++ v ∧ p.IsWord u ∧ AreWords ps v

@[simp] theorem areWords_nil (s : List Char) : AreWords [] s ↔ s = [] := Iff.rfl

/-- The words of two rows one after the other. -/
theorem areWords_append (ps qs : List Piece) (s : List Char) :
    AreWords (ps ++ qs) s ↔ ∃ u v, s = u ++ v ∧ AreWords ps u ∧ AreWords qs v := by
  induction ps generalizing s with
  | nil =>
    refine ⟨fun h => ⟨[], s, rfl, rfl, h⟩, ?_⟩
    rintro ⟨u, v, rfl, rfl, h⟩
    exact h
  | cons p ps ih =>
    simp only [List.cons_append, AreWords, ih]
    constructor
    · rintro ⟨a, _, rfl, ha, b, c, rfl, hb, hc⟩
      exact ⟨a ++ b, c, by simp, ⟨a, b, rfl, ha, hb⟩, hc⟩
    · rintro ⟨_, c, rfl, ⟨a, b, rfl, ha, hb⟩, hc⟩
      exact ⟨a, b ++ c, by simp, ha, b, c, rfl, hb, hc⟩

end Piece

end FxmlWiring
