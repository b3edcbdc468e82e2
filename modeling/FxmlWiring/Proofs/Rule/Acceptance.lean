import FxmlWiring.Check
import FxmlWiring.Proofs.Rule.Declaration

/-! # Which rule accepts a requirement

A requirement is accepted by the first of its rules that has a declaration in the controller text,
and it is missing exactly if none has. Everything rests on `Rule.accepts_iff`, so no text of an
annotation, a type or an identifier is special. -/

namespace FxmlWiring

namespace Requirement

variable (s : Settings) (r : Requirement) (source : String)

/-- The accepting rule is the first one that has a declaration in the text. -/
theorem acceptedBy?_eq_some_iff (rule : Rule) :
    r.acceptedBy? s source = some rule ↔
      ∃ before after, r.rules = before ++ rule :: after ∧ rule.StandsIn s r source ∧
        ∀ earlier ∈ before, ¬ earlier.StandsIn s r source := by
  rw [acceptedBy?, List.find?_eq_some_iff_append]
  constructor
  · rintro ⟨ha, before, after, hr, hb⟩
    have hmem : rule ∈ r.rules := by simp [hr]
    refine ⟨before, after, hr, (Rule.accepts_iff s hmem source).1 ha, ?_⟩
    intro earlier he hs
    have hm : earlier ∈ r.rules := by simp [hr, he]
    simpa [(Rule.accepts_iff s hm source).2 hs] using hb earlier he
  · rintro ⟨before, after, hr, hs, hb⟩
    have hmem : rule ∈ r.rules := by simp [hr]
    refine ⟨(Rule.accepts_iff s hmem source).2 hs, before, after, hr, ?_⟩
    intro earlier he
    have hm : earlier ∈ r.rules := by simp [hr, he]
    rw [Bool.not_eq_true', ← Bool.not_eq_true, Rule.accepts_iff s hm source]
    exact hb earlier he

/-- No rule accepts exactly if no rule has a declaration in the text. -/
theorem acceptedBy?_eq_none_iff :
    r.acceptedBy? s source = none ↔ ∀ rule ∈ r.rules, ¬ rule.StandsIn s r source := by
  rw [acceptedBy?, List.find?_eq_none]
  constructor
  · intro h rule hm hs
    exact h rule hm ((Rule.accepts_iff s hm source).2 hs)
  · intro h rule hm ha
    exact h rule hm ((Rule.accepts_iff s hm source).1 ha)

/-- Some rule accepts exactly if one has a declaration in the text. -/
theorem isSome_acceptedBy?_iff :
    (r.acceptedBy? s source).isSome ↔ ∃ rule ∈ r.rules, rule.StandsIn s r source := by
  rw [Option.isSome_iff_ne_none, Ne, acceptedBy?_eq_none_iff]
  simp only [not_forall, not_not, exists_prop]

end Requirement

/-! ## Missing items -/

/-- The missing items are those of the requirements that no rule accepts. -/
theorem verify_eq_map_filter (s : Settings) (rs : List Requirement) (source : String) :
    verify s rs source =
      (rs.filter fun r => (r.acceptedBy? s source).isNone).map Requirement.display := by
  rw [verify, evaluate, Outcome.missing, List.filter_map, List.map_map]
  rfl

open Classical in
/-- **The rule that accepts a requirement is the first one, in the order of its rules, one of whose
declarations stands in the text**, and there is none exactly if no rule has a declaration there. So
the missing items are the displays of the requirements without any declaration in the text, in
their order and as often as they are required. -/
theorem acceptedBy?_is_first_with_declaration (s : Settings) (source : String) :
    (∀ (r : Requirement) (rule : Rule), r.acceptedBy? s source = some rule ↔
      ∃ before after, r.rules = before ++ rule :: after ∧ rule.StandsIn s r source ∧
        ∀ earlier ∈ before, ¬ earlier.StandsIn s r source) ∧
    (∀ r : Requirement, r.acceptedBy? s source = none ↔
      ∀ rule ∈ r.rules, ¬ rule.StandsIn s r source) ∧
    ∀ rs : List Requirement, verify s rs source =
      (rs.filter fun r => ∀ rule ∈ r.rules, ¬ rule.StandsIn s r source).map
        Requirement.display := by
  refine ⟨fun r => r.acceptedBy?_eq_some_iff s source, fun r => r.acceptedBy?_eq_none_iff s source,
    fun rs => ?_⟩
  have h : (fun r : Requirement => (r.acceptedBy? s source).isNone) =
      fun r => decide (∀ rule ∈ r.rules, ¬ rule.StandsIn s r source) := by
    funext r
    rw [Bool.eq_iff_iff, Option.isNone_iff_eq_none, decide_eq_true_eq]
    exact r.acceptedBy?_eq_none_iff s source
  rw [verify_eq_map_filter, h]

end FxmlWiring
