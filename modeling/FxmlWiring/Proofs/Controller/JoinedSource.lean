import FxmlWiring.Proofs.Controller.Seam
import FxmlWiring.Proofs.Rule.Acceptance
import Mathlib.Data.List.Forall2

/-! # Code that is added to a controller

A text whose openings are all closed can take more text behind a line feed: the scan starts anew
there, and only the line feed itself may go to a block comment
(`OpeningsClosed.exists_strip_append_lineFeed`). So the declarations of both texts are still there,
and no outcome of the check gets worse. -/

namespace FxmlWiring

open scoped List
open Text Controller Controller.Comment

/-! ## What is left of two texts with a line feed between them -/

namespace Controller.Comment

/-- No comment comes about where a line feed is put behind a text. -/
theorem afterComment_append_lineFeed {s : List Char} (h : afterComment s = none)
    (ho : ¬ ['/', '*'] <+: s.dropWhile isIndent) (t : List Char) :
    afterComment (s ++ '\n' :: t) = none := by
  rw [afterComment, Option.or_eq_none_iff] at h ⊢
  constructor
  · apply afterBlock_eq_none_of_not_prefix
    rw [List.dropWhile_append]
    split
    · simp [isIndent, List.cons_prefix_cons]
    · intro hp
      rcases pair_prefix_append hp with hd | hd | hd
      · simp_all
      · rw [hd] at hp
        simp [List.cons_prefix_cons] at hp
      · exact ho hd
  · rw [afterLine_eq_none_iff]
    intro hp
    rcases pair_prefix_append hp with rfl | rfl | hp
    · simp [List.cons_prefix_cons] at hp
    · simp [List.cons_prefix_cons] at hp
    · exact afterLine_eq_none_iff.1 h.2 hp

/-- A line feed behind a block comment and its line break is kept, unless the comment takes it: as
its line break, or as the second half of one. -/
theorem IsLeadingBreak.exists_dropBreak_lineFeed {b : List Char} (h : IsLeadingBreak b []) :
    ∃ n, (n = [] ∨ n = ['\n']) ∧ ∀ t, dropBreak (b ++ '\n' :: t) = n ++ t := by
  cases h with
  | pair => exact ⟨['\n'], Or.inr rfl, fun t => rfl⟩
  | @single c _ hc =>
    by_cases hr : c = '\r'
    · subst hr
      exact ⟨[], Or.inl rfl, fun t => rfl⟩
    · refine ⟨['\n'], Or.inr rfl, fun t => ?_⟩
      exact dropBreak_eq_iff.2 ⟨[c], .single hc fun h => absurd h hr, rfl⟩
  | absent => exact ⟨[], Or.inl rfl, fun t => rfl⟩

/-- **Behind a line feed the scan starts anew.** The line feed is kept, or it goes to a block
comment at the end of the text; that does not depend on what follows. -/
theorem OpeningsClosed.exists_strip_append_lineFeed {a : List Char} (h : OpeningsClosed a) :
    ∃ n, (n = [] ∨ n = ['\n']) ∧ ∀ b, strip (a ++ '\n' :: b) = strip a ++ (n ++ strip b) := by
  -- The induction follows the scan of the first text.
  induction h with
  | nil =>
    refine ⟨['\n'], Or.inr rfl, fun b => ?_⟩
    rw [strip_nil]
    exact strip_lineEnd rfl b
  | @comment s r h _ ih =>
    by_cases hr : r = []
    · subst hr
      rw [strip_of_afterComment h, strip_nil]
      rcases Option.or_eq_some_iff.1 h with hb | ⟨hb, hl⟩
      · -- A block comment ends the text; it may take the line feed.
        obtain ⟨v, -, hv, ht⟩ := exists_trail_of_afterBlock hb
        obtain ⟨lb, hlb, hd⟩ := dropBreak_eq_iff.1 hv.symm
        obtain ⟨n, hn, hdrop⟩ := hlb.exists_dropBreak_lineFeed
        rw [List.append_nil] at hd
        have hstep : ∀ b, strip (s ++ '\n' :: b) = strip (n ++ b) := by
          intro b
          apply strip_of_afterComment
          rw [afterComment, ht, Option.some_or, List.dropWhile_append, ← hdrop b, hd]
          split
          · rename_i hnil
            rw [List.isEmpty_iff.1 hnil]
            rfl
          · rfl
        refine ⟨n, hn, fun b => ?_⟩
        rw [hstep]
        rcases hn with rfl | rfl
        · rfl
        · exact strip_lineEnd rfl b
      · -- A line comment ends the text, and the line feed ends the comment.
        refine ⟨['\n'], Or.inr rfl, fun b => ?_⟩
        obtain ⟨t, rfl, ht⟩ := afterLine_eq_some_iff.1 hl
        have hline : ∀ c ∈ t, endsLine c = false := by
          simpa using List.dropWhile_eq_nil_iff.1 ht
        have hnext : afterComment ('/' :: '/' :: (t ++ '\n' :: b)) = some ('\n' :: b) := by
          rw [afterComment, afterBlock_eq_none_of_not_prefix, Option.none_or,
            afterLine_eq_some_iff]
          · exact ⟨_, rfl, dropWhile_append (fun c hc => by simp [hline c hc]) (stopsAt_cons.2 rfl)⟩
          · simp [isIndent, List.cons_prefix_cons]
        rw [List.cons_append, List.cons_append, strip_of_afterComment hnext]
        exact strip_lineEnd rfl b
    · obtain ⟨n, hn, hs⟩ := ih
      refine ⟨n, hn, fun b => ?_⟩
      rw [strip_of_afterComment (afterComment_append_of_ne_nil h hr _), hs,
        strip_of_afterComment h]
  | @keep c s h ho hs ih =>
    obtain ⟨n, hn, hk⟩ := ih
    refine ⟨n, hn, fun b => ?_⟩
    have hnext := afterComment_append_lineFeed h ((OpeningsClosed.keep h ho hs).not_opening h) b
    rw [List.cons_append] at hnext ⊢
    rw [strip_cons hnext, strip_cons h, hk, List.cons_append]

end Controller.Comment

/-! ## Outcomes that are no worse -/

/-- The outcome is about the same requirement, and what was accepted is accepted by the same rule
or by one before it. -/
structure Outcome.NotWorse (o o' : Outcome) : Prop where
  requirement : o'.requirement = o.requirement
  rule : ∀ rule, o.rule = some rule → ∃ rule', o'.rule = some rule' ∧
    (rule' = rule ∨ [rule', rule] <+ o.requirement.rules)

/-- What is missing among outcomes that are no worse was missing before. -/
theorem Outcome.missing_sublist {os os' : List Outcome}
    (h : List.Forall₂ Outcome.NotWorse os os') : Outcome.missing os' <+ Outcome.missing os := by
  induction h with
  | nil => exact List.Sublist.refl _
  | @cons o o' os os' ho _ ih =>
    have hsplit : ∀ (x : Outcome) xs,
        missing (x :: xs) = if x.isMissing then x.requirement.display :: missing xs
          else missing xs := by
      intro x xs
      cases hx : x.isMissing <;> simp [missing, hx]
    rw [hsplit, hsplit, ho.requirement]
    cases hm : o'.isMissing with
    | false =>
      -- The requirement has been found, so it adds nothing on the left.
      rw [if_neg Bool.false_ne_true]
      split
      · exact ih.cons _
      · exact ih
    | true =>
      have hn : o.isMissing = true := by
        rw [isMissing, Option.isNone_iff_eq_none] at hm ⊢
        rw [Option.eq_none_iff_forall_ne_some]
        intro rule hr
        obtain ⟨rule', hr', -⟩ := ho.rule rule hr
        rw [hm] at hr'
        cases hr'
      rw [if_pos rfl, if_pos hn]
      exact ih.cons_cons _

/-- What is accepted in a part of a text is accepted in the text, by the same rule or by one before
it. -/
theorem Requirement.exists_acceptedBy?_of_infix {s : Settings} {r : Requirement} {a b : String}
    (h : a.toList <:+: b.toList) {rule : Rule} (ha : r.acceptedBy? s a = some rule) :
    ∃ rule', r.acceptedBy? s b = some rule' ∧ (rule' = rule ∨ [rule', rule] <+ r.rules) := by
  obtain ⟨before, after, hr, ⟨w, hw, hwa⟩, -⟩ := (r.acceptedBy?_eq_some_iff s a rule).1 ha
  have hmem : rule ∈ r.rules := by simp [hr]
  have hacc : rule.accepts s r b = true := (Rule.accepts_iff s hmem b).2 ⟨w, hw, hwa.trans h⟩
  rw [acceptedBy?, hr, List.find?_append, List.find?_cons, hacc]
  cases hb : before.find? fun rule => rule.accepts s r b with
  | none => exact ⟨rule, rfl, Or.inl rfl⟩
  | some rule' =>
    -- Another rule, tried earlier, accepts the longer text.
    have hsub : [rule', rule] <+ before ++ rule :: after :=
      (List.singleton_sublist.2 (List.mem_of_find?_eq_some hb)).append
        (List.singleton_sublist.2 List.mem_cons_self)
    exact ⟨rule', rfl, Or.inr hsub⟩

/-- Outcomes for a text are no worse than those for a part of it. -/
theorem evaluate_notWorse (s : Settings) (rs : List Requirement) {a b : String}
    (h : a.toList <:+: b.toList) :
    List.Forall₂ Outcome.NotWorse (evaluate s rs a) (evaluate s rs b) := by
  rw [evaluate, evaluate, List.forall₂_map_left_iff, List.forall₂_map_right_iff,
    List.forall₂_same]
  intro r _
  exact ⟨rfl, fun rule hr => Requirement.exists_acceptedBy?_of_infix h hr⟩

/-! ## Joined sources -/

/-- **Adding code hides no declaration.** If all openings of the first text are closed, what is left
of two texts with a line feed between them is what is left of the first one, with the line feed if
no comment takes it, and then what is left of the second. So for all settings and all markup that
can be read, everything that is accepted for one of the texts is accepted for both together, by the
same rule or by one before it, and what is missing then is missing for each of them. -/
theorem added_code_hides_nothing {a : String} (ha : OpeningsClosed a.toList) (b : String) :
    stripComments (a ++ "\n" ++ b) = stripComments (a ++ "\n") ++ stripComments b ∧
      (stripComments a).toList <+: (stripComments (a ++ "\n")).toList ∧
      ∀ s markup,
        (∃ e, check s markup a = .error e ∧ check s markup b = .error e ∧
          check s markup (a ++ "\n" ++ b) = .error e) ∨
        ∃ outcomesA outcomesB outcomes, check s markup a = .ok outcomesA ∧
          check s markup b = .ok outcomesB ∧ check s markup (a ++ "\n" ++ b) = .ok outcomes ∧
          List.Forall₂ Outcome.NotWorse outcomesA outcomes ∧
          List.Forall₂ Outcome.NotWorse outcomesB outcomes ∧
          Outcome.missing outcomes <+ Outcome.missing outcomesA ∧
          Outcome.missing outcomes <+ Outcome.missing outcomesB := by
  obtain ⟨n, -, hn⟩ := ha.exists_strip_append_lineFeed
  have hline : (stripComments (a ++ "\n")).toList = (stripComments a).toList ++ n := by
    have h := hn []
    rw [strip_nil, List.append_nil] at h
    simp [stripComments, h]
  have hjoin : (stripComments (a ++ "\n" ++ b)).toList =
      (stripComments a).toList ++ n ++ (stripComments b).toList := by
    have hab : (a ++ "\n" ++ b).toList = a.toList ++ '\n' :: b.toList := by simp
    simp [stripComments, hab, hn]
  have hpre : (stripComments a).toList <+: (stripComments (a ++ "\n" ++ b)).toList := by
    rw [hjoin, List.append_assoc]
    exact List.prefix_append _ _
  have hsuf : (stripComments b).toList <:+ (stripComments (a ++ "\n" ++ b)).toList := by
    rw [hjoin]
    exact List.suffix_append _ _
  refine ⟨?_, ?_, fun s markup => ?_⟩
  · rw [← String.toList_inj, String.toList_append, hjoin, hline]
  · rw [hline]
    exact List.prefix_append _ _
  · cases he : extract s markup with
    | error e => exact Or.inl ⟨e, by simp [check, he, Except.map]⟩
    | ok rs =>
      have hA := evaluate_notWorse s rs hpre.isInfix
      have hB := evaluate_notWorse s rs hsuf.isInfix
      exact Or.inr ⟨_, _, _, by rw [check, he]; rfl, by rw [check, he]; rfl,
        by rw [check, he]; rfl, hA, hB, Outcome.missing_sublist hA, Outcome.missing_sublist hB⟩

/-- A comment that ends with a carriage return takes the line feed behind it as the second half of
its line break, and nothing of the next line. -/
theorem declaration_behind_comment_is_kept :
    OpeningsClosed "/* old */\r".toList ∧
      stripComments ("/* old */\r" ++ "\n" ++ "@FXML Button ok;") =
        stripComments ("/* old */\r" ++ "\n") ++ stripComments "@FXML Button ok;" := by
  have ha : OpeningsClosed "/* old */\r".toList := .comment (r := []) (by decide) .nil
  exact ⟨ha, (added_code_hides_nothing ha "@FXML Button ok;").1⟩

end FxmlWiring
