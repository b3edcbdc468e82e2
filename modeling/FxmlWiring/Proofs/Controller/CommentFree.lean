import FxmlWiring.Proofs.Controller.Seam
import FxmlWiring.Text.Basic

/-! # What is left is free of comments

Removing a comment brings together what stands on both sides of it, and two marks may become one.
`SlashBeforeComment` is the one way in which this can open a comment: a slash, indentation and a
block comment, of which only the slash is kept. In all other texts `strip` leaves nothing that it
would remove.

The induction follows the scan. At a kept slash, the next character that is kept is the next one of
the text (`afterComment_eq_none_of_kept_slash`), and behind an opening that is not closed no closing
mark comes together either (`not_closes_strip`). -/

namespace FxmlWiring.Controller.Comment

open Text

/-! ## Texts without comments -/

/-- The text holds no comment: no `//`, and no `/*` with a `*/` behind it. -/
structure CommentFree (s : List Char) : Prop where
  not_line : ¬ ['/', '/'] <:+: s
  not_block : ∀ u v, s = u ++ '/' :: '*' :: v → ¬ ['*', '/'] <:+: v

theorem commentFree_nil : CommentFree [] := by
  refine ⟨by simp, fun u v h => ?_⟩
  simp at h

theorem CommentFree.of_cons {c : Char} {s : List Char} (h : CommentFree (c :: s)) :
    CommentFree s := by
  refine ⟨fun hl => h.not_line (hl.trans (List.suffix_cons c s).isInfix), ?_⟩
  rintro u v rfl
  exact h.not_block (c :: u) v rfl

/-- A character may stand in front of a text without comments if it makes up no mark with it. -/
theorem CommentFree.cons {c : Char} {s : List Char} (h : CommentFree s)
    (hl : c = '/' → ¬ ['/'] <+: s)
    (hb : c = '/' → ∀ v, s = '*' :: v → ¬ ['*', '/'] <:+: v) : CommentFree (c :: s) := by
  refine ⟨?_, fun u v hs => ?_⟩
  · rw [List.infix_cons_iff, List.cons_prefix_cons]
    rintro (⟨hc, hp⟩ | hi)
    · exact hl hc.symm hp
    · exact h.not_line hi
  · cases u with
    | nil =>
      obtain ⟨hc, hv⟩ := List.cons.inj hs
      exact hb hc v hv
    | cons d u => exact h.not_block u v (List.cons.inj hs).2

/-- A comment begins with `//`, or with indentation and an opening behind which it is closed. -/
theorem StartsComment.cases {s : List Char} (h : StartsComment s) :
    ['/', '/'] <+: s ∨ ∃ w v, s = w ++ '/' :: '*' :: v ∧ (∀ c ∈ w, c ∈ indentation) ∧
      ['*', '/'] <:+: v := by
  obtain ⟨m, rest, hm, rfl⟩ := h
  cases hm with
  | @block indent body trail lineBreak _ hi _ _ _ _ =>
    refine Or.inr ⟨indent, body ++ '*' :: '/' :: (trail ++ lineBreak ++ rest), by simp, hi, ?_⟩
    exact ⟨body, trail ++ lineBreak ++ rest, by simp⟩
  | @line body _ _ _ => exact Or.inl ⟨body ++ rest, rfl⟩

/-- No comment starts in a text without comments. -/
theorem CommentFree.afterComment_eq_none {s : List Char} (h : CommentFree s) :
    afterComment s = none := by
  rw [afterComment_eq_none_iff]
  intro hs
  rcases hs.cases with hl | ⟨w, v, rfl, -, hv⟩
  · exact h.not_line hl.isInfix
  · exact h.not_block w v rfl hv

/-- Nothing is removed from a text without comments. -/
theorem CommentFree.strip_eq {s : List Char} (h : CommentFree s) : strip s = s := by
  induction s with
  | nil => rw [strip_nil]
  | cons c s ih => rw [strip_cons h.afterComment_eq_none, ih h.of_cons]

/-! ## Closing marks -/

/-- Where no comment starts, what is kept begins with the next character. -/
theorem exists_of_strip_eq_cons {s t : List Char} {d : Char} (h : afterComment s = none)
    (hs : strip s = d :: t) : ∃ u, s = d :: u ∧ t = strip u := by
  cases s with
  | nil =>
    rw [strip_nil] at hs
    cases hs
  | cons c s =>
    rw [strip_cons h] at hs
    obtain ⟨rfl, rfl⟩ := List.cons.inj hs
    exact ⟨s, rfl, rfl⟩

/-- **No closing mark comes together** in a text that has none. -/
theorem not_closes_strip {s : List Char} (h : ¬ ['*', '/'] <:+: s) :
    ¬ ['*', '/'] <:+: strip s := by
  fun_induction strip s with
  | case1 => exact h
  | case2 c s r hr ih =>
    obtain ⟨m, -, hs⟩ := afterComment_eq_some_iff.1 hr
    exact ih fun hi => h (hi.trans (hs ▸ (List.suffix_append m r).isInfix))
  | case3 c s hn ih =>
    have hs : ¬ ['*', '/'] <:+: s := fun hi => h (hi.trans (List.suffix_cons c s).isInfix)
    rw [List.infix_cons_iff, List.cons_prefix_cons]
    rintro (⟨rfl, t, ht⟩ | hi)
    · -- A comment behind the asterisk would begin with a slash, or hold a closing mark itself.
      have hc : afterComment s = none := by
        rw [afterComment_eq_none_iff]
        intro hsc
        rcases hsc.cases with ⟨v, rfl⟩ | ⟨w, v, rfl, -, hv⟩
        · exact h ⟨[], '/' :: v, rfl⟩
        · exact hs (hv.trans ⟨w ++ ['/', '*'], [], by simp⟩)
      obtain ⟨u, rfl, -⟩ := exists_of_strip_eq_cons hc ht.symm
      exact h ⟨[], u, rfl⟩
    · exact ih hs hi

/-! ## Slashes -/

/-- A slash stands before indentation and the opening of a block comment. -/
def SlashBeforeComment (s : List Char) : Prop :=
  ∃ w, w ≠ [] ∧ (∀ c ∈ w, c ∈ indentation) ∧ '/' :: w ++ ['/', '*'] <:+: s

theorem SlashBeforeComment.of_suffix {s t : List Char} (h : SlashBeforeComment t) (ht : t <:+ s) :
    SlashBeforeComment s := by
  obtain ⟨w, hne, hw, hi⟩ := h
  exact ⟨w, hne, hw, hi.trans ht.isInfix⟩

/-- No comment starts right behind a slash that is kept. -/
theorem afterComment_eq_none_of_kept_slash {s : List Char} (h : afterComment ('/' :: s) = none)
    (hs : ¬ SlashBeforeComment ('/' :: s)) : afterComment s = none := by
  have hl : ¬ ['/', '/'] <+: '/' :: s := afterLine_eq_none_iff.1 (Option.or_eq_none_iff.1 h).2
  rw [afterComment_eq_none_iff]
  intro hsc
  rcases hsc.cases with ⟨v, rfl⟩ | ⟨w, v, rfl, hw, -⟩
  · exact hl ⟨'/' :: v, rfl⟩
  · by_cases hne : w = []
    · subst hne
      exact hl ⟨'*' :: v, rfl⟩
    · exact hs ⟨w, hne, hw, [], v, by simp⟩

/-- **What is left holds no comment**, unless the text has a slash, indentation and the opening of a
block comment. -/
theorem commentFree_strip {s : List Char} (h : ¬ SlashBeforeComment s) :
    CommentFree (strip s) := by
  fun_induction strip s with
  | case1 => exact commentFree_nil
  | case2 c s r hr ih =>
    obtain ⟨m, -, hs⟩ := afterComment_eq_some_iff.1 hr
    exact ih fun hi => h (hi.of_suffix (hs ▸ List.suffix_append m r))
  | case3 c s hn ih =>
    refine (ih fun hi => h (hi.of_suffix (List.suffix_cons c s))).cons ?_ ?_
    · rintro rfl ⟨t, ht⟩
      obtain ⟨u, rfl, -⟩ :=
        exists_of_strip_eq_cons (afterComment_eq_none_of_kept_slash hn h) ht.symm
      exact afterLine_eq_none_iff.1 (Option.or_eq_none_iff.1 hn).2 ⟨u, rfl⟩
    · rintro rfl v hv
      obtain ⟨u, rfl, rfl⟩ :=
        exists_of_strip_eq_cons (afterComment_eq_none_of_kept_slash hn h) hv
      -- The opening is kept, so no closing mark follows it.
      refine not_closes_strip fun hi => ?_
      have hb : afterBlock ('/' :: '*' :: u) = none := (Option.or_eq_none_iff.1 hn).1
      have hc : afterClose u = none := by simpa [afterBlock, isIndent] using hb
      exact afterClose_eq_none_iff.1 hc hi

end FxmlWiring.Controller.Comment

namespace FxmlWiring

open Controller Controller.Comment Text

/-- **Comments are removed once and for all.** What is left of a text that has no slash before
indentation and the opening of a block comment holds no comment, and removing comments from it
changes nothing. -/
theorem stripComments_leaves_no_comment {source : String}
    (h : ¬ SlashBeforeComment source.toList) :
    CommentFree (stripComments source).toList ∧
      stripComments (stripComments source) = stripComments source := by
  have hf : CommentFree (stripComments source).toList := by
    rw [stripComments, String.toList_ofList]
    exact commentFree_strip h
  refine ⟨hf, ?_⟩
  rw [stripComments, hf.strip_eq, String.ofList_toList]

/-- A text in which a closing mark comes together, in front of an opening that is never closed. -/
def openEnd : String :=
  "a*/**//b\n/*c//*d\n/e"

theorem openEnd_leaves_no_comment :
    ¬ SlashBeforeComment openEnd.toList ∧ stripComments openEnd = "a*/b\n/*c\n/e" ∧
      CommentFree (stripComments openEnd).toList ∧
      stripComments (stripComments openEnd) = stripComments openEnd := by
  have h : ¬ SlashBeforeComment openEnd.toList := by
    -- No slash has indentation behind it.
    have hn : ∀ d ∈ indentation, ¬ ['/', d] <:+: openEnd.toList := by
      simp only [← occursIn_iff]
      decide
    rintro ⟨_ | ⟨d, w⟩, hne, hw, u, v, hs⟩
    · exact hne rfl
    · exact hn d (hw d List.mem_cons_self) ⟨u, w ++ ['/', '*'] ++ v, by simpa using hs⟩
  exact ⟨h, by cbv, stripComments_leaves_no_comment h⟩

/-- The slash, the indentation and the comment matter: the slashes on both sides come together. -/
example : stripComments "a / /**// b" = "a // b" := by
  cbv

end FxmlWiring
