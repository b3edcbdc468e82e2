import FxmlWiring.Controller
import FxmlWiring.Proofs.Controller.Seam
import FxmlWiring.Proofs.Rule.Layout
import FxmlWiring.Proofs.Text.LineBreak
import FxmlWiring.Proofs.Text.Utf8

/-! # Line ends of a controller

Reading a controller file writes every line break as a line feed; text that is handed over is taken
as it is. Comments are the same in both (`afterComment_unifyBreaks`). What they leave is not: a
comment can stand between a carriage return and a line feed, which are then two breaks in the one
text and one in the other. But it is blanks that differ and nothing else, and so the same rules
accept. -/

namespace FxmlWiring.Text

/-- Dropping a front that reaches no break. -/
theorem dropWhile_unifyBreaks {p : Char → Bool} (hr : p '\r' = false) (hn : p '\n' = false)
    (s : List Char) : (unifyBreaks s).dropWhile p = unifyBreaks (s.dropWhile p) := by
  induction s with
  | nil => rfl
  | cons c s ih =>
    by_cases hcr : c = '\r'
    · subst hcr
      rw [dropWhile_of_stopsAt (stopsAt_cons.2 hr), dropWhile_of_stopsAt]
      intro c hc
      rw [head?_unifyBreaks_return] at hc
      rwa [← Option.some.inj hc]
    · rw [unifyBreaks_cons hcr]
      by_cases hc : p c = true
      · rw [List.dropWhile_cons, List.dropWhile_cons, if_pos hc, if_pos hc, ih]
      · rw [List.dropWhile_cons, List.dropWhile_cons, if_neg hc, if_neg hc, unifyBreaks_cons hcr]

end FxmlWiring.Text

namespace FxmlWiring.Controller.Comment

open Text

/-! ## Comments of the text with unified breaks -/

theorem afterClose_unifyBreaks (s : List Char) :
    afterClose (unifyBreaks s) = (afterClose s).map unifyBreaks := by
  fun_induction afterClose s with
  | case1 s => rfl
  | case2 c s hc ih =>
    by_cases hcr : c = '\r'
    · subst hcr
      by_cases hs : s.head? = some '\n'
      · obtain ⟨u, rfl⟩ := List.head?_eq_some_iff.1 hs
        rw [unifyBreaks_pair, ih]
      · rw [unifyBreaks_return hs, afterClose.eq_2 '\n' _ (by simp), ih]
    · -- No closing mark begins at `c`, and so none does where breaks are unified.
      have hn : ∀ t, c = '*' → unifyBreaks s = '/' :: t → False := by
        intro t hc' ht
        obtain ⟨u, hu, -⟩ := unifyBreaks_eq_cons (by decide) ht
        exact hc u hc' hu
      rw [unifyBreaks_cons hcr, afterClose.eq_2 c _ hn, ih]
  | case3 => rfl

theorem dropBreak_unifyBreaks (s : List Char) :
    dropBreak (unifyBreaks s) = unifyBreaks (dropBreak s) := by
  fun_cases dropBreak s with
  | case1 s => rfl
  | case2 c s hp hc =>
    by_cases hcr : c = '\r'
    · subst hcr
      have hs : s.head? ≠ some '\n' := by
        intro hs
        obtain ⟨u, rfl⟩ := List.head?_eq_some_iff.1 hs
        exact hp u rfl rfl
      rw [unifyBreaks_return hs]
      rfl
    · rw [unifyBreaks_cons hcr, dropBreak.eq_2 c _ fun _ h => absurd h hcr, if_pos hc]
  | case3 c s hp hc =>
    have hcr : c ≠ '\r' := by
      rintro rfl
      exact hc rfl
    rw [unifyBreaks_cons hcr, dropBreak.eq_2 c _ fun _ h => absurd h hcr, if_neg hc]
  | case4 => rfl

theorem afterBlock_unifyBreaks (s : List Char) :
    afterBlock (unifyBreaks s) = (afterBlock s).map unifyBreaks := by
  rw [afterBlock.eq_def s]
  split
  · rename_i body hd
    have hu : (unifyBreaks s).dropWhile isIndent = '/' :: '*' :: unifyBreaks body := by
      rw [dropWhile_unifyBreaks rfl rfl, hd]
      rfl
    rw [afterBlock, hu]
    simp only [afterClose_unifyBreaks, Option.map_map]
    congr 1
    funext r
    simp only [Function.comp_apply, dropWhile_unifyBreaks (p := isIndent) rfl rfl,
      dropBreak_unifyBreaks]
  · rename_i hd
    apply afterBlock_eq_none_of_not_prefix
    rw [dropWhile_unifyBreaks rfl rfl]
    rintro ⟨t, ht⟩
    obtain ⟨u, hu, htu⟩ := unifyBreaks_eq_cons (by decide) ht.symm
    obtain ⟨v, rfl, -⟩ := unifyBreaks_eq_cons (by decide) htu.symm
    exact hd v hu

theorem afterLine_unifyBreaks (s : List Char) :
    afterLine (unifyBreaks s) = (afterLine s).map unifyBreaks := by
  cases h : afterLine s with
  | some r =>
    obtain ⟨t, rfl, rfl⟩ := afterLine_eq_some_iff.1 h
    exact afterLine_eq_some_iff.2 ⟨unifyBreaks t, rfl, dropWhile_unifyBreaks rfl rfl t⟩
  | none =>
    rw [Option.map_none, afterLine_eq_none_iff]
    rintro ⟨t, ht⟩
    obtain ⟨u, rfl, htu⟩ := unifyBreaks_eq_cons (by decide) ht.symm
    obtain ⟨v, rfl, -⟩ := unifyBreaks_eq_cons (by decide) htu.symm
    exact afterLine_eq_none_iff.1 h ⟨v, rfl⟩

/-- **A comment is one also where every line break is a line feed.** -/
theorem afterComment_unifyBreaks (s : List Char) :
    afterComment (unifyBreaks s) = (afterComment s).map unifyBreaks := by
  rw [afterComment, afterComment, afterBlock_unifyBreaks, afterLine_unifyBreaks, Option.map_or]

/-! ## What is left -/

/-- The text without comments has the same layout. -/
theorem squeeze_strip_unifyBreaks (s : List Char) :
    squeeze (strip (unifyBreaks s)) = squeeze (strip s) := by
  -- The induction follows the scan of the text.
  fun_induction strip s with
  | case1 => rw [unifyBreaks_nil, strip_nil]
  | case2 c s r h ih =>
    have hu : afterComment (unifyBreaks (c :: s)) = some (unifyBreaks r) := by
      rw [afterComment_unifyBreaks, h, Option.map_some]
    rw [strip_of_afterComment hu, ih]
  | case3 c s h ih =>
    have hu : afterComment (unifyBreaks (c :: s)) = none := by
      rw [afterComment_unifyBreaks, h, Option.map_none]
    by_cases hc : c = '\r'
    · subst hc
      by_cases hs : s.head? = some '\n'
      · -- The pair is one break, and two blanks of one run.
        obtain ⟨t, rfl⟩ := List.head?_eq_some_iff.1 hs
        rw [unifyBreaks_pair, ih, strip_lineEnd (c := '\n') rfl, squeeze_cons, squeeze_cons '\r',
          squeeze_cons, joinBlank_joinBlank rfl rfl]
      · rw [unifyBreaks_return hs] at hu ⊢
        rw [strip_cons hu, squeeze_cons, squeeze_cons, ih]
        exact joinBlank_congr rfl rfl _
    · rw [unifyBreaks_cons hc] at hu ⊢
      rw [strip_cons hu, squeeze_cons, squeeze_cons, ih]

end FxmlWiring.Controller.Comment

namespace FxmlWiring

open Text Controller

/-- **The same rule accepts in a text and in what is read from a file with that text**, if the
values of the requirement hold no blanks and its type is not empty. -/
theorem acceptedBy?_of_read {s : Settings} {r : Requirement} (h : r.Unspaced s) (source : String) :
    ∃ read, readSource (Utf8.encode source.toList) = .ok read ∧
      read.toList = unifyBreaks source.toList ∧
      r.acceptedBy? s (stripComments source) = r.acceptedBy? s (stripComments read) := by
  refine ⟨.ofList (unifyBreaks source.toList), ?_, String.toList_ofList, ?_⟩
  · rw [readSource, Utf8.decode_encode]
    rfl
  · apply Requirement.acceptedBy?_eq_of_squeeze h
    rw [stripComments, stripComments, String.toList_ofList, String.toList_ofList,
      String.toList_ofList, Comment.squeeze_strip_unifyBreaks]

/-- A field with a comment between its type and its name, behind a carriage return that the file
which is read does not have. -/
theorem split_field_is_accepted_as_read :
    (Requirement.field "Button" "ok").Unspaced .standard ∧
      (Requirement.field "Button" "ok").acceptedBy? .standard
          (stripComments "@FXML Button\r// a\r\nok;") = some .annotatedField ∧
      ∃ read, readSource (Utf8.encode "@FXML Button\r// a\r\nok;".toList) = .ok read ∧
        read.toList = unifyBreaks "@FXML Button\r// a\r\nok;".toList ∧
        (Requirement.field "Button" "ok").acceptedBy? .standard
            (stripComments "@FXML Button\r// a\r\nok;") =
          (Requirement.field "Button" "ok").acceptedBy? .standard (stripComments read) := by
  have h : (Requirement.field "Button" "ok").Unspaced .standard :=
    ⟨Requirement.forall_value_field (by decide) (by decide) (by decide), by decide⟩
  have hs : stripComments "@FXML Button\r// a\r\nok;" = "@FXML Button\r\r\nok;" := by
    cbv
  refine ⟨h, ?_, acceptedBy?_of_read h _⟩
  rw [hs]
  decide +kernel

end FxmlWiring
