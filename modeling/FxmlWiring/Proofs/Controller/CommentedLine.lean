import FxmlWiring.Check
import FxmlWiring.Proofs.Controller.Seam

/-! # Lines that are commented out

A line comment ends at five characters, and only two of them end a line of a Java source. Up to the
others, next line and the two separators of Unicode, commenting out a line is the same as emptying
it; behind one of them the rest of the line is read as text. -/

namespace FxmlWiring.Controller.Comment

open Text

/-- A line comment leaves what begins at the next line end. -/
theorem strip_line {b t : List Char} (hb : ∀ c ∈ b, endsLine c = false)
    (ht : StopsAt (!endsLine ·) t) : strip ('/' :: '/' :: (b ++ t)) = strip t := by
  apply strip_of_afterComment
  have hd : (b ++ t).dropWhile (!endsLine ·) = t :=
    dropWhile_append (fun c hc => by simp [hb c hc]) ht
  have hl : afterLine ('/' :: '/' :: (b ++ t)) = some t := afterLine_eq_some_iff.2 ⟨_, rfl, hd⟩
  have hk : afterBlock ('/' :: '/' :: (b ++ t)) = none := by
    apply afterBlock_eq_none_of_not_prefix
    rw [dropWhile_of_stopsAt (stopsAt_cons.2 (by decide))]
    simp [List.cons_prefix_cons]
  rw [afterComment, hk, hl, Option.none_or]

/-- A line that is commented out is emptied exactly if no character in it ends a line comment. -/
theorem strip_commentedLine_iff {p b : List Char} (hp : p = [] ∨ p.getLast? = some '\n')
    (hc : OpeningsClosed p) (hb : '\n' ∉ b) (q : List Char) :
    strip (p ++ '/' :: '/' :: (b ++ '\n' :: q)) = strip (p ++ '\n' :: q) ↔
      ∀ c ∈ b, endsLine c = false := by
  rw [strip_append_of_lines hc hp, strip_append_of_lines hc hp, List.append_cancel_left_eq]
  constructor
  · intro h
    obtain ⟨u, hu, hl⟩ := exists_append_dropWhile (!endsLine ·) b
    have hul : ∀ c ∈ u, endsLine c = false := fun c hc => by simpa using hl c hc
    cases hd : b.dropWhile (!endsLine ·) with
    | nil =>
      rw [hu, hd, List.append_nil]
      exact hul
    | cons e v =>
      -- The rest of the line is text, and it begins otherwise than with a line feed.
      exfalso
      have he : endsLine e = true := by
        have := stopsAt_dropWhile (p := (!endsLine ·)) b
        rw [hd, stopsAt_cons] at this
        simpa using this
      rw [hd] at hu
      rw [hu, List.append_assoc, List.cons_append, strip_line hul (by simpa using he),
        strip_lineEnd he, strip_lineEnd rfl] at h
      apply hb
      rw [hu, (List.cons.inj h).1]
      simp
  · intro h
    exact strip_line h (stopsAt_cons.2 rfl)

end FxmlWiring.Controller.Comment

namespace FxmlWiring

open Controller Controller.Comment

/-- **Commenting out a line is emptying it, but for three characters.** The line stands behind whole
lines with all openings closed, and the line feed ends it. The text without comments is the same as
that of the emptied line exactly if the line holds no next line character and no separator of lines
or paragraphs; then the check has the same outcomes for both. -/
theorem commented_line_is_emptied_iff {p b : String} (hp : p = "" ∨ p.toList.getLast? = some '\n')
    (hc : OpeningsClosed p.toList) (hb : ∀ c ∈ b.toList, c ≠ '\n' ∧ c ≠ '\r') (q : String) :
    (stripComments (p ++ "//" ++ b ++ "\n" ++ q) = stripComments (p ++ "\n" ++ q) ↔
      ∀ c ∈ b.toList, c ≠ '\u0085' ∧ c ≠ '\u2028' ∧ c ≠ '\u2029') ∧
    ((∀ c ∈ b.toList, c ≠ '\u0085' ∧ c ≠ '\u2028' ∧ c ≠ '\u2029') →
      ∀ s markup,
        check s markup (p ++ "//" ++ b ++ "\n" ++ q) = check s markup (p ++ "\n" ++ q)) := by
  have hlines : p.toList = [] ∨ p.toList.getLast? = some '\n' :=
    hp.imp_left fun h => by rw [h]; rfl
  have hn : '\n' ∉ b.toList := fun h => (hb _ h).1 rfl
  have hline : (p ++ "//" ++ b ++ "\n" ++ q).toList =
      p.toList ++ '/' :: '/' :: (b.toList ++ '\n' :: q.toList) := by simp
  have hempty : (p ++ "\n" ++ q).toList = p.toList ++ '\n' :: q.toList := by simp
  have hends : (∀ c ∈ b.toList, endsLine c = false) ↔
      ∀ c ∈ b.toList, c ≠ '\u0085' ∧ c ≠ '\u2028' ∧ c ≠ '\u2029' := by
    refine forall₂_congr fun c hc => ?_
    obtain ⟨hn, hr⟩ := hb c hc
    simp [endsLine, hn, hr, and_assoc]
  have hiff : stripComments (p ++ "//" ++ b ++ "\n" ++ q) = stripComments (p ++ "\n" ++ q) ↔
      ∀ c ∈ b.toList, c ≠ '\u0085' ∧ c ≠ '\u2028' ∧ c ≠ '\u2029' := by
    rw [stripComments, stripComments, String.ofList_inj, hline, hempty,
      strip_commentedLine_iff hlines hc hn, hends]
  refine ⟨hiff, fun h s markup => ?_⟩
  rw [check, check, hiff.2 h]

/-- A declaration that is commented out, behind a comment, is emptied; the opening at its end does
not reach the closing mark of the next line. -/
theorem commented_declaration_is_emptied :
    OpeningsClosed "/* a */\n".toList ∧
      (∀ c ∈ " @FXML Button ok; /*".toList, c ≠ '\n' ∧ c ≠ '\r') ∧
      stripComments ("/* a */\n" ++ "//" ++ " @FXML Button ok; /*" ++ "\n" ++ "*/ int b;") =
        stripComments ("/* a */\n" ++ "\n" ++ "*/ int b;") := by
  have hc : OpeningsClosed "/* a */\n".toList := .comment (r := []) (by decide) .nil
  have hb : ∀ c ∈ " @FXML Button ok; /*".toList, c ≠ '\n' ∧ c ≠ '\r' := by decide
  refine ⟨hc, hb, ?_⟩
  exact (commented_line_is_emptied_iff (Or.inr (by decide)) hc hb _).1.2 (by decide)

/-- A declaration behind a line separator, in a line that is commented out. -/
def separatedLine : String :=
  "\u2028@FXML Button ok;"

/-- **A declaration in a line that is commented out can be accepted**, while none is in the emptied
line. -/
theorem commented_declaration_is_accepted :
    OpeningsClosed "".toList ∧ (∀ c ∈ separatedLine.toList, c ≠ '\n' ∧ c ≠ '\r') ∧
      stripComments ("" ++ "//" ++ separatedLine ++ "\n" ++ "") ≠ stripComments ("" ++ "\n" ++ "") ∧
      (Requirement.field "Button" "ok").acceptedBy? .standard
        (stripComments ("" ++ "//" ++ separatedLine ++ "\n" ++ "")) = some .annotatedField ∧
      (Requirement.field "Button" "ok").acceptedBy? .standard (stripComments ("" ++ "\n" ++ "")) =
        none := by
  have hcommented : stripComments ("" ++ "//" ++ separatedLine ++ "\n" ++ "") =
      separatedLine ++ "\n" := by
    cbv
  have hemptied : stripComments ("" ++ "\n" ++ "") = "\n" := by
    cbv
  rw [hcommented, hemptied]
  exact ⟨.nil, by decide, by decide, by decide +kernel, by decide +kernel⟩

end FxmlWiring
