import FxmlWiring.Proofs.Text.LineBreak

/-! # Lines and positions

A text has one **line** more than it has line breaks (`length_lines`). The end of a part from its
front is a position in it: on one of the lines, and not behind the end of that line
(`Position.isIn_ofEnd`). -/

namespace FxmlWiring.Text

/-! ## Lines -/

/-- The lines of a text, without the breaks between them. -/
def lines (s : List Char) : List (List Char) :=
  (unifyBreaks s).splitOn '\n'

/-- The number of line breaks of a text. A carriage return and the line feed after it are one. -/
def breakCount (s : List Char) : Nat :=
  (unifyBreaks s).count '\n'

/-- A text is one part longer than it has separators. -/
theorem length_splitOn (x : Char) (s : List Char) : (s.splitOn x).length = s.count x + 1 := by
  induction s with
  | nil => rfl
  | cons c s ih =>
    rw [List.splitOn_cons_eq_if_modifyHead, List.count_cons]
    split
    · rw [List.length_cons, ih]
    · rw [List.length_modifyHead, ih, Nat.add_zero]

/-- No part has the separator in it. -/
theorem not_mem_of_mem_splitOn {x : Char} {s part : List Char} (h : part ∈ s.splitOn x) :
    x ∉ part := by
  induction s generalizing part with
  | nil =>
    obtain rfl := List.mem_singleton.1 h
    exact List.not_mem_nil
  | cons c s ih =>
    rw [List.splitOn_cons_eq_if_modifyHead] at h
    split at h
    · rcases List.mem_cons.1 h with rfl | h
      · exact List.not_mem_nil
      · exact ih h
    · -- The character goes in front of the first part.
      rename_i hc
      obtain ⟨first, parts, hs⟩ := List.exists_cons_of_ne_nil (List.splitOn_ne_nil x s)
      rw [hs, List.modifyHead_cons] at h
      rcases List.mem_cons.1 h with rfl | h
      · have hfirst : x ∉ first := ih (hs ▸ List.mem_cons_self)
        rw [List.mem_cons, not_or]
        exact ⟨fun hx => hc (beq_iff_eq.2 hx.symm), hfirst⟩
      · exact ih (hs ▸ List.mem_cons_of_mem _ h)

/-- **A text has one line more than it has breaks.** -/
theorem length_lines (s : List Char) : (lines s).length = breakCount s + 1 :=
  length_splitOn '\n' (unifyBreaks s)

theorem lines_feed (s : List Char) : lines ('\n' :: s) = [] :: lines s := by
  rw [lines, unifyBreaks_cons (by decide), List.splitOn_cons_eq_if_modifyHead]
  rfl

theorem lines_pair (s : List Char) : lines ('\r' :: '\n' :: s) = [] :: lines s := by
  rw [lines, unifyBreaks_pair]
  exact lines_feed s

theorem lines_return {s : List Char} (hs : s.head? ≠ some '\n') :
    lines ('\r' :: s) = [] :: lines s := by
  rw [lines, unifyBreaks_return hs, List.splitOn_cons_eq_if_modifyHead]
  rfl

/-- A character that is no break belongs to the first line. -/
theorem lines_cons {c : Char} (hr : c ≠ '\r') (hn : c ≠ '\n') (s : List Char) :
    lines (c :: s) = (lines s).modifyHead (c :: ·) := by
  rw [lines, unifyBreaks_cons hr, List.splitOn_cons_eq_if_modifyHead, if_neg (by simpa using hn)]
  rfl

/-! ## Positions -/

namespace Position

/-- The position is one of the text: on one of its lines, and not behind the end of that line. -/
structure IsIn (p : Position) (text : List Char) : Prop where
  line_pos : 1 ≤ p.line
  line_le : p.line ≤ breakCount text + 1
  column_le : ∃ l, (lines text)[p.line - 1]? = some l ∧ p.column ≤ l.length

/-- From a position at the front of a text, one comes to another one in it: the line does not get
less, and the column is in its line, which goes on from what was there before on the first one. -/
def Reaches (p q : Position) (text : List Char) : Prop :=
  p.line ≤ q.line ∧ ∃ l, (lines text)[q.line - p.line]? = some l ∧
    q.column ≤ l.length + if q.line = p.line then p.column else 0

/-- A position is reached from itself. -/
theorem reaches_self (p : Position) (text : List Char) : p.Reaches p text := by
  refine ⟨Nat.le_refl _, ?_⟩
  rw [Nat.sub_self, if_pos rfl]
  cases h : lines text with
  | nil => exact absurd h (List.splitOn_ne_nil _ _)
  | cons l ls => exact ⟨l, rfl, Nat.le_add_left _ _⟩

/-- Behind a break, one goes on from the start of the next line. -/
theorem Reaches.of_break {p q : Position} {text rest : List Char}
    (hl : lines text = [] :: lines rest) (h : Reaches ⟨p.line + 1, 0⟩ q rest) :
    p.Reaches q text := by
  obtain ⟨hline, l, hget, hcolumn⟩ := h
  dsimp only at hline hget hcolumn
  have hindex : q.line - p.line = q.line - (p.line + 1) + 1 := by omega
  refine ⟨by omega, l, ?_, ?_⟩
  · rw [hl, hindex, List.getElem?_cons_succ, hget]
  · rw [ite_self] at hcolumn
    exact Nat.le_trans hcolumn (Nat.le_add_right _ _)

/-- Behind any other character, one goes on in the same line. -/
theorem Reaches.of_cons {p q : Position} {c : Char} (hr : c ≠ '\r') (hn : c ≠ '\n')
    {rest : List Char} (h : Reaches ⟨p.line, p.column + 1⟩ q rest) : p.Reaches q (c :: rest) := by
  obtain ⟨hline, l, hget, hcolumn⟩ := h
  dsimp only at hline hget hcolumn
  refine ⟨hline, ?_⟩
  rw [lines_cons hr hn, List.getElem?_modifyHead, hget]
  by_cases hq : q.line = p.line
  · rw [if_pos hq] at hcolumn ⊢
    rw [if_pos (by omega)]
    refine ⟨c :: l, rfl, ?_⟩
    rw [List.length_cons]
    omega
  · rw [if_neg hq] at hcolumn ⊢
    rw [if_neg (by omega)]
    exact ⟨l, rfl, hcolumn⟩

/-- **Any part from the front of a text leads to a position in it.** -/
theorem reaches_after (p : Position) (s rest : List Char) : p.Reaches (p.after s) (s ++ rest) := by
  fun_induction Position.after p s with
  | case1 p s ih => exact ih.of_break (lines_pair _)
  | case2 p c s hp hc ih =>
    obtain rfl | rfl := hc
    · exact ih.of_break (lines_feed _)
    · by_cases hs : (s ++ rest).head? = some '\n'
      · -- The part ends within a pair, which is one break.
        cases s with
        | cons d s =>
          obtain rfl := Option.some.inj hs
          exact absurd rfl (hp s rfl)
        | nil =>
          obtain ⟨t, ht⟩ := List.head?_eq_some_iff.1 hs
          rw [List.nil_append] at ht
          subst ht
          exact (reaches_self _ t).of_break (lines_pair t)
      · exact ih.of_break (lines_return hs)
  | case3 p c s hp hc ih =>
    rw [not_or] at hc
    exact ih.of_cons hc.2 hc.1
  | case4 p => exact reaches_self p rest

/-- **The end of a part from the front of a text is a position of the text.** -/
theorem isIn_ofEnd (before rest : List Char) : (ofEnd before).IsIn (before ++ rest) := by
  obtain ⟨hline, l, hl, hcolumn⟩ := reaches_after start before rest
  have hlt : (ofEnd before).line - 1 < (lines (before ++ rest)).length :=
    (List.getElem?_eq_some_iff.1 hl).1
  rw [length_lines] at hlt
  have hstart : start.column = 0 := rfl
  rw [hstart, ite_self] at hcolumn
  exact ⟨hline, by omega, l, hl, hcolumn⟩

end Position

end FxmlWiring.Text
