import FxmlWiring.Proofs.Controller.Comment
import Mathlib.Data.List.DropRight

/-! # Comments in a text that goes on

What is a comment in a text can change with what follows the text: an opening may be closed later
on, a line comment may be longer, and a block comment takes indentation and a line break that come
after it. `OpeningsClosed` and `EndsInLineComment` say how a text leaves the scan.

If all openings are closed and no line comment is at work, only the end of the text is open. The
scan is then in one of two places, `exists_seam`: in kept text, of which only the indentation at the
end may still go to a comment, or behind a block comment that may take more. -/

namespace FxmlWiring.Controller.Comment

open Text

/-! ## How a text leaves the scan -/

/-- Every `/*` that the scan of the text meets outside a comment is closed. -/
inductive OpeningsClosed : List Char → Prop
  | nil : OpeningsClosed []
  | comment {s r : List Char} (h : afterComment s = some r) (hr : OpeningsClosed r) :
      OpeningsClosed s
  | keep {c : Char} {s : List Char} (h : afterComment (c :: s) = none)
      (ho : ¬ ['/', '*'] <+: c :: s) (hs : OpeningsClosed s) : OpeningsClosed (c :: s)

/-- The scan of the text comes to a line comment that runs up to the end. -/
inductive EndsInLineComment : List Char → Prop
  | here {s : List Char} (h : afterLine s = some []) : EndsInLineComment s
  | comment {s r : List Char} (h : afterComment s = some r) (hr : EndsInLineComment r) :
      EndsInLineComment s
  | keep {c : Char} {s : List Char} (h : afterComment (c :: s) = none)
      (hs : EndsInLineComment s) : EndsInLineComment (c :: s)

/-- The scan of the text ends outside any comment. -/
structure EndsOutside (s : List Char) : Prop where
  closed : OpeningsClosed s
  not_line : ¬ EndsInLineComment s

/-! ## The marks of comments -/

/-- A mark at the front of a text that goes on stands there already, or is cut in two. -/
theorem pair_prefix_append {a b : Char} {s t : List Char} (h : [a, b] <+: s ++ t) :
    s = [] ∨ s = [a] ∨ [a, b] <+: s := by
  match s with
  | [] => exact Or.inl rfl
  | [c] =>
    rw [List.singleton_append, List.cons_prefix_cons] at h
    exact Or.inr (Or.inl (by rw [h.1]))
  | c :: d :: u =>
    rw [List.cons_append, List.cons_append, List.cons_prefix_cons, List.cons_prefix_cons] at h
    exact Or.inr (Or.inr ⟨u, by rw [h.1, h.2.1]; rfl⟩)

theorem afterLine_eq_some_iff {s r : List Char} :
    afterLine s = some r ↔ ∃ t, s = '/' :: '/' :: t ∧ t.dropWhile (!endsLine ·) = r := by
  rw [afterLine.eq_def]
  split
  · rename_i t
    constructor
    · intro h
      exact ⟨t, rfl, Option.some.inj h⟩
    · rintro ⟨u, hu, rfl⟩
      obtain rfl : t = u := (List.cons.inj (List.cons.inj hu).2).2
      rfl
  · rename_i hn
    constructor
    · intro h
      cases h
    · rintro ⟨u, rfl, -⟩
      exact absurd rfl (hn u)

theorem afterLine_eq_none_iff {s : List Char} : afterLine s = none ↔ ¬ ['/', '/'] <+: s := by
  rw [Option.eq_none_iff_forall_ne_some]
  constructor
  · rintro h ⟨t, rfl⟩
    exact h _ (afterLine_eq_some_iff.2 ⟨t, rfl, rfl⟩)
  · rintro h r hr
    obtain ⟨t, rfl, -⟩ := afterLine_eq_some_iff.1 hr
    exact h ⟨t, rfl⟩

theorem afterBlock_eq_none_of_not_prefix {s : List Char}
    (h : ¬ ['/', '*'] <+: s.dropWhile isIndent) : afterBlock s = none := by
  rw [afterBlock]
  split
  · rename_i body hd
    exact absurd ⟨body, hd.symm⟩ h
  · rfl

/-! ## Text without comments -/

theorem afterComment_eq_none_of_not_mem {s : List Char} (h : '/' ∉ s) : afterComment s = none := by
  rw [afterComment_eq_none_iff]
  rintro ⟨m, rest, hm, rfl⟩
  cases hm <;> simp at h

/-- A text without a slash ends outside any comment. -/
theorem endsOutside_of_not_mem {s : List Char} (h : '/' ∉ s) : EndsOutside s := by
  induction s with
  | nil =>
    refine ⟨.nil, ?_⟩
    rintro (h | ⟨h, -⟩)
    · cases h
    · cases h
  | cons c s ih =>
    have hn := afterComment_eq_none_of_not_mem h
    rw [List.mem_cons, not_or] at h
    obtain ⟨hc, hl⟩ := ih h.2
    refine ⟨.keep hn (fun hp => h.1 (List.cons_prefix_cons.1 hp).1) hc, ?_⟩
    intro he
    cases he with
    | here h' => rw [afterComment, h', Option.or_some] at hn; cases hn
    | comment h' => rw [hn] at h'; cases h'
    | keep _ hs => exact hl hs

theorem strip_of_not_mem {s : List Char} (h : '/' ∉ s) : strip s = s := by
  induction s with
  | nil => rw [strip_nil]
  | cons c s ih =>
    rw [strip_cons (afterComment_eq_none_of_not_mem h), ih fun hs => h (List.mem_cons_of_mem c hs)]

theorem slash_not_mem_of_isIndent {w : List Char} (hw : ∀ c ∈ w, isIndent c = true) : '/' ∉ w := by
  intro h
  exact absurd (hw _ h) (by decide)

/-! ## Indentation -/

/-- A block comment takes the indentation before it. -/
theorem afterBlock_append {w : List Char} (hw : ∀ c ∈ w, isIndent c = true) (s : List Char) :
    afterBlock (w ++ s) = afterBlock s := by
  rw [afterBlock, afterBlock, List.dropWhile_append_of_pos hw]

theorem ne_slash_of_isIndent {c : Char} (hc : isIndent c = true) : c ≠ '/' := by
  rintro rfl
  exact absurd hc (by decide)

/-- Indentation that no block comment takes is kept. -/
theorem strip_indent_append {w s : List Char} (hw : ∀ c ∈ w, isIndent c = true)
    (hs : afterBlock s = none) : strip (w ++ s) = w ++ strip s := by
  induction w with
  | nil => rfl
  | cons c w ih =>
    have hb : afterBlock (c :: w ++ s) = none := by rw [afterBlock_append hw, hs]
    rw [List.forall_mem_cons] at hw
    have hl : afterLine (c :: (w ++ s)) = none :=
      afterLine_eq_none_iff.2 fun h =>
        ne_slash_of_isIndent hw.1 (List.cons_prefix_cons.1 h).1.symm
    have hn : afterComment (c :: (w ++ s)) = none := by
      rw [afterComment, hl, Option.or_none]
      exact hb
    rw [List.cons_append, strip_cons hn, ih hw.2, List.cons_append]

/-- A character that begins no comment, whatever follows it. -/
theorem afterComment_cons_of_plain {c : Char} (hi : isIndent c = false) (hc : c ≠ '/')
    (s : List Char) : afterComment (c :: s) = none := by
  have hb : afterBlock (c :: s) = none := by
    apply afterBlock_eq_none_of_not_prefix
    rw [dropWhile_of_stopsAt (stopsAt_cons.2 hi)]
    exact fun h => hc (List.cons_prefix_cons.1 h).1.symm
  have hl : afterLine (c :: s) = none :=
    afterLine_eq_none_iff.2 fun h => hc (List.cons_prefix_cons.1 h).1.symm
  rw [afterComment, hb, hl, Option.or_none]

theorem isIndent_of_endsLine {c : Char} (h : endsLine c = true) : isIndent c = false := by
  simp only [endsLine, Bool.or_eq_true, decide_eq_true_eq] at h
  rcases h with (((rfl | rfl) | rfl) | rfl) | rfl <;> decide

theorem ne_slash_of_endsLine {c : Char} (h : endsLine c = true) : c ≠ '/' := by
  rintro rfl
  exact absurd h (by decide)

/-- The end of a line is kept. -/
theorem strip_lineEnd {c : Char} (hc : endsLine c = true) (s : List Char) :
    strip (c :: s) = c :: strip s :=
  strip_cons (afterComment_cons_of_plain (isIndent_of_endsLine hc) (ne_slash_of_endsLine hc) s)

/-! ## Comments in front of more text -/

theorem IsLeadingBreak.append {b rest : List Char} (h : IsLeadingBreak b rest) (hne : rest ≠ [])
    (t : List Char) : IsLeadingBreak b (rest ++ t) := by
  cases h with
  | pair => exact .pair _
  | single hc hp => exact .single hc (by rwa [List.head?_append_of_ne_nil _ hne])
  | absent h => exact .absent (by rwa [List.head?_append_of_ne_nil _ hne])

/-- A comment with text behind it stays the same if the text goes on. -/
theorem IsComment.append {m rest : List Char} (h : IsComment m rest) (hne : rest ≠ [])
    (t : List Char) : IsComment m (rest ++ t) := by
  cases h with
  | @block indent body trail lineBreak _ hi hb ht hs hl =>
    refine .block hi hb ht ?_ (hl.append hne t)
    rwa [← List.append_assoc,
      List.head?_append_of_ne_nil _ (List.append_ne_nil_of_right_ne_nil lineBreak hne)]
  | line hb hs => exact .line hb (by rwa [List.head?_append_of_ne_nil _ hne])

theorem afterComment_append_of_ne_nil {s r : List Char} (h : afterComment s = some r)
    (hne : r ≠ []) (t : List Char) : afterComment (s ++ t) = some (r ++ t) := by
  obtain ⟨m, hm, rfl⟩ := afterComment_eq_some_iff.1 h
  rw [List.append_assoc]
  exact afterComment_append (hm.append hne t)

/-- A block comment of a text, closed by the slash before `v`, takes its share of what follows. -/
theorem exists_trail_of_afterBlock {s r : List Char} (h : afterBlock s = some r) :
    ∃ v, '/' :: v <:+ s ∧ r = dropBreak (v.dropWhile isIndent) ∧
      ∀ t, afterBlock (s ++ t) = some (dropBreak ((v ++ t).dropWhile isIndent)) := by
  rw [afterBlock] at h
  split at h
  · rename_i body hd
    obtain ⟨v, hv, rfl⟩ := Option.map_eq_some_iff.1 h
    obtain ⟨b, rfl, hb⟩ := afterClose_eq_some_iff.1 hv
    obtain ⟨w, hs, hw⟩ := exists_append_dropWhile isIndent s
    rw [hd] at hs
    refine ⟨v, ⟨w ++ '/' :: '*' :: (b ++ ['*']), by simp [hs]⟩, rfl, fun t => ?_⟩
    have hc : afterClose (b ++ '*' :: '/' :: (v ++ t)) = some (v ++ t) :=
      afterClose_eq_some_iff.2 ⟨b, rfl, hb⟩
    have hst : s ++ t = w ++ '/' :: '*' :: (b ++ '*' :: '/' :: (v ++ t)) := by simp [hs]
    rw [hst, afterBlock_append hw, afterBlock, dropWhile_of_stopsAt (stopsAt_cons.2 rfl)]
    simp only [hc, Option.map_some]
  · cases h

/-- Where no comment starts and none can start, none starts if the text goes on. -/
theorem afterComment_append_eq_none {s : List Char} (h : afterComment s = none)
    (ho : ¬ ['/', '*'] <+: s.dropWhile isIndent) (hd : s.dropWhile isIndent ≠ [])
    (hs : s.dropWhile isIndent ≠ ['/']) (t : List Char) : afterComment (s ++ t) = none := by
  rw [afterComment, Option.or_eq_none_iff] at h ⊢
  constructor
  · apply afterBlock_eq_none_of_not_prefix
    rw [List.dropWhile_append, if_neg (by simpa using hd)]
    intro hp
    rcases pair_prefix_append hp with hp | hp | hp
    · exact hd hp
    · exact hs hp
    · exact ho hp
  · rw [afterLine_eq_none_iff]
    intro hp
    rcases pair_prefix_append hp with rfl | rfl | hp
    · exact hd rfl
    · exact hs rfl
    · exact afterLine_eq_none_iff.1 h.2 hp

/-! ## The end of a text -/

/-- Past the indentation of a place where no comment starts there is no opening. -/
theorem OpeningsClosed.not_opening {s : List Char} (h : OpeningsClosed s)
    (hn : afterComment s = none) : ¬ ['/', '*'] <+: s.dropWhile isIndent := by
  induction h with
  | nil => simp
  | comment h => rw [hn] at h; cases h
  | @keep c s _ ho hs ih =>
    by_cases hc : isIndent c = true
    · rw [List.dropWhile_cons, if_pos hc]
      have hb : afterBlock s = none := by
        rw [afterComment, Option.or_eq_none_iff] at hn
        rw [← afterBlock_append (w := [c]) (by simpa using hc) s]
        exact hn.1
      cases hl : afterLine s with
      | none => exact ih (by rw [afterComment, hb, hl, Option.or_none])
      | some r =>
        -- What starts behind the indentation is a line comment.
        obtain ⟨t, rfl, -⟩ := afterLine_eq_some_iff.1 hl
        rw [dropWhile_of_stopsAt (stopsAt_cons.2 (by decide))]
        intro h
        simp [List.cons_prefix_cons] at h
    · rw [List.dropWhile_cons, if_neg hc]
      exact ho

/-- A text with more than indentation leaves more than indentation, if its scan ends outside of line
comments and no block comment starts in front of it. -/
theorem exists_mem_strip {s : List Char} (hb : afterBlock s = none) (hl : ¬ EndsInLineComment s)
    (hx : ∃ c ∈ s, isIndent c = false) : ∃ c ∈ strip s, isIndent c = false := by
  induction s with
  | nil => simp at hx
  | cons c s ih =>
    by_cases hc : isIndent c = true
    · have hn : afterComment (c :: s) = none := by
        have : afterLine (c :: s) = none := afterLine_eq_none_iff.2 fun h =>
          ne_slash_of_isIndent hc (List.cons_prefix_cons.1 h).1.symm
        rw [afterComment, hb, this, Option.or_none]
      have hbs : afterBlock s = none := by
        rw [← afterBlock_append (w := [c]) (by simpa using hc) s]
        exact hb
      have hxs : ∃ d ∈ s, isIndent d = false := by
        obtain ⟨d, hd, hdi⟩ := hx
        rcases List.mem_cons.1 hd with rfl | hd
        · rw [hc] at hdi; cases hdi
        · exact ⟨d, hd, hdi⟩
      obtain ⟨d, hd, hdi⟩ := ih hbs (fun h => hl (.keep hn h)) hxs
      rw [strip_cons hn]
      exact ⟨d, List.mem_cons_of_mem c hd, hdi⟩
    · rw [Bool.not_eq_true] at hc
      cases hla : afterLine (c :: s) with
      | none =>
        rw [strip_cons (by rw [afterComment, hb, hla, Option.or_none])]
        exact ⟨c, List.mem_cons_self, hc⟩
      | some r =>
        -- The line comment leaves the end of its line.
        have ha : afterComment (c :: s) = some r := by rw [afterComment, hb, hla, Option.none_or]
        obtain ⟨t, -, ht⟩ := afterLine_eq_some_iff.1 hla
        have hstop : StopsAt (!endsLine ·) r := ht ▸ stopsAt_dropWhile t
        cases r with
        | nil => exact absurd (.here hla) hl
        | cons e r =>
          rw [stopsAt_cons, Bool.not_eq_false'] at hstop
          rw [strip_of_afterComment ha, strip_cons (afterComment_cons_of_plain
            (isIndent_of_endsLine hstop) (ne_slash_of_endsLine hstop) r)]
          exact ⟨e, List.mem_cons_self, isIndent_of_endsLine hstop⟩

/-! ## Where the scan is at the end -/

/-- The scan ends in kept text: `x` is kept, whatever follows, and the indentation `w` behind it is
kept unless a comment takes it. -/
structure LeavesIndent (p x w : List Char) : Prop where
  isSuffix : w <:+ p
  isIndent : ∀ c ∈ w, isIndent c = true
  strip_append : ∀ t, strip (p ++ t) = x ++ strip (w ++ t)

/-- The scan ends behind the slash that closes a block comment, in the indentation and the line
break `v` that go with it: `x` is kept, and the comment may take more. -/
structure LeavesTrail (p x v : List Char) : Prop where
  isSuffix : '/' :: v <:+ p
  dropBreak_eq : dropBreak (v.dropWhile isIndent) = []
  strip_append : ∀ t, strip (p ++ t) = x ++ strip (dropBreak ((v ++ t).dropWhile isIndent))

theorem LeavesIndent.strip_eq {p x w : List Char} (h : LeavesIndent p x w) : strip p = x ++ w := by
  have hs := h.strip_append []
  rwa [List.append_nil, List.append_nil,
    strip_of_not_mem (slash_not_mem_of_isIndent h.isIndent)] at hs

theorem LeavesTrail.strip_eq {p x v : List Char} (h : LeavesTrail p x v) : strip p = x := by
  have hs := h.strip_append []
  rwa [List.append_nil, List.append_nil, h.dropBreak_eq, strip_nil, List.append_nil] at hs

/-- A text that is scanned up to its end `r` leaves the scan as `r` does. -/
theorem LeavesIndent.extend {p r u x w : List Char} (h : LeavesIndent r x w) (hr : r <:+ p)
    (hs : ∀ t, strip (p ++ t) = u ++ strip (r ++ t)) : LeavesIndent p (u ++ x) w := by
  refine ⟨h.isSuffix.trans hr, h.isIndent, fun t => ?_⟩
  rw [hs, h.strip_append, List.append_assoc]

theorem LeavesTrail.extend {p r u x v : List Char} (h : LeavesTrail r x v) (hr : r <:+ p)
    (hs : ∀ t, strip (p ++ t) = u ++ strip (r ++ t)) : LeavesTrail p (u ++ x) v := by
  refine ⟨h.isSuffix.trans hr, h.dropBreak_eq, fun t => ?_⟩
  rw [hs, h.strip_append, List.append_assoc]

/-- A text that leaves only indentation holds no more, as it starts with no block comment. -/
theorem forall_isIndent_of_seam {s : List Char} (hb : afterBlock s = none)
    (hl : ¬ EndsInLineComment s) (h : (∃ w, LeavesIndent s [] w) ∨ ∃ v, LeavesTrail s [] v) :
    ∀ c ∈ s, isIndent c = true := by
  by_contra hx
  push Not at hx
  obtain ⟨d, hd, hdi⟩ := exists_mem_strip hb hl (by simpa using hx)
  rcases h with ⟨w, hw⟩ | ⟨v, hv⟩
  · rw [hw.strip_eq, List.nil_append] at hd
    rw [hw.isIndent d hd] at hdi
    cases hdi
  · rw [hv.strip_eq] at hd
    cases hd

/-- **The scan of a text that ends outside any comment is in kept text or behind a block comment.**
What it keeps for good does not end in indentation. -/
theorem exists_seam {p : List Char} (hp : EndsOutside p) (hs : p.getLast? ≠ some '/') :
    ∃ x, x.rdropWhile isIndent = x ∧ ((∃ w, LeavesIndent p x w) ∨ ∃ v, LeavesTrail p x v) := by
  obtain ⟨hc, hl⟩ := hp
  -- The induction follows the scan.
  induction hc with
  | nil => exact ⟨[], rfl, Or.inl ⟨[], List.suffix_rfl, by simp, fun t => rfl⟩⟩
  | @comment p r h _ ih =>
    by_cases hr : r = []
    · -- A block comment ends the text; it goes on taking.
      subst hr
      have hb : afterBlock p = some [] := by
        rcases Option.or_eq_some_iff.1 h with hb | ⟨-, hline⟩
        · exact hb
        · exact absurd (.here hline) hl
      obtain ⟨v, hv, hd, ht⟩ := exists_trail_of_afterBlock hb
      refine ⟨[], rfl, Or.inr ⟨v, hv, hd.symm, fun t => ?_⟩⟩
      rw [List.nil_append]
      exact strip_of_afterComment (by rw [afterComment, ht, Option.some_or])
    · obtain ⟨m, -, hm⟩ := afterComment_eq_some_iff.1 h
      have hsuf : r <:+ p := ⟨m, hm.symm⟩
      have hlast : r.getLast? ≠ some '/' := by
        rwa [hm, List.getLast?_append_of_ne_nil _ hr] at hs
      have hstep (t : List Char) : strip (p ++ t) = [] ++ strip (r ++ t) :=
        strip_of_afterComment (afterComment_append_of_ne_nil h hr t)
      obtain ⟨x, hx, ⟨w, hw⟩ | ⟨v, hv⟩⟩ := ih hlast fun he => hl (.comment h he)
      · exact ⟨x, hx, Or.inl ⟨w, hw.extend hsuf hstep⟩⟩
      · exact ⟨x, hx, Or.inr ⟨v, hv.extend hsuf hstep⟩⟩
  | @keep c s h ho hcl ih =>
    by_cases hall : ∀ d ∈ c :: s, isIndent d = true
    · exact ⟨[], rfl, Or.inl ⟨c :: s, List.suffix_rfl, hall, fun t => rfl⟩⟩
    · have hls : ¬ EndsInLineComment s := fun he => hl (.keep h he)
      have hlast : s.getLast? ≠ some '/' := by
        by_cases hn : s = []
        · simp [hn]
        · rwa [List.getLast?_cons_of_ne_nil hn] at hs
      have hstep (t : List Char) : strip (c :: s ++ t) = [c] ++ strip (s ++ t) := by
        have hno := (OpeningsClosed.keep h ho hcl).not_opening h
        refine strip_cons (afterComment_append_eq_none h hno ?_ ?_ t)
        · intro hd
          exact hall (by simpa using hd)
        · intro hd
          obtain ⟨w, hw, -⟩ := exists_append_dropWhile isIndent (c :: s)
          rw [hd] at hw
          rw [hw] at hs
          simp at hs
      obtain ⟨x, hx, hseam⟩ := ih hlast hls
      refine ⟨[c] ++ x, ?_, hseam.imp
        (Exists.imp fun w hw => hw.extend (List.suffix_cons c s) hstep)
        (Exists.imp fun v hv => hv.extend (List.suffix_cons c s) hstep)⟩
      rw [List.rdropWhile_eq_self_iff] at hx ⊢
      by_cases hxn : x = []
      · subst hxn
        intro _ hci
        refine hall (List.forall_mem_cons.2 ⟨hci, forall_isIndent_of_seam ?_ hls hseam⟩)
        rw [← afterBlock_append (w := [c]) (by simpa using hci) s]
        exact (Option.or_eq_none_iff.1 h).1
      · intro hne
        rw [List.getLast_append_of_ne_nil _ hxn]
        exact hx hxn

/-! ## What follows a text -/

/-- What is behind the indentation of a trail, if anything, is a line break. -/
theorem LeavesTrail.isLeadingBreak {p x v : List Char} (h : LeavesTrail p x v) :
    IsLeadingBreak (v.dropWhile isIndent) [] := by
  obtain ⟨b, hb, he⟩ := dropBreak_eq_iff.1 h.dropBreak_eq
  rwa [he, List.append_nil]

/-- A line break in front of a text is dropped, unless the text makes a pair of it. -/
theorem IsLeadingBreak.dropBreak_append {b : List Char} (h : IsLeadingBreak b []) (t : List Char) :
    b = [] ∨ dropBreak (b ++ t) = t ∨
      b = ['\r'] ∧ ∃ u, t = '\n' :: u ∧ dropBreak (b ++ t) = u := by
  cases h with
  | pair => exact Or.inr (Or.inl rfl)
  | @single c _ hc hp =>
    by_cases hpair : c = '\r' ∧ t.head? = some '\n'
    · obtain ⟨rfl, ht⟩ := hpair
      obtain ⟨u, rfl⟩ := List.head?_eq_some_iff.1 ht
      exact Or.inr (Or.inr ⟨rfl, u, rfl, rfl⟩)
    · refine Or.inr (Or.inl (dropBreak_eq_iff.2 ⟨[c], .single hc ?_, rfl⟩))
      exact fun hr ht => hpair ⟨hr, ht⟩
  | absent => exact Or.inl rfl

/-- A line comment ends in a character that ends no line. -/
theorem EndsInLineComment.exists_getLast? {s : List Char} (h : EndsInLineComment s) :
    ∃ c, s.getLast? = some c ∧ endsLine c = false := by
  induction h with
  | @here s h =>
    obtain ⟨t, rfl, ht⟩ := afterLine_eq_some_iff.1 h
    by_cases hn : t = []
    · exact ⟨'/', by simp [hn], by decide⟩
    · have hl := List.dropWhile_eq_nil_iff.1 ht _ (List.getLast_mem hn)
      refine ⟨t.getLast hn, ?_, by simpa using hl⟩
      rw [List.getLast?_cons_of_ne_nil (List.cons_ne_nil '/' t), List.getLast?_cons_of_ne_nil hn,
        List.getLast?_eq_some_getLast hn]
  | comment h _ ih =>
    obtain ⟨m, -, rfl⟩ := afterComment_eq_some_iff.1 h
    obtain ⟨c, hc, hl⟩ := ih
    exact ⟨c, by rw [List.getLast?_append, hc, Option.some_or], hl⟩
  | @keep c s _ _ ih =>
    obtain ⟨d, hd, hl⟩ := ih
    exact ⟨d, by rw [← List.singleton_append, List.getLast?_append, hd, Option.some_or], hl⟩

/-- A text that ends a line ends outside of line comments. -/
theorem OpeningsClosed.endsOutside {s : List Char} (h : OpeningsClosed s)
    (hl : s.getLast? = some '\n') : EndsOutside s := by
  refine ⟨h, fun he => ?_⟩
  obtain ⟨c, hc, hn⟩ := he.exists_getLast?
  obtain rfl : '\n' = c := Option.some.inj (hl.symm.trans hc)
  cases hn

/-- **Behind whole lines with all openings closed the scan starts anew.** -/
theorem strip_append_of_lines {p : List Char} (hc : OpeningsClosed p)
    (hp : p = [] ∨ p.getLast? = some '\n') (t : List Char) :
    strip (p ++ t) = strip p ++ strip t := by
  rcases hp with rfl | hl
  · rw [strip_nil, List.nil_append, List.nil_append]
  have hlast {d : List Char} (hd : d <:+ p) (hn : d ≠ []) : d.getLast? = some '\n' := by
    obtain ⟨u, rfl⟩ := hd
    rwa [List.getLast?_append_of_ne_nil _ hn] at hl
  obtain ⟨x, -, ⟨w, hw⟩ | ⟨v, hv⟩⟩ := exists_seam (hc.endsOutside hl) (by rw [hl]; decide)
  · -- No indentation stands behind the last line feed.
    by_cases hn : w = []
    · rw [hw.strip_eq, hw.strip_append, hn, List.append_nil, List.nil_append]
    · exact absurd (hw.isIndent _ (List.mem_of_getLast? (hlast hw.isSuffix hn))) (by decide)
  · have hvs : v <:+ p := (List.suffix_cons '/' v).trans hv.isSuffix
    have hvn : v ≠ [] := by
      rintro rfl
      have := hlast hv.isSuffix (List.cons_ne_nil '/' [])
      cases this
    have hdn : v.dropWhile isIndent ≠ [] := by
      intro hd
      exact absurd (List.dropWhile_eq_nil_iff.1 hd _ (List.mem_of_getLast? (hlast hvs hvn)))
        (by decide)
    have hd := hlast ((List.dropWhile_suffix isIndent).trans hvs) hdn
    rw [hv.strip_eq, hv.strip_append, List.dropWhile_append, if_neg (by simpa using hdn)]
    -- The comment has its line break, and it is not half of a pair.
    rcases hv.isLeadingBreak.dropBreak_append t with hb | hb | ⟨hb, -⟩
    · exact absurd hb hdn
    · rw [hb]
    · rw [hb] at hd
      cases hd

end FxmlWiring.Controller.Comment
