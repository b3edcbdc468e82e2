import FxmlWiring.Controller
import FxmlWiring.Proofs.Text.Span

/-! # Which text the removal of comments keeps

`IsComment m rest` says, without a scan, that the text `m` is a comment when `rest` follows it.
`Cuts` cuts a text into stretches that are kept and comments between them, such that no comment
starts inside a stretch. Every text has exactly one such cut, and `strip` leaves its stretches.

The bridge to the scan is `afterComment_eq_some_iff`: a scan finds the comment at the front of a
text, if there is one, and goes on right behind it. -/

namespace FxmlWiring.Controller.Comment

open Text

/-! ## What a comment is -/

/-- Spaces and tabs. -/
def indentation : List Char :=
  [' ', '\t']

/-- Where a line comment ends. -/
def lineEnds : List Char :=
  ['\n', '\r', '\u0085', '\u2028', '\u2029']

/-- The line breaks that go with a block comment. -/
def breaks : List Char :=
  ['\n', '\r', '\u0085', '\u2028', '\u2029', '\x0b', '\x0c']

/-- The line break at the front of a text which goes on with the rest; it is empty if none is
there. -/
inductive IsLeadingBreak : List Char → List Char → Prop
  /-- A carriage return and its line feed count as one. -/
  | pair (rest : List Char) : IsLeadingBreak ['\r', '\n'] rest
  | single {c : Char} {rest : List Char} (hc : c ∈ breaks)
      (hp : c = '\r' → rest.head? ≠ some '\n') : IsLeadingBreak [c] rest
  | absent {rest : List Char} (h : ∀ c ∈ rest.head?, c ∉ breaks) : IsLeadingBreak [] rest

/-- A comment in a text which goes on with the rest. -/
inductive IsComment : List Char → List Char → Prop
  /-- Indentation, `/*`, a text without `*/`, `*/`, all the indentation and the line break that
  follow. -/
  | block {indent body trail lineBreak rest : List Char} (hi : ∀ c ∈ indent, c ∈ indentation)
      (hb : ¬ ['*', '/'] <:+: body) (ht : ∀ c ∈ trail, c ∈ indentation)
      (hs : ∀ c ∈ (lineBreak ++ rest).head?, c ∉ indentation)
      (hl : IsLeadingBreak lineBreak rest) :
      IsComment (indent ++ '/' :: '*' :: body ++ '*' :: '/' :: trail ++ lineBreak) rest
  /-- `//` and all that follows in the line. -/
  | line {body rest : List Char} (hb : ∀ c ∈ body, c ∉ lineEnds)
      (hs : ∀ c ∈ rest.head?, c ∈ lineEnds) : IsComment ('/' :: '/' :: body) rest

/-- A comment stands at the front of the text. -/
def StartsComment (s : List Char) : Prop :=
  ∃ m rest, IsComment m rest ∧ s = m ++ rest

/-! ## Classes of characters -/

theorem mem_indentation_iff {c : Char} : c ∈ indentation ↔ isIndent c = true := by
  simp [indentation, isIndent]

theorem mem_lineEnds_iff {c : Char} : c ∈ lineEnds ↔ endsLine c = true := by
  simp [lineEnds, endsLine, or_assoc]

theorem mem_breaks_iff {c : Char} : c ∈ breaks ↔ isBreak c = true := by
  simp [breaks, isBreak, endsLine, or_assoc]

theorem stopsAt_isIndent_iff {s : List Char} :
    StopsAt isIndent s ↔ ∀ c ∈ s.head?, c ∉ indentation := by
  simp only [StopsAt, mem_indentation_iff, Bool.not_eq_true]

/-! ## The scan of a comment -/

/-- What follows the first `*/` follows a text without one. -/
theorem afterClose_eq_some_iff {s rest : List Char} :
    afterClose s = some rest ↔
      ∃ body, s = body ++ '*' :: '/' :: rest ∧ ¬ ['*', '/'] <:+: body := by
  constructor
  · intro h
    fun_induction afterClose s with
    | case1 s =>
      obtain rfl := Option.some.inj h
      exact ⟨[], rfl, by simp⟩
    | case2 c s hc ih =>
      obtain ⟨body, rfl, hb⟩ := ih h
      refine ⟨c :: body, rfl, ?_⟩
      rw [List.infix_cons_iff]
      rintro (⟨t, ht⟩ | hi)
      · -- `*/` at the front would have closed the comment here.
        obtain ⟨rfl, rfl⟩ := List.cons.inj ht
        exact hc (t ++ '*' :: '/' :: rest) rfl rfl
      · exact hb hi
    | case3 => cases h
  · rintro ⟨body, rfl, hb⟩
    induction body with
    | nil => rfl
    | cons c body ih =>
      have hn : ∀ t, c = '*' → body ++ '*' :: '/' :: rest = '/' :: t → False := by
        intro t hc ht
        subst hc
        cases body with
        | nil => simp at ht
        | cons d body =>
          obtain rfl : d = '/' := (List.cons.inj ht).1
          exact hb ⟨[], body, rfl⟩
      rw [List.cons_append, afterClose.eq_2 c _ hn]
      exact ih fun h => hb (h.trans (List.suffix_cons c body).isInfix)

/-- Nothing is found exactly in a text without `*/`. -/
theorem afterClose_eq_none_iff {s : List Char} : afterClose s = none ↔ ¬ ['*', '/'] <:+: s := by
  constructor
  · intro h
    fun_induction afterClose s with
    | case1 s => cases h
    | case2 c s hc ih =>
      rw [List.infix_cons_iff, List.cons_prefix_cons]
      rintro (⟨rfl, t, rfl⟩ | hi)
      · exact hc t rfl rfl
      · exact ih h hi
    | case3 => simp
  · intro h
    rw [Option.eq_none_iff_forall_not_mem]
    intro rest hr
    obtain ⟨body, rfl, -⟩ := afterClose_eq_some_iff.1 hr
    exact h ⟨body, rest, by simp⟩

/-- What is left behind one line break is what follows that line break. -/
theorem dropBreak_eq_iff {s rest : List Char} :
    dropBreak s = rest ↔ ∃ b, IsLeadingBreak b rest ∧ s = b ++ rest := by
  constructor
  · rintro rfl
    fun_cases dropBreak s with
    | case1 s => exact ⟨['\r', '\n'], .pair s, rfl⟩
    | case2 c s hp hc =>
      refine ⟨[c], .single (mem_breaks_iff.2 hc) ?_, rfl⟩
      -- A carriage return with its line feed would have been the pair.
      intro hr hn
      obtain ⟨t, rfl⟩ := List.head?_eq_some_iff.1 hn
      exact hp t hr rfl
    | case3 c s hp hc => exact ⟨[], .absent (by simpa [mem_breaks_iff] using hc), rfl⟩
    | case4 => exact ⟨[], .absent (by simp), rfl⟩
  · rintro ⟨b, hb, rfl⟩
    cases hb with
    | pair => rfl
    | single hc hp =>
      rename_i c
      have hn : ∀ t, c = '\r' → rest = '\n' :: t → False := by
        rintro t hr rfl
        exact hp hr rfl
      rw [List.singleton_append, dropBreak.eq_2 c rest hn, if_pos (mem_breaks_iff.1 hc)]
    | absent h =>
      cases rest with
      | nil => rfl
      | cons c s =>
        have hc : c ∉ breaks := h c rfl
        have hn : ∀ t, c = '\r' → s = '\n' :: t → False := by
          rintro t rfl -
          exact hc (by decide)
        rw [List.nil_append, dropBreak.eq_2 c s hn, if_neg fun h => hc (mem_breaks_iff.2 h)]

/-- A scan that finds the end of a block comment has read one. -/
theorem exists_isComment_of_afterBlock {s rest : List Char} (h : afterBlock s = some rest) :
    ∃ m, IsComment m rest ∧ s = m ++ rest := by
  rw [afterBlock] at h
  split at h
  · rename_i t hd
    obtain ⟨r, hr, hb⟩ := Option.map_eq_some_iff.1 h
    obtain ⟨lineBreak, hl, hlr⟩ := dropBreak_eq_iff.1 hb
    obtain ⟨indent, hs, hi⟩ := exists_append_dropWhile isIndent s
    obtain ⟨body, rfl, hb⟩ := afterClose_eq_some_iff.1 hr
    obtain ⟨trail, ht, hti⟩ := exists_append_dropWhile isIndent r
    refine ⟨indent ++ '/' :: '*' :: body ++ '*' :: '/' :: trail ++ lineBreak,
      .block (fun c hc => mem_indentation_iff.2 (hi c hc)) hb
        (fun c hc => mem_indentation_iff.2 (hti c hc)) ?_ hl, ?_⟩
    · rw [← hlr, ← stopsAt_isIndent_iff]
      exact stopsAt_dropWhile r
    · -- The parts that the scan went over make up the text.
      calc
        s = indent ++ '/' :: '*' :: (body ++ '*' :: '/' :: r) := by rw [← hd, ← hs]
        _ = indent ++ '/' :: '*' :: (body ++ '*' :: '/' :: (trail ++ r.dropWhile isIndent)) := by
          rw [← ht]
        _ = _ := by rw [hlr]; simp
  · cases h

/-- A scan that finds the end of a line comment has read one. -/
theorem exists_isComment_of_afterLine {s rest : List Char} (h : afterLine s = some rest) :
    ∃ m, IsComment m rest ∧ s = m ++ rest := by
  rw [afterLine.eq_def] at h
  split at h
  · rename_i s
    obtain rfl := Option.some.inj h
    obtain ⟨body, hs, hb⟩ := exists_append_dropWhile (!endsLine ·) s
    refine ⟨'/' :: '/' :: body, .line ?_ ?_, by simp [← hs]⟩
    · intro c hc
      simpa [mem_lineEnds_iff] using hb c hc
    · intro c hc
      have hn : (!endsLine c) = false := stopsAt_dropWhile s c hc
      simpa [mem_lineEnds_iff] using hn
  · cases h

/-- A comment that stands at the front of a text is found. -/
theorem afterComment_append {m rest : List Char} (h : IsComment m rest) :
    afterComment (m ++ rest) = some rest := by
  rw [afterComment, Option.or_eq_some_iff]
  cases h with
  | @block indent body trail lineBreak _ hi hb ht hs hl =>
    left
    have hd : (indent ++ '/' :: '*' ::
        (body ++ '*' :: '/' :: (trail ++ (lineBreak ++ rest)))).dropWhile isIndent =
          '/' :: '*' :: (body ++ '*' :: '/' :: (trail ++ (lineBreak ++ rest))) :=
      dropWhile_append (fun c hc => mem_indentation_iff.1 (hi c hc)) (stopsAt_cons.2 rfl)
    have hc : afterClose (body ++ '*' :: '/' :: (trail ++ (lineBreak ++ rest))) =
        some (trail ++ (lineBreak ++ rest)) := afterClose_eq_some_iff.2 ⟨body, rfl, hb⟩
    have hr : (trail ++ (lineBreak ++ rest)).dropWhile isIndent = lineBreak ++ rest :=
      dropWhile_append (fun c hc => mem_indentation_iff.1 (ht c hc)) (stopsAt_isIndent_iff.2 hs)
    have hb : dropBreak (lineBreak ++ rest) = rest := dropBreak_eq_iff.2 ⟨lineBreak, hl, rfl⟩
    have hm : indent ++ '/' :: '*' :: body ++ '*' :: '/' :: trail ++ lineBreak ++ rest =
        indent ++ '/' :: '*' :: (body ++ '*' :: '/' :: (trail ++ (lineBreak ++ rest))) := by simp
    rw [hm, afterBlock, hd]
    simp only [hc, Option.map_some, hr, hb]
  | @line body _ hb hs =>
    right
    -- No indentation stands before `//`, and no asterisk behind its first slash.
    refine ⟨rfl, ?_⟩
    rw [List.cons_append, List.cons_append, afterLine, dropWhile_append]
    · intro c hc
      simpa [mem_lineEnds_iff] using hb c hc
    · intro c hc
      simpa [mem_lineEnds_iff] using hs c hc

/-- **A scan finds a comment at the front of a text exactly if one is there**, and goes on behind
it. -/
theorem afterComment_eq_some_iff {s rest : List Char} :
    afterComment s = some rest ↔ ∃ m, IsComment m rest ∧ s = m ++ rest := by
  constructor
  · intro h
    rcases Option.or_eq_some_iff.1 h with h | ⟨-, h⟩
    · exact exists_isComment_of_afterBlock h
    · exact exists_isComment_of_afterLine h
  · rintro ⟨m, hm, rfl⟩
    exact afterComment_append hm

/-- No comment stands at the front of a text exactly if a scan finds none. -/
theorem afterComment_eq_none_iff {s : List Char} : afterComment s = none ↔ ¬ StartsComment s := by
  rw [Option.eq_none_iff_forall_not_mem]
  constructor
  · rintro h ⟨m, rest, hm⟩
    exact h rest (afterComment_eq_some_iff.2 ⟨m, hm⟩)
  · intro h rest hr
    obtain ⟨m, hm⟩ := afterComment_eq_some_iff.1 hr
    exact h ⟨m, rest, hm⟩

/-- Only one comment stands at the front of a text. -/
theorem IsComment.unique {m m' rest rest' : List Char} (h : IsComment m rest)
    (h' : IsComment m' rest') (he : m ++ rest = m' ++ rest') : m = m' ∧ rest = rest' := by
  have hr : rest = rest' := by
    have := afterComment_append h
    rw [he, afterComment_append h'] at this
    exact (Option.some.inj this).symm
  subst hr
  exact ⟨List.append_cancel_right he, rfl⟩

theorem IsComment.ne_nil {m rest : List Char} (h : IsComment m rest) : m ≠ [] := by
  cases h <;> simp

/-! ## Cutting a text at its comments -/

/-- No comment of the text starts inside its front `k`. -/
def KeepsAll (k after : List Char) : Prop :=
  ∀ u c v, k = u ++ c :: v → ¬ StartsComment (c :: v ++ after)

/-- A text is cut into kept stretches, each with the comment behind it, and a last stretch. No
comment starts inside a stretch. -/
inductive Cuts : List Char → List (List Char × List Char) → List Char → Prop
  | last {k : List Char} (hk : KeepsAll k []) : Cuts k [] k
  | part {k m rest : List Char} {parts : List (List Char × List Char)} {last : List Char}
      (hk : KeepsAll k (m ++ rest)) (hm : IsComment m rest) (h : Cuts rest parts last) :
      Cuts (k ++ m ++ rest) ((k, m) :: parts) last

/-- The kept stretches of a cut, one after another. -/
def kept (parts : List (List Char × List Char)) (last : List Char) : List Char :=
  parts.flatMap (·.1) ++ last

@[simp] theorem keepsAll_nil (after : List Char) : KeepsAll [] after := by
  intro u c v h
  simp at h

/-- A stretch may start one character earlier if no comment starts there. -/
theorem KeepsAll.cons {c : Char} {k after : List Char} (hc : ¬ StartsComment (c :: k ++ after))
    (h : KeepsAll k after) : KeepsAll (c :: k) after := by
  intro u d v he
  cases u with
  | nil =>
    obtain ⟨rfl, rfl⟩ := List.cons.inj he
    exact hc
  | cons e u => exact h u d v (List.cons.inj he).2

/-- Nothing is lost: the stretches and comments of a cut make up the text. -/
theorem Cuts.eq_flatMap_append {s last : List Char} {parts : List (List Char × List Char)}
    (h : Cuts s parts last) : s = (parts.flatMap fun p => p.1 ++ p.2) ++ last := by
  induction h with
  | last => rfl
  | part _ _ _ ih => simp [← ih]

/-- A stretch in which no comment starts is kept. -/
theorem strip_append_of_keepsAll {k after : List Char} (h : KeepsAll k after) :
    strip (k ++ after) = k ++ strip after := by
  induction k with
  | nil => rfl
  | cons c k ih =>
    have hc : afterComment (c :: k ++ after) = none := afterComment_eq_none_iff.2 (h [] c k rfl)
    have hk : KeepsAll k after := fun u d v he => h (c :: u) d v (congrArg (c :: ·) he)
    rw [List.cons_append] at hc ⊢
    rw [strip_cons hc, ih hk, List.cons_append]

/-- A comment leaves nothing behind. -/
theorem strip_append_of_isComment {m rest : List Char} (h : IsComment m rest) :
    strip (m ++ rest) = strip rest :=
  strip_of_afterComment (afterComment_append h)

/-- The stretches of a cut make up what is left of the text. -/
theorem Cuts.strip_eq {s last : List Char} {parts : List (List Char × List Char)}
    (h : Cuts s parts last) : strip s = kept parts last := by
  induction h with
  | @last k hk => simpa [kept] using strip_append_of_keepsAll hk
  | @part k m rest parts last hk hm _ ih =>
    rw [List.append_assoc, strip_append_of_keepsAll hk, strip_append_of_isComment hm, ih]
    simp [kept]

/-- A cut of a text is one of the text with one more character in front if no comment starts
there. -/
theorem Cuts.exists_cons {c : Char} {s last : List Char} {parts : List (List Char × List Char)}
    (h : Cuts s parts last) (hc : ¬ StartsComment (c :: s)) :
    ∃ parts last, Cuts (c :: s) parts last := by
  cases h with
  | last hk => exact ⟨[], c :: s, .last (hk.cons (by simpa using hc))⟩
  | @part k m rest parts _ hk hm h =>
    refine ⟨(c :: k, m) :: parts, last, ?_⟩
    exact Cuts.part (hk.cons (by simpa using hc)) hm h

/-- Every text can be cut. -/
theorem exists_cuts (s : List Char) : ∃ parts last, Cuts s parts last := by
  -- The induction follows the scan, which settles at each place whether a comment starts.
  fun_induction strip s with
  | case1 => exact ⟨[], [], .last (keepsAll_nil [])⟩
  | case2 c s r hr ih =>
    -- A comment starts here: the stretch before it is empty.
    obtain ⟨parts, last, h⟩ := ih
    obtain ⟨m, hm, hs⟩ := afterComment_eq_some_iff.1 hr
    refine ⟨([], m) :: parts, last, ?_⟩
    rw [hs]
    exact Cuts.part (keepsAll_nil _) hm h
  | case3 c s hn ih =>
    obtain ⟨parts, last, h⟩ := ih
    exact h.exists_cons (afterComment_eq_none_iff.1 hn)

/-- No comment starts inside a stretch, so a stretch before a comment is not longer than another
one of the same text. -/
theorem KeepsAll.prefix_of_eq {k k' m rest after : List Char} (hk : KeepsAll k' after)
    (hm : IsComment m rest) (he : k ++ (m ++ rest) = k' ++ after) : k' <+: k := by
  rcases List.append_eq_append_iff.1 he with ⟨u, rfl, hu⟩ | ⟨u, rfl, -⟩
  · cases u with
    | nil => simp
    | cons c u =>
      -- The comment would start at `c`, inside the other stretch.
      exact absurd ⟨m, rest, hm, hu.symm⟩ (hk k c u rfl)
  · exact List.prefix_append k' u

/-- A text with a comment in it is no stretch. -/
theorem not_keepsAll_of_isComment {k m rest : List Char} (hm : IsComment m rest) :
    ¬ KeepsAll (k ++ m ++ rest) [] := by
  intro hk
  have hp : k ++ m ++ rest <+: k := hk.prefix_of_eq hm (by simp)
  have hl := hp.length_le
  have hn := List.length_pos_iff.2 hm.ne_nil
  simp only [List.length_append] at hl
  omega

/-- **A text has only one cut.** -/
theorem Cuts.unique {s last last' : List Char} {parts parts' : List (List Char × List Char)}
    (h : Cuts s parts last) (h' : Cuts s parts' last') : parts' = parts ∧ last' = last := by
  induction h generalizing parts' last' with
  | last hk =>
    cases h' with
    | last => exact ⟨rfl, rfl⟩
    | part _ hm _ => exact absurd hk (not_keepsAll_of_isComment hm)
  | @part k m rest parts last hk hm _ ih =>
    generalize hs : k ++ m ++ rest = s at h'
    cases h' with
    | last hk' => exact absurd (hs ▸ hk') (not_keepsAll_of_isComment hm)
    | @part k' m' rest' _ _ hk' hm' h' =>
      rw [List.append_assoc, List.append_assoc] at hs
      -- Neither first stretch goes beyond the other one.
      have hp : k' <+: k := hk'.prefix_of_eq hm hs
      have hp' : k <+: k' := hk.prefix_of_eq hm' hs.symm
      obtain rfl : k = k' := hp'.eq_of_length_le hp.length_le
      obtain ⟨rfl, rfl⟩ := hm.unique hm' (List.append_cancel_left hs)
      obtain ⟨rfl, rfl⟩ := ih h'
      exact ⟨rfl, rfl⟩

/-! ## What is left -/

/-- A block comment that is not closed is kept, and what follows its opening is looked at as
before. -/
theorem strip_unclosed {body : List Char} (h : ¬ ['*', '/'] <:+: body) :
    strip ('/' :: '*' :: body) = '/' :: '*' :: strip body := by
  have hc : afterClose body = none := afterClose_eq_none_iff.2 h
  have hopening : afterComment ('/' :: '*' :: body) = none := by
    simp [afterComment, afterBlock, afterLine, isIndent, hc]
  have hstar : afterComment ('*' :: body) = none := by
    simp [afterComment, afterBlock, afterLine, isIndent]
  rw [strip_cons hopening, strip_cons hstar]

/-- **What is left of a text are the stretches of its one cut at its comments.** Nothing else is
lost, and nothing changes places. In particular the opening of a block comment that is not closed
is kept, while the text behind it loses its comments, and `/*/` does not close itself. -/
theorem stripComments_eq_kept_of_unique_cut (source : String) :
    (∃ parts last, Cuts source.toList parts last ∧
      source.toList = (parts.flatMap fun p => p.1 ++ p.2) ++ last ∧
      (stripComments source).toList = kept parts last ∧
      ∀ parts' last', Cuts source.toList parts' last' → parts' = parts ∧ last' = last) ∧
    (∀ body, ¬ ['*', '/'] <:+: body →
      strip ('/' :: '*' :: body) = '/' :: '*' :: strip body) ∧
    ∀ body, ¬ ['*', '/'] <:+: body →
      strip ('/' :: '*' :: '/' :: body) = '/' :: '*' :: strip ('/' :: body) := by
  refine ⟨?_, fun body h => strip_unclosed h, fun body h => strip_unclosed ?_⟩
  · obtain ⟨parts, last, h⟩ := exists_cuts source.toList
    refine ⟨parts, last, h, h.eq_flatMap_append, ?_, fun parts' last' h' => h.unique h'⟩
    rw [stripComments, String.toList_ofList, h.strip_eq]
  · rw [List.infix_cons_iff]
    rintro (⟨t, ht⟩ | hi)
    · simp at ht
    · exact h hi

end FxmlWiring.Controller.Comment
