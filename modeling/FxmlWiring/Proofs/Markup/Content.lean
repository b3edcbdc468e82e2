import FxmlWiring.Proofs.Markup.Tag

/-! # Content as it is written

What the reader makes of a node that is written at the front of a text. `scanContent` takes it as
one token, or character by character if it is character data; `readContent` then goes on behind it.
-/

namespace FxmlWiring.Markup

open Text

/-! ## Comments and `CDATA` sections -/

/-- The text of a comment is scanned up to the first `-->`. -/
theorem scanCommentText_append {s : List Char} (hs : ∀ c ∈ s, isLegal c = true)
    (hd : ¬ ['-', '-'] <:+: s) (hl : s.getLast? ≠ some '-') (rest : List Char) :
    scanCommentText (s ++ '-' :: '-' :: '>' :: rest) = .ok rest := by
  induction s with
  | nil => rfl
  | cons c s ih =>
    have hc := hs c List.mem_cons_self
    have hd' : ¬ ['-', '-'] <:+: s := fun h => hd (h.trans (List.suffix_cons c s).isInfix)
    have hl' : s.getLast? ≠ some '-' := by
      intro h
      cases s with
      | nil => cases h
      | cons d s => exact hl (by rw [List.getLast?_cons_cons]; exact h)
    have ih := ih (fun d h => hs d (List.mem_cons_of_mem _ h)) hd' hl'
    -- A hyphen is followed by another character of the comment, which is no hyphen.
    have hh : ∀ t, c :: (s ++ '-' :: '-' :: '>' :: rest) ≠ '-' :: '-' :: t := by
      intro t h
      cases s with
      | nil =>
        obtain rfl : c = '-' := (List.cons.inj h).1
        exact hl rfl
      | cons d s =>
        simp only [List.cons_append, List.cons.injEq] at h
        obtain ⟨rfl, rfl, -⟩ := h
        exact hd ⟨[], s, rfl⟩
    rw [List.cons_append, scanCommentText.eq_def]
    split <;> simp_all

/-- The text of a `CDATA` section is read up to the first `]]>`. -/
theorem readCdata_append (ending : Ending) {s : List Char} (hs : ∀ c ∈ s, isLegal c = true)
    (hd : ¬ [']', ']', '>'] <:+: s) (rest : List Char) :
    readCdata ending (s ++ ']' :: ']' :: '>' :: rest) = .ok rest := by
  induction s with
  | nil => rfl
  | cons c s ih =>
    have hc := hs c List.mem_cons_self
    have hd' : ¬ [']', ']', '>'] <:+: s := fun h => hd (h.trans (List.suffix_cons c s).isInfix)
    have ih := ih (fun d h => hs d (List.mem_cons_of_mem _ h)) hd'
    -- A closing that started here would lie inside the section.
    have hh : ∀ t, c :: (s ++ ']' :: ']' :: '>' :: rest) ≠ ']' :: ']' :: '>' :: t := by
      intro t h
      match s, h with
      | [], h => cases (List.cons.inj h).2
      | [d], h => cases (List.cons.inj h).2
      | d :: e :: s, h =>
        simp only [List.cons_append, List.cons.injEq] at h
        obtain ⟨rfl, rfl, rfl, -⟩ := h
        exact hd ⟨[], s, rfl⟩
    have hu : endsUndecided (c :: (s ++ ']' :: ']' :: '>' :: rest)) = false := by
      cases s <;> simp [endsUndecided]
    rw [List.cons_append, readCdata.eq_def]
    split <;> simp_all

/-- The opening of a `CDATA` section, of which six code units are left. -/
theorem scanCdataStart_append (ending : Ending) (s : List Char) :
    scanCdataStart .utf8 ending ('C' :: 'D' :: 'A' :: 'T' :: 'A' :: '[' :: s) = .ok s := by
  have hu : ¬ ('C' :: 'D' :: 'A' :: 'T' :: 'A' :: '[' :: s).foldr (Alphabet.utf8.units · + ·)
      ending.units < 6 := by
    -- The opening itself is six code units.
    change ¬ 1 + (1 + (1 + (1 + (1 + (1 + s.foldr (Alphabet.utf8.units · + ·) ending.units))))) < 6
    omega
  rw [scanCdataStart, if_neg hu]
  rfl

/-! ## Tokens -/

/-- A name after `<` starts a tag. -/
theorem scanContent_isName {a : Alphabet} (ha : a.Separates) (ending : Ending) {tag : List Char}
    (ht : a.IsName tag) (s : List Char) :
    scanContent a ending ('<' :: (tag ++ s)) =
      (scanStartTag a (tag ++ s)).toToken ending ('<' :: (tag ++ s)) .startTag := by
  -- The first character of the name tells the tag from everything else that starts with `<`.
  have hne : ∀ c ∈ Alphabet.signs, ∀ t, tag ++ s ≠ c :: t := by
    obtain ⟨c, n, rfl, hc, -⟩ := ht
    rintro d hd t h
    obtain rfl : c = d := (List.cons.inj h).1
    rw [ha.not_starts hd] at hc
    cases hc
  have hm : ∀ t, tag ++ s ≠ '!' :: t := hne '!' (by decide)
  exact scanContent.eq_8 _ _ _ (hne '/' (by decide)) (fun t => hm _) (fun t => hm _) (hm _)
    (fun t => hm _) (hne '?' (by decide))

/-- The start tag of an element is the next token. -/
theorem scanContent_startTag (ending : Ending) {tag : List Char} (ht : Alphabet.utf8.IsName tag)
    {as : List Attribute} (has : ∀ x ∈ as, x.IsWritable) {s rest : List Char} {isEmpty : Bool}
    (hs : scanTagEnd? s = some (.ok (isEmpty, rest))) :
    ∃ ws, scanContent .utf8 ending ('<' :: (tag ++ as.flatMap Attribute.write ++ s)) =
      .ok (.startTag ⟨tag, ws, isEmpty⟩, rest) ∧ List.Forall₂ WrittenAttribute.Shows ws as := by
  obtain ⟨ws, hws, hsh⟩ := scanStartTag_write ht has hs
  refine ⟨ws, ?_, hsh⟩
  rw [List.append_assoc] at hws ⊢
  rw [scanContent_isName Alphabet.separates_utf8 ending ht, hws]
  rfl

/-- The end tag of an element is the next token. -/
theorem scanContent_endTag {a : Alphabet} (ha : a.Separates) (ending : Ending) {tag : List Char}
    (ht : a.IsName tag) (rest : List Char) :
    scanContent a ending ('<' :: '/' :: (tag ++ '>' :: rest)) =
      .ok (.endTag tag (tag ++ '>' :: rest), rest) := by
  rw [scanContent, scanEndTag_write ha ht]
  rfl

/-- A comment is the next token. -/
theorem scanContent_comment (a : Alphabet) (ending : Ending) {s : List Char}
    (hs : ∀ c ∈ s, isLegal c = true) (hd : ¬ ['-', '-'] <:+: s) (hl : s.getLast? ≠ some '-')
    (rest : List Char) :
    scanContent a ending ('<' :: '!' :: '-' :: '-' :: (s ++ '-' :: '-' :: '>' :: rest)) =
      .ok (.ignorable, rest) := by
  rw [scanContent, scanComment, scanCommentText_append hs hd hl]
  rfl

/-- A `CDATA` section is the next token. -/
theorem scanContent_cdata {s : List Char} (hs : ∀ c ∈ s, isLegal c = true)
    (hd : ¬ [']', ']', '>'] <:+: s) (rest : List Char) :
    scanContent .utf8 .complete ('<' :: '!' :: '[' :: 'C' :: 'D' :: 'A' :: 'T' :: 'A' :: '[' ::
      (s ++ ']' :: ']' :: '>' :: rest)) = .ok (.ignorable, rest) := by
  rw [scanContent, scanCdataStart_append]
  simp only [readCdata_append .complete hs hd]
  rfl

/-- A reference to a character is the next token. -/
theorem scanContent_reference {a : Alphabet} (ha : a.Separates) (ending : Ending) {w : List Char}
    {c : Char} (h : RefersTo a w c) (rest : List Char) :
    ∃ r, scanContent a ending (w ++ rest) = .ok (.reference r, rest) ∧ r.meaning? = some c := by
  obtain ⟨t, r, hw, hs, hm⟩ := h.exists_scan ha rest
  refine ⟨r, ?_, hm⟩
  rw [hw, scanContent, hs]
  rfl

/-- The text starts with brackets that close a `CDATA` section, except for those before it. -/
def ClosesSection (s : List Char) : Prop :=
  (s.dropWhile (· = ']')).head? = some '>'

/-- A legal character that is no sign is the next token. -/
theorem scanContent_character (a : Alphabet) (ending : Ending) {c : Char}
    (hc : isLegal c = true) (ha : c ≠ '&') (hl : c ≠ '<') {rest : List Char}
    (hr : ¬ ClosesSection rest) : scanContent a ending (c :: rest) = .ok (.ignorable, rest) := by
  rw [scanContent.eq_def]
  split <;> simp_all [ClosesSection]

/-! ## One token after another -/

section Steps

variable {d : Declarations} {a : Alphabet} {ending : Ending} {place : Place} {closed : Entities}
  {stack : List OpenElement} {nodes : List Node} {text rest : List Char}

/-- Reading goes on behind something ignorable. -/
theorem readContent_ignorable (he : endOfContent? ending text = none)
    (h : scanContent a ending text = .ok (.ignorable, rest)) :
    readContent d a ending place closed stack nodes text =
      readContent d a ending place closed stack nodes rest := by
  rw [readContent]
  simp only [he]
  split <;> simp_all

/-- Reading goes on behind a reference that stands for a character without any declaration. -/
theorem readContent_reference (he : endOfContent? ending text = none) {r : Reference} {c : Char}
    (h : scanContent a ending text = .ok (.reference r, rest)) (hr : r.meaning? = some c) :
    readContent d a ending place closed stack nodes text =
      readContent d a ending place closed stack nodes rest := by
  rw [readContent]
  simp only [he]
  cases r with
  | character code =>
    change Reference.characterOf? code = some c at hr
    split <;> simp_all
  | entity name =>
    change Reference.predefined? name = some c at hr
    split <;> simp_all

/-- Reading goes on inside an element behind its start tag. -/
theorem readContent_startTag (he : endOfContent? ending text = none) {tag : StartTag}
    (h : scanContent a ending text = .ok (.startTag tag, rest)) (ht : tag.isEmpty = false)
    {as : List Attribute}
    (has : readAttributes d a closed text tag.name [] tag.attributes = .ok as) :
    readContent d a ending place closed stack nodes text =
      readContent d a ending place closed (⟨tag.name, as, nodes⟩ :: stack) [] rest := by
  rw [readContent]
  simp only [he]
  split <;> simp_all

/-- What is read after an element: nothing if it is the root of a document. -/
def readOn (d : Declarations) (a : Alphabet) (ending : Ending) (place : Place) (closed : Entities)
    (stack : List OpenElement) (nodes : List Node) (rest : List Char) :
    Except Fault (List Node × List Char) :=
  if place = .document ∧ stack = [] then .ok (nodes, rest)
  else readContent d a ending place closed stack nodes rest

/-- An element that its own tag closes has been read. -/
theorem readContent_emptyTag (he : endOfContent? ending text = none) {tag : StartTag}
    (h : scanContent a ending text = .ok (.startTag tag, rest)) (ht : tag.isEmpty = true)
    {as : List Attribute}
    (has : readAttributes d a closed text tag.name [] tag.attributes = .ok as) :
    readContent d a ending place closed stack nodes text =
      readOn d a ending place closed stack (.element (.ofList tag.name) as [] :: nodes) rest := by
  rw [readContent, readOn]
  simp only [he]
  split <;> simp_all

/-- An element has been read when its end tag comes. -/
theorem readContent_endTag (he : endOfContent? ending text = none) {e : OpenElement}
    {nameAt : List Char} (h : scanContent a ending text = .ok (.endTag e.name nameAt, rest)) :
    readContent d a ending place closed (e :: stack) nodes text =
      readOn d a ending place closed stack
        (.element (.ofList e.name) e.attributes nodes.reverse :: e.before) rest := by
  rw [readContent, readOn]
  simp only [he]
  split <;> simp_all

end Steps

/-- Content does not end where markup is still to come. -/
theorem endOfContent?_eq_none {ending : Ending} {text : List Char} (h : '<' ∈ text) :
    endOfContent? ending text = none := by
  have hne : ∀ s : List Char, '<' ∉ s → text ≠ s := by
    rintro s hs rfl
    exact hs h
  have hb : ¬ (text = [']'] ∨ text = [']', ']']) := by
    rintro (h | h)
    · exact hne [']'] (by decide) h
    · exact hne [']', ']'] (by decide) h
  have hn : ¬ (text = [] ∧ ending = .complete) := fun h => hne [] (by decide) h.1
  rw [endOfContent?, if_neg (hne ['\r'] (by decide)), if_neg hb, if_neg hn, ite_self]

end FxmlWiring.Markup
