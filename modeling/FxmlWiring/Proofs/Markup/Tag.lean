import FxmlWiring.Markup.Content
import FxmlWiring.Proofs.Tree.Writer

/-! # Tags as they are written

What the reader makes of a tag that is written at the front of a text. The value of an attribute is
followed character by character: each is written as itself or as a reference to it
(`escape_value_cases`), and read back in either form. -/

namespace FxmlWiring.Markup

open Text

/-! ## Characters of a value -/

/-- The names of the predefined entities are names, and each stands for its character. -/
theorem refersTo_predefined (name : String) (c : Char) (h : (name, c) ∈ [("lt", '<'), ("gt", '>'),
    ("amp", '&'), ("quot", '"')]) : RefersTo .utf8 ('&' :: name.toList ++ [';']) c := by
  simp only [List.mem_cons, Prod.mk.injEq, List.not_mem_nil, or_false] at h
  rcases h with ⟨rfl, rfl⟩ | ⟨rfl, rfl⟩ | ⟨rfl, rfl⟩ | ⟨rfl, rfl⟩
  · exact .entity (by decide +kernel) (by decide)
  · exact .entity (by decide +kernel) (by decide)
  · exact .entity (by decide +kernel) (by decide)
  · exact .entity (by decide +kernel) (by decide)

/-- A character of a value is written as a reference to it, or as itself if it is no sign of
values. -/
theorem escape_value_cases (c : Char) :
    RefersTo .utf8 (Attribute.escape c) c ∨
      Attribute.escape c = [c] ∧ c ≠ '&' ∧ c ≠ '<' ∧ c ≠ '"' ∧ (isSpace c = true → c = ' ') := by
  fun_cases Attribute.escape c with
  | case1 => exact Or.inl (refersTo_predefined "amp" '&' (by decide))
  | case2 => exact Or.inl (refersTo_predefined "lt" '<' (by decide))
  | case3 => exact Or.inl (refersTo_predefined "quot" '"' (by decide))
  | case4 =>
    exact Or.inl (.decimal ['9'] (by decide) (List.all_eq_true.1 (by decide)) (by decide))
  | case5 =>
    exact Or.inl (.decimal ['1', '0'] (by decide) (List.all_eq_true.1 (by decide)) (by decide))
  | case6 =>
    exact Or.inl (.decimal ['1', '3'] (by decide) (List.all_eq_true.1 (by decide)) (by decide))
  | case7 c hamp hlt hquote htab hfeed hreturn =>
    refine Or.inr ⟨rfl, hamp, hlt, hquote, ?_⟩
    intro h
    simp only [isSpace, Bool.or_eq_true, decide_eq_true_eq] at h
    rcases h with ((h | h) | h) | h
    · exact h
    · exact absurd h htab
    · exact absurd h hfeed
    · exact absurd h hreturn

/-- A character of text is written as a reference to it, or as itself if it is no sign of text. -/
theorem escape_text_cases (c : Char) :
    RefersTo .utf8 (Node.escape c) c ∨
      Node.escape c = [c] ∧ c ≠ '&' ∧ c ≠ '<' ∧ c ≠ '>' := by
  fun_cases Node.escape c with
  | case1 => exact Or.inl (refersTo_predefined "amp" '&' (by decide))
  | case2 => exact Or.inl (refersTo_predefined "lt" '<' (by decide))
  | case3 => exact Or.inl (refersTo_predefined "gt" '>' (by decide))
  | case4 c hamp hlt hgt => exact Or.inr ⟨rfl, hamp, hlt, hgt⟩

/-! ## Values -/

variable {a : Alphabet}

/-- A reference in a value is complete. -/
theorem valueHalt?_refersTo (ha : a.Separates) {w : List Char} {c q : Char} (h : RefersTo a w c)
    (hq : q ≠ '&') (rest : List Char) : valueHalt? a q (w ++ rest) = valueHalt? a q rest := by
  obtain ⟨t, r, hw, hs, -⟩ := h.exists_scan ha rest
  rw [hw, valueHalt?, if_neg (Ne.symm hq), if_pos rfl]
  split
  · rename_i hs'
    rw [hs] at hs'
    cases hs'
  · rename_i hs'
    rw [hs] at hs'
    obtain ⟨-, rfl⟩ := Prod.mk.inj (Except.ok.inj hs')
    rfl

/-- A legal character that is no sign may stand in a value. -/
theorem valueHalt?_cons {c q : Char} (hq : c ≠ q) (ha : c ≠ '&') (hl : c ≠ '<')
    (hc : isLegal c = true) (rest : List Char) :
    valueHalt? a q (c :: rest) = valueHalt? a q rest := by
  rw [valueHalt?, if_neg hq, if_neg ha, if_neg (by simp [hl, hc])]

/-- A reference in a value is replaced by the character that it stands for. -/
theorem expandValue_reference (d : Declarations) (closed : Entities) {s rest : List Char}
    {r : Reference} {c : Char} (hs : Reference.scan a s = .ok (r, rest))
    (hm : r.meaning? = some c) :
    expandValue d a closed ('&' :: s) = (expandValue d a closed rest).map (c :: ·) := by
  rw [expandValue, if_pos rfl]
  cases r with
  | character code =>
    change Reference.characterOf? code = some c at hm
    split <;> simp_all
  | entity name =>
    change Reference.predefined? name = some c at hm
    split <;> simp_all

/-- A reference to a character, as it is written in a value, is replaced by it. -/
theorem expandValue_refersTo (d : Declarations) (ha : a.Separates) (closed : Entities)
    {w : List Char} {c : Char} (h : RefersTo a w c) (rest : List Char) :
    expandValue d a closed (w ++ rest) = (expandValue d a closed rest).map (c :: ·) := by
  obtain ⟨t, r, hw, hs, hm⟩ := h.exists_scan ha rest
  rw [hw, expandValue_reference d closed hs hm]

/-- Only a carriage return takes a line feed with it. -/
theorem skipPairedBreak_of_ne {c : Char} (h : c ≠ '\r') (s : List Char) :
    skipPairedBreak a c s = s := by
  unfold skipPairedBreak
  split
  · exact if_neg fun hr => h hr.1
  · rfl

/-- A character that is no sign stands for itself in a value. -/
theorem expandValue_cons (d : Declarations) (closed : Entities) {c : Char} (ha : c ≠ '&')
    (hl : c ≠ '<') (hs : isSpace c = true → c = ' ') (rest : List Char) :
    expandValue d a closed (c :: rest) = (expandValue d a closed rest).map (c :: ·) := by
  rw [expandValue, if_neg ha, if_neg hl]
  by_cases h : isSpace c = true
  · obtain rfl := hs h
    rw [if_pos h, skipPairedBreak_of_ne (by decide)]
  · rw [if_neg h]

/-- Nothing halts the scan of a written value before its quote. -/
theorem valueHalt?_escape {v : List Char} (hv : ∀ c ∈ v, isLegal c = true)
    (rest : List Char) :
    valueHalt? .utf8 '"' (v.flatMap Attribute.escape ++ '"' :: rest) = none := by
  induction v with
  | nil => rw [List.flatMap_nil, List.nil_append, valueHalt?, if_pos rfl]
  | cons c v ih =>
    have hc := hv c List.mem_cons_self
    have ih := ih fun c h => hv c (List.mem_cons_of_mem _ h)
    rw [List.flatMap_cons, List.append_assoc]
    -- As a reference or as itself, the character is passed over.
    rcases escape_value_cases c with h | ⟨h, hamp, hlt, hquote, -⟩
    · rw [valueHalt?_refersTo Alphabet.separates_utf8 h (by decide), ih]
    · rw [h, List.singleton_append, valueHalt?_cons hquote hamp hlt hc, ih]

/-- **A written value is read back as it was.** -/
theorem expandValue_escape (d : Declarations) (closed : Entities) (v : List Char) :
    expandValue d .utf8 closed (v.flatMap Attribute.escape) = .ok v := by
  induction v with
  | nil => rw [List.flatMap_nil, expandValue]
  | cons c v ih =>
    rw [List.flatMap_cons]
    rcases escape_value_cases c with h | ⟨h, hamp, hlt, -, hspace⟩
    · rw [expandValue_refersTo d Alphabet.separates_utf8 closed h, ih]
      rfl
    · rw [h, List.singleton_append, expandValue_cons d closed hamp hlt hspace, ih]
      rfl

/-- No quote stands in a written value. -/
theorem quote_not_mem_escape (v : List Char) : '"' ∉ v.flatMap Attribute.escape := by
  rw [List.mem_flatMap]
  rintro ⟨c, -, h⟩
  revert h
  fun_cases Attribute.escape c
  case case7 _ _ hquote _ _ _ => exact fun h => hquote (List.mem_singleton.1 h).symm
  all_goals decide

/-- A written value in its quotes is scanned. -/
theorem scanQuoted_escape {v : List Char} (hv : ∀ c ∈ v, isLegal c = true) (rest : List Char) :
    scanQuoted .utf8 ('"' :: v.flatMap Attribute.escape ++ '"' :: rest) =
      .ok (v.flatMap Attribute.escape, '"' :: rest) := by
  have hq : ∀ c ∈ v.flatMap Attribute.escape, decide (c ≠ '"') = true := by
    intro c hc
    refine decide_eq_true ?_
    rintro rfl
    exact quote_not_mem_escape v hc
  have hs : StopsAt (fun c => decide (c ≠ '"')) ('"' :: rest) := stopsAt_cons.2 (by decide)
  rw [List.cons_append, scanQuoted, if_pos (Or.inl rfl), valueHalt?_escape hv,
    takeWhile_append hq hs, dropWhile_append hq hs]

/-! ## Attributes -/

/-- The written attribute shows the attribute: it has its name, and its value as it is written. -/
structure WrittenAttribute.Shows (w : WrittenAttribute) (x : Attribute) : Prop where
  name : w.name = x.name.toList
  value : w.value = x.value.toList.flatMap Attribute.escape

/-- A name does not start with a blank. -/
theorem stopsAt_isSpace_isName (ha : a.Separates) {n : List Char} (hn : a.IsName n)
    (rest : List Char) : StopsAt isSpace (n ++ rest) := by
  obtain ⟨c, t, rfl, hc, -⟩ := hn
  rw [List.cons_append, stopsAt_cons, Bool.eq_false_iff]
  intro h
  rw [ha.not_starts (Alphabet.mem_signs_of_isSpace h)] at hc
  cases hc

/-- No blanks are in front of a name. -/
theorem skipSpace_isName (ha : a.Separates) {n : List Char} (hn : a.IsName n)
    (rest : List Char) : skipSpace (n ++ rest) = n ++ rest :=
  dropWhile_of_stopsAt (stopsAt_isSpace_isName ha hn rest)

/-- No tag ends where a name starts. -/
theorem scanTagEnd?_isName (ha : a.Separates) {n : List Char} (hn : a.IsName n)
    (rest : List Char) : scanTagEnd? (n ++ rest) = none := by
  obtain ⟨c, t, rfl, hc, -⟩ := hn
  -- A tag ends with `>` or `/`, and no name starts with either.
  have hne : ∀ d ∈ Alphabet.signs, c ≠ d := by
    rintro d hd rfl
    rw [ha.not_starts hd] at hc
    cases hc
  have hgt := hne '>' (by decide)
  have hslash := hne '/' (by decide)
  rw [List.cons_append]
  unfold scanTagEnd?
  split <;> simp_all

/-- No tag ends where a blank stands. -/
theorem scanTagEnd?_of_isSpace {c : Char} (h : isSpace c = true) (s : List Char) :
    scanTagEnd? (c :: s) = none := by
  unfold scanTagEnd?
  split <;> simp_all [isSpace]

/-- An attribute as it is written, without the blank before it. -/
theorem write_append (x : Attribute) (rest : List Char) : x.write ++ rest =
    ' ' :: (x.name.toList ++
      '=' :: ('"' :: x.value.toList.flatMap Attribute.escape ++ '"' :: rest)) := by
  simp [Attribute.write]

/-- A written attribute is scanned. -/
theorem scanAttribute_write {x : Attribute} (hx : x.IsWritable) (rest : List Char) :
    ∃ w, scanAttribute .utf8 (x.name.toList ++
        '=' :: ('"' :: x.value.toList.flatMap Attribute.escape ++ '"' :: rest)) = .ok (w, rest) ∧
      w.Shows x := by
  have hn := scanName_append_cons Alphabet.separates_utf8 hx.isName (c := '=') (by decide)
    ('"' :: x.value.toList.flatMap Attribute.escape ++ '"' :: rest)
  have he : skipSpace ('=' :: ('"' :: x.value.toList.flatMap Attribute.escape ++ '"' :: rest)) =
      '=' :: ('"' :: x.value.toList.flatMap Attribute.escape ++ '"' :: rest) := rfl
  have hq : skipSpace ('"' :: x.value.toList.flatMap Attribute.escape ++ '"' :: rest) =
      '"' :: x.value.toList.flatMap Attribute.escape ++ '"' :: rest := rfl
  refine ⟨⟨x.name.toList, x.name.toList ++
    '=' :: ('"' :: x.value.toList.flatMap Attribute.escape ++ '"' :: rest),
    x.value.toList.flatMap Attribute.escape, '"' :: rest⟩, ?_, rfl, rfl⟩
  rw [scanAttribute, hn]
  simp only [true_or, ↓reduceIte, he, hq, scanQuoted_escape hx.areLegal rest, List.drop_one,
    List.tail_cons]

/-- Blanks are in front of an attribute, and other attributes or the end of the tag after it. -/
theorem scanAttributes_cons {ifEnds : Halt} {c : Char} {s t : List Char} {w : WrittenAttribute}
    (hc : isSpace c = true) (he : scanTagEnd? (skipSpace s) = none)
    (hw : scanAttribute a (skipSpace s) = .ok (w, t)) {ws : List WrittenAttribute} {isEmpty : Bool}
    {rest : List Char} (hws : scanAttributes a .endOfMarkup t = .ok ((ws, isEmpty), rest)) :
    scanAttributes a ifEnds (c :: s) = .ok ((w :: ws, isEmpty), rest) := by
  rw [scanAttributes.eq_def]
  simp only [scanTagEnd?_of_isSpace hc, hc, if_true, he]
  split
  · rename_i h
    rw [hw] at h
    cases h
  · rename_i h
    rw [hw] at h
    obtain ⟨rfl, rfl⟩ := Prod.mk.inj (Except.ok.inj h)
    rw [hws]

/-- Written attributes are scanned up to the end of their tag. -/
theorem scanAttributes_write {as : List Attribute} (has : ∀ x ∈ as, x.IsWritable)
    {s rest : List Char} {isEmpty : Bool} (hs : scanTagEnd? s = some (.ok (isEmpty, rest)))
    (ifEnds : Halt) :
    ∃ ws, scanAttributes .utf8 ifEnds (as.flatMap Attribute.write ++ s) =
      .ok ((ws, isEmpty), rest) ∧ List.Forall₂ WrittenAttribute.Shows ws as := by
  -- What halts a tag that breaks off is another thing behind the first attribute.
  induction as generalizing ifEnds with
  | nil =>
    refine ⟨[], ?_, .nil⟩
    rw [List.flatMap_nil, List.nil_append, scanAttributes.eq_def, hs]
    rfl
  | cons x as ih =>
    have hx := has x List.mem_cons_self
    obtain ⟨ws, hws, hsh⟩ := ih (fun x h => has x (List.mem_cons_of_mem _ h)) .endOfMarkup
    obtain ⟨w, hw, hwx⟩ := scanAttribute_write hx (as.flatMap Attribute.write ++ s)
    have hk := skipSpace_isName Alphabet.separates_utf8 hx.isName
    have he := scanTagEnd?_isName Alphabet.separates_utf8 hx.isName
    refine ⟨w :: ws, ?_, .cons hwx hsh⟩
    rw [List.flatMap_cons, List.append_assoc, write_append]
    refine scanAttributes_cons (by decide) ?_ ?_ hws
    · rw [hk, he]
    · rw [hk, hw]

/-- A name does not go on where a tag ends. -/
theorem stopsAt_tagEnd (ha : a.Separates) {s rest : List Char} {isEmpty : Bool}
    (hs : scanTagEnd? s = some (.ok (isEmpty, rest))) : StopsAt a.continuesName s := by
  unfold scanTagEnd? at hs
  split at hs
  · exact stopsAt_cons.2 (ha.not_continues '>' (by decide))
  · exact stopsAt_cons.2 (ha.not_continues '/' (by decide))
  all_goals cases hs

/-! ## Whole tags -/

/-- A start tag as it is written, up to the end that closes it. -/
theorem scanStartTag_write {tag : List Char} (ht : Alphabet.utf8.IsName tag)
    {as : List Attribute} (has : ∀ x ∈ as, x.IsWritable) {s rest : List Char} {isEmpty : Bool}
    (hs : scanTagEnd? s = some (.ok (isEmpty, rest))) :
    ∃ ws, scanStartTag .utf8 (tag ++ as.flatMap Attribute.write ++ s) =
      .ok (⟨tag, ws, isEmpty⟩, rest) ∧ List.Forall₂ WrittenAttribute.Shows ws as := by
  obtain ⟨ws, hws, hsh⟩ := scanAttributes_write has hs .endOfText
  refine ⟨ws, ?_, hsh⟩
  have hn : scanName .utf8 (tag ++ (as.flatMap Attribute.write ++ s)) =
      .ok (tag, as.flatMap Attribute.write ++ s) := by
    refine scanName_append ht ?_
    cases as with
    | nil => exact stopsAt_tagEnd Alphabet.separates_utf8 hs
    | cons x as =>
      rw [List.flatMap_cons, List.append_assoc, write_append, stopsAt_cons]
      exact Alphabet.separates_utf8.not_continues ' ' (by decide)
  rw [List.append_assoc, scanStartTag, hn]
  simp only [hws]

/-- The end tag of an element, as it is written. -/
theorem scanEndTag_write {a : Alphabet} (ha : a.Separates) {tag : List Char} (ht : a.IsName tag)
    (rest : List Char) : scanEndTag a (tag ++ '>' :: rest) = .ok (tag, rest) := by
  rw [scanEndTag, scanName_append_cons ha ht (by decide)]
  rfl

/-! ## Values of a tag -/

/-- **The attributes of a written tag are read back as they were**, if no two of them have one name
and no value is declared to be a list of tokens. -/
theorem readAttributes_shows {d : Declarations} {tag : List Char}
    (hd : ∀ name, d.isTokens tag name = false) (closed : Entities) (tagAt : List Char)
    {ws : List WrittenAttribute} {as : List Attribute}
    (hw : List.Forall₂ WrittenAttribute.Shows ws as) (seen : List (List Char))
    (hn : (as.map (·.name)).Nodup) (hs : ∀ x ∈ as, x.name.toList ∉ seen) :
    readAttributes d .utf8 closed tagAt tag seen ws = .ok as := by
  -- The names to come are different from each other and from those seen so far.
  induction hw generalizing seen with
  | nil => rfl
  | @cons w x ws as hwx _ ih =>
    rw [List.map_cons, List.nodup_cons] at hn
    have hx := hs x List.mem_cons_self
    have hrest : ∀ y ∈ as, y.name.toList ∉ x.name.toList :: seen := by
      intro y hy
      rw [List.mem_cons, not_or, String.toList_inj]
      refine ⟨?_, hs y (List.mem_cons_of_mem _ hy)⟩
      intro h
      exact hn.1 (h ▸ List.mem_map_of_mem hy)
    rw [readAttributes, hwx.name, if_neg (by rwa [List.contains_iff_mem]), hwx.value, readValue,
      hd, expandValue_escape, ih (x.name.toList :: seen) hn.2 hrest]
    simp [Except.map]

end FxmlWiring.Markup
