import FxmlWiring.Proofs.Markup.Content

/-! # Reading what trees are written as

A text **reads as** nodes if reading it inside an element adds just these nodes. What a writable
tree may be written as reads as its elements (`exists_readsAs`): the same tags at the same depths,
each with the same attributes, and nothing of what stands between them. -/

namespace FxmlWiring.Markup

open Node

/-! ## Character data -/

/-- Markup closes no section. -/
theorem not_closesSection_markup (rest : List Char) : ¬ ClosesSection ('<' :: rest) := by
  simp [ClosesSection]

/-- Written character data closes no section. -/
theorem not_closesSection_escape (s : List Char) {rest : List Char}
    (hr : ¬ ClosesSection rest) : ¬ ClosesSection (s.flatMap Node.escape ++ rest) := by
  induction s with
  | nil => exact hr
  | cons c s ih =>
    rw [List.flatMap_cons, List.append_assoc]
    rcases escape_text_cases c with h | ⟨h, -, -, hg⟩
    · obtain ⟨t, r, hw, -, -⟩ := h.exists_scan Alphabet.separates_utf8
        (s.flatMap Node.escape ++ rest)
      rw [hw]
      simp [ClosesSection]
    · rw [h, List.singleton_append]
      by_cases hb : c = ']'
      · subst hb
        exact ih
      · simpa [ClosesSection, hb] using hg

/-- Nothing that nodes are written as closes a section. -/
theorem not_closesSection_written {ns : List Node} {w : List Char} (h : Written ns w)
    (rest : List Char) : ¬ ClosesSection (w ++ '<' :: rest) := by
  induction h with
  | nil => exact not_closesSection_markup rest
  | element => exact not_closesSection_markup _
  | empty => exact not_closesSection_markup _
  | cdata s => exact not_closesSection_markup _
  | comment s => exact not_closesSection_markup _
  | text s _ ih =>
    rw [List.append_assoc]
    exact not_closesSection_escape s.toList ih

variable {d : Declarations}

/-- Reading goes on behind written character data. -/
theorem readContent_escape (closed : Entities) (stack : List OpenElement) (nodes : List Node)
    {s : List Char} (hs : ∀ c ∈ s, isLegal c = true) {rest : List Char}
    (hr : ¬ ClosesSection rest) (hm : '<' ∈ rest) :
    readContent d .utf8 .complete .document closed stack nodes (s.flatMap Node.escape ++ rest) =
      readContent d .utf8 .complete .document closed stack nodes rest := by
  induction s with
  | nil => rfl
  | cons c s ih =>
    have hc := hs c List.mem_cons_self
    have ih := ih fun d h => hs d (List.mem_cons_of_mem _ h)
    have ht := not_closesSection_escape s hr
    have he : ∀ w, endOfContent? .complete (w ++ (s.flatMap Node.escape ++ rest)) = none :=
      fun w => endOfContent?_eq_none (by simp [hm])
    rw [List.flatMap_cons, List.append_assoc, ← ih]
    rcases escape_text_cases c with h | ⟨h, ha, hl, -⟩
    · obtain ⟨r, hr, hm⟩ := scanContent_reference Alphabet.separates_utf8 .complete h
        (s.flatMap Node.escape ++ rest)
      exact readContent_reference (he _) hr hm
    · rw [h]
      exact readContent_ignorable (he [c]) (scanContent_character .utf8 .complete hc ha hl ht)

/-! ## Elements -/

/-- Reading the text inside an element adds the nodes. -/
def ReadsAs (d : Declarations) (w : List Char) (us : List Node) : Prop :=
  ∀ (closed : Entities) (stack : List OpenElement) (nodes : List Node) (rest : List Char),
    stack ≠ [] →
      readContent d .utf8 .complete .document closed stack nodes (w ++ '<' :: rest) =
        readContent d .utf8 .complete .document closed stack (us.reverse ++ nodes) ('<' :: rest)

section Elements

variable {tag : String} {as : List Attribute} (hd : ∀ name, d.isTokens tag.toList name = false)
  (ht : Alphabet.utf8.IsName tag.toList) (has : Attribute.AreWritable as) (closed : Entities)
  (stack : List OpenElement) (nodes : List Node)
include hd ht has

/-- The start tag of an element is scanned, and its attributes are read. -/
theorem exists_startTag {s rest : List Char} {isEmpty : Bool}
    (hs : scanTagEnd? s = some (.ok (isEmpty, rest))) :
    ∃ ws, scanContent .utf8 .complete ('<' :: (tag.toList ++ as.flatMap Attribute.write ++ s)) =
        .ok (.startTag ⟨tag.toList, ws, isEmpty⟩, rest) ∧
      ∀ tagAt, readAttributes d .utf8 closed tagAt tag.toList [] ws = .ok as := by
  obtain ⟨ws, hws, hsh⟩ := scanContent_startTag .complete ht has.isWritable hs
  refine ⟨ws, hws, ?_⟩
  intro tagAt
  exact readAttributes_shows hd closed tagAt hsh [] has.nodup (fun _ _ => List.not_mem_nil)

/-- An element between its tags is read. -/
theorem readContent_element {v : List Char} {us : List Node} (hv : ReadsAs d v us)
    (rest : List Char) :
    readContent d .utf8 .complete .document closed stack nodes
        ('<' :: (tag.toList ++ as.flatMap Attribute.write ++
          '>' :: (v ++ '<' :: '/' :: (tag.toList ++ '>' :: rest)))) =
      readOn d .utf8 .complete .document closed stack (.element tag as us :: nodes) rest := by
  obtain ⟨ws, hws, hr⟩ := exists_startTag hd ht has closed
    (s := '>' :: (v ++ '<' :: '/' :: (tag.toList ++ '>' :: rest))) rfl
  have he := scanContent_endTag Alphabet.separates_utf8 .complete ht rest
  rw [readContent_startTag (endOfContent?_eq_none List.mem_cons_self) hws rfl (hr _),
    hv closed _ [] _ (List.cons_ne_nil _ _),
    readContent_endTag (endOfContent?_eq_none List.mem_cons_self) he]
  simp

/-- An element that its own tag closes is read. -/
theorem readContent_empty (rest : List Char) :
    readContent d .utf8 .complete .document closed stack nodes
        ('<' :: (tag.toList ++ as.flatMap Attribute.write ++ '/' :: '>' :: rest)) =
      readOn d .utf8 .complete .document closed stack (.element tag as [] :: nodes) rest := by
  obtain ⟨ws, hws, hr⟩ := exists_startTag hd ht has closed (s := '/' :: '>' :: rest) rfl
  rw [readContent_emptyTag (endOfContent?_eq_none List.mem_cons_self) hws rfl (hr _)]
  simp

/-- An element between its tags reads as itself, in front of what follows it. -/
theorem ReadsAs.element {v w : List Char} {us ts : List Node} (hv : ReadsAs d v us)
    (hw : ReadsAs d w ts) :
    ReadsAs d ('<' :: tag.toList ++ as.flatMap Attribute.write ++ '>' :: v ++ "</".toList ++
      tag.toList ++ ['>'] ++ w) (.element tag as us :: ts) := by
  intro closed stack nodes rest hs
  have he := readContent_element hd ht has closed stack nodes hv (w ++ '<' :: rest)
  -- The element is not the root, so reading goes on.
  rw [readOn, if_neg fun h => hs h.2, hw closed stack _ rest hs] at he
  simpa using he

/-- An element that its own tag closes reads as itself, in front of what follows it. -/
theorem ReadsAs.empty {w : List Char} {ts : List Node} (hw : ReadsAs d w ts) :
    ReadsAs d ('<' :: tag.toList ++ as.flatMap Attribute.write ++ "/>".toList ++ w)
      (.element tag as [] :: ts) := by
  intro closed stack nodes rest hs
  have he := readContent_empty hd ht has closed stack nodes (w ++ '<' :: rest)
  rw [readOn, if_neg fun h => hs h.2, hw closed stack _ rest hs] at he
  simpa using he

end Elements

/-! ## Whole trees -/

/-- A text over which reading goes on does not count. -/
theorem ReadsAs.skip {v w : List Char} {ts : List Node} (hw : ReadsAs d w ts)
    (hv : ∀ closed stack nodes rest,
      readContent d .utf8 .complete .document closed stack nodes (v ++ (w ++ '<' :: rest)) =
        readContent d .utf8 .complete .document closed stack nodes (w ++ '<' :: rest)) :
    ReadsAs d (v ++ w) ts := by
  intro closed stack nodes rest hs
  rw [List.append_assoc, hv, hw closed stack nodes rest hs]

/-- **What writable nodes are written as reads as their elements.** -/
theorem exists_readsAs (hd : ∀ tag name, d.isTokens tag name = false) {ns : List Node}
    {w : List Char} (h : Written ns w) (hn : AreWritable ns) :
    ∃ us, ReadsAs d w us ∧ ∀ depth, SameElements (preorderAll depth ns) (preorderAll depth us) := by
  induction h with
  | nil => exact ⟨[], fun _ _ _ _ _ => rfl, fun _ => .nil⟩
  | @element tag as bs cs ns v w hp hv hw ihv ihw =>
    obtain ⟨⟨ht, has, hcs⟩, hns⟩ := hn
    obtain ⟨us, hus, hsu⟩ := ihv hcs
    obtain ⟨ts, hts, hst⟩ := ihw hns
    refine ⟨.element tag bs us :: ts, .element (hd _) ht (has.perm hp) hus hts, ?_⟩
    intro depth
    exact .cons ⟨rfl, rfl, hp⟩ (List.rel_append (hsu (depth + 1)) (hst depth))
  | @empty tag as bs ns w hp hw ih =>
    obtain ⟨⟨ht, has, -⟩, hns⟩ := hn
    obtain ⟨ts, hts, hst⟩ := ih hns
    refine ⟨.element tag bs [] :: ts, .empty (hd _) ht (has.perm hp) hts, ?_⟩
    intro depth
    exact .cons ⟨rfl, rfl, hp⟩ (hst depth)
  -- What is no element is skipped, and adds no element.
  | @text s ns w hw ih =>
    obtain ⟨hs, hns⟩ := hn
    obtain ⟨ts, hts, hst⟩ := ih hns
    refine ⟨ts, hts.skip ?_, hst⟩
    intro closed stack nodes rest
    exact readContent_escape closed stack nodes hs (not_closesSection_written hw rest) (by simp)
  | @cdata s ns w hw ih =>
    obtain ⟨⟨hs, hc⟩, hns⟩ := hn
    obtain ⟨ts, hts, hst⟩ := ih hns
    refine ⟨ts, hts.skip ?_, hst⟩
    intro closed stack nodes rest
    rw [write_cdata, ← readContent_ignorable (endOfContent?_eq_none (by simp))
      (scanContent_cdata hs hc (w ++ '<' :: rest))]
    simp
  | @comment s ns w hw ih =>
    obtain ⟨⟨hs, hc, hl⟩, hns⟩ := hn
    obtain ⟨ts, hts, hst⟩ := ih hns
    refine ⟨ts, hts.skip ?_, hst⟩
    intro closed stack nodes rest
    rw [write_comment, ← readContent_ignorable (endOfContent?_eq_none (by simp))
      (scanContent_comment .utf8 .complete hs hc hl (w ++ '<' :: rest))]
    simp

end FxmlWiring.Markup
