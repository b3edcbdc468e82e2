import FxmlWiring.Proofs.Markup.Recognized

/-! # What content starts with

The tokens of content without their places in the text are **lexemes**. `Starts` says which lexeme
stands at the front of a text, by the grammar alone, and the scan of content finds just that one
(`starts_of_scanContent`, `Starts.exists_scanContent`), however the document ends. -/

namespace FxmlWiring.Markup

open Text

variable {a : Alphabet}

/-- A token of content without its places in the text. -/
inductive Lexeme where
  | startTag (name : List Char) (attributes : List (List Char × List Char)) (isEmpty : Bool)
  | endTag (name : List Char)
  | reference (r : Reference)
  | ignorable
  | declaration

/-- The token without its places in the text. -/
def ContentToken.lexeme : ContentToken → Lexeme
  | startTag tag => .startTag tag.name (tag.attributes.map (·.entry)) tag.isEmpty
  | endTag name _ => .endTag name
  | reference r => .reference r
  | ignorable => .ignorable
  | declaration => .declaration

/-- What stands at the front of content, and the rest behind it. The end of a `CDATA` section is no
character data. -/
inductive Starts (a : Alphabet) : List Char → Lexeme → List Char → Prop
  | startTag {isEmpty : Bool} {name w : List Char} {xs : List (List Char × List Char)}
      (hw : a.dialect.IsTag isEmpty name xs w) (rest : List Char) :
      Starts a (w ++ rest) (.startTag name xs isEmpty) rest
  | endTag {name w : List Char} (hw : a.dialect.IsEndTag name w) (rest : List Char) :
      Starts a (w ++ rest) (.endTag name) rest
  | reference {w : List Char} {r : Reference} (hw : a.dialect.Spells w r) (rest : List Char) :
      Starts a (w ++ rest) (.reference r) rest
  | comment {w : List Char} (hw : IsComment w) (rest : List Char) :
      Starts a (w ++ rest) .ignorable rest
  | cdata {w : List Char} (hw : IsCdata w) (rest : List Char) :
      Starts a (w ++ rest) .ignorable rest
  | instruction {w : List Char} (hw : a.dialect.IsInstruction w) (rest : List Char) :
      Starts a (w ++ rest) .ignorable rest
  | declaration {s : List Char} (hn : a.IsName ['x', 'm', 'l']) (hs : IsInstructionText s)
      (rest : List Char) : Starts a ("<?xml".toList ++ s ++ "?>".toList ++ rest) .declaration rest
  | character {c : Char} {rest : List Char} (hc : isLegal c = true) (hm : c ≠ '<' ∧ c ≠ '&')
      (hr : ¬ [']', ']', '>'] <+: c :: rest) : Starts a (c :: rest) .ignorable rest

/-- A token comes from what was scanned for it. -/
theorem Scan.exists_of_toToken {α : Type} {ending : Ending} {text rest : List Char}
    {scanned : Scan α} {f : α → ContentToken} {t : ContentToken}
    (h : scanned.toToken ending text f = .ok (t, rest)) :
    ∃ x, scanned = .ok (x, rest) ∧ t = f x := by
  unfold Scan.toToken at h
  split at h
  · cases h
  · rename_i x r
    obtain ⟨rfl, rfl⟩ := Prod.mk.inj (Except.ok.inj h)
    exact ⟨x, rfl, rfl⟩

/-- **What is scanned stands at the front.** -/
theorem starts_of_scanContent (ha : a.Separates) (hu : ∀ c, 0 < a.units c) {ending : Ending}
    {text rest : List Char} {t : ContentToken}
    (h : scanContent a ending text = .ok (t, rest)) : Starts a text t.lexeme rest := by
  unfold scanContent at h
  split at h
  · cases h
  · obtain ⟨n, hn, rfl⟩ := Scan.exists_of_toToken h
    obtain ⟨w, hw, hs⟩ := (scanEndTag_eq_ok_iff ha).1 hn
    rw [hs]
    exact .endTag hw rest
  · unfold ignoring at h
    split at h
    · cases h
    · rename_i hc
      obtain ⟨rfl, rfl⟩ := Prod.mk.inj (Except.ok.inj h)
      obtain ⟨w, hw, hs⟩ := scanComment_eq_ok_iff.1 hc
      rw [hs]
      exact .comment hw _
  · rename_i s
    split at h
    · cases h
    · rename_i u hcdata
      cases hr : readCdata ending u with
      | error e =>
        rw [hr] at h
        cases h
      | ok r =>
        rw [hr] at h
        obtain ⟨rfl, rfl⟩ := Prod.mk.inj (Except.ok.inj h)
        obtain ⟨v, hv, rfl⟩ := readCdata_eq_ok_iff.1 hr
        obtain rfl := (scanCdataStart_eq_ok_iff hu).1 hcdata
        have hs := Starts.cdata (a := a) ⟨v, hv, rfl⟩ r
        simpa [ContentToken.lexeme] using hs
  · cases h
  · cases h
  · rename_i s
    obtain ⟨target, ht, rfl⟩ := Scan.exists_of_toToken h
    obtain ⟨u, hn, hx, hu, rfl⟩ := (scanInstruction_eq_ok_iff ha).1 ht
    split
    · rename_i hxml
      subst hxml
      have hs := Starts.declaration hn hu rest
      simpa [ContentToken.lexeme] using hs
    · rename_i hxml
      have hs :=
        Starts.instruction ⟨target, u, hn, by simpa using fun h => hxml (hx h), hu, rfl⟩ rest
      simpa [ContentToken.lexeme] using hs
  · obtain ⟨tag, htag, rfl⟩ := Scan.exists_of_toToken h
    obtain ⟨w, hw, hs⟩ := isTag_of_scanStartTag ha htag
    rw [hs]
    exact .startTag hw rest
  · obtain ⟨r, hr, rfl⟩ := Scan.exists_of_toToken h
    obtain ⟨w, hw, hs⟩ := (Reference.scan_eq_ok_iff ha).1 hr
    rw [hs]
    exact .reference hw rest
  · cases h
  · rename_i c s _ _ _ _ _ hlt hamp hclose
    split at h
    · rename_i hc
      obtain ⟨rfl, rfl⟩ := Prod.mk.inj (Except.ok.inj h)
      refine .character hc ⟨?_, ?_⟩ ?_
      · rintro rfl
        exact hlt rfl
      · rintro rfl
        exact hamp rfl
      · rintro ⟨t, ht⟩
        obtain ⟨rfl, rfl⟩ := List.cons.inj ht
        exact hclose _ rfl rfl
    · cases h

/-- **What stands at the front is scanned.** -/
theorem Starts.exists_scanContent (ha : a.Separates) (hu : ∀ c, 0 < a.units c)
    {text rest : List Char} {l : Lexeme} (h : Starts a text l rest) (ending : Ending) :
    ∃ t, scanContent a ending text = .ok (t, rest) ∧ t.lexeme = l := by
  cases h with
  | @startTag isEmpty name w xs hw =>
    obtain ⟨t, b, hn, -, -, hw'⟩ := id hw
    have hs : '<' :: (name ++ (t ++ (b ++ tagEnd isEmpty) ++ rest)) = w ++ rest := by
      rw [hw']
      simp
    obtain ⟨tag, htag, rfl, rfl, rfl⟩ := exists_scanStartTag ha hw hs
    refine ⟨.startTag tag, ?_, rfl⟩
    rw [← hs, scanContent_isName ha ending hn, htag]
    rfl
  | @endTag name w hw =>
    obtain ⟨t, rfl⟩ : ∃ t, w = '<' :: '/' :: t := by
      obtain ⟨b, -, -, rfl⟩ := hw
      exact ⟨_, rfl⟩
    have hscan : scanEndTag a (t ++ rest) = .ok (name, rest) :=
      (scanEndTag_eq_ok_iff ha).2 ⟨_, hw, rfl⟩
    refine ⟨.endTag name (t ++ rest), ?_, rfl⟩
    rw [List.cons_append, List.cons_append, scanContent, hscan]
    rfl
  | @reference w r hw =>
    obtain ⟨t, rfl⟩ : ∃ t, w = '&' :: t := by cases hw <;> exact ⟨_, rfl⟩
    have hscan : Reference.scan a (t ++ rest) = .ok (r, rest) :=
      (Reference.scan_eq_ok_iff ha).2 ⟨_, hw, rfl⟩
    refine ⟨.reference r, ?_, rfl⟩
    rw [List.cons_append, scanContent, hscan]
    rfl
  | @comment w hw =>
    obtain ⟨t, rfl⟩ : ∃ t, w = '<' :: '!' :: '-' :: t := by
      obtain ⟨u, -, rfl⟩ := hw
      exact ⟨_, rfl⟩
    have hscan : scanComment (t ++ rest) = .ok rest := scanComment_eq_ok_iff.2 ⟨_, hw, rfl⟩
    refine ⟨.ignorable, ?_, rfl⟩
    rw [List.cons_append, List.cons_append, List.cons_append, scanContent, hscan]
    rfl
  | @cdata w hw =>
    obtain ⟨u, hu', rfl⟩ := hw
    have hstart : scanCdataStart a ending ("CDATA[".toList ++ (u ++ ']' :: ']' :: '>' :: rest)) =
        .ok (u ++ ']' :: ']' :: '>' :: rest) := (scanCdataStart_eq_ok_iff hu).2 rfl
    have hread : readCdata ending (u ++ ']' :: ']' :: '>' :: rest) = .ok rest :=
      readCdata_eq_ok_iff.2 ⟨u, hu', rfl⟩
    refine ⟨.ignorable, ?_, rfl⟩
    have hs : "<![CDATA[".toList ++ u ++ "]]>".toList ++ rest =
        '<' :: '!' :: '[' :: ("CDATA[".toList ++ (u ++ ']' :: ']' :: '>' :: rest)) := by simp
    rw [hs, scanContent, hstart]
    simp only [hread]
    rfl
  | @instruction w hw =>
    obtain ⟨target, u, hn, hx, hu', rfl⟩ := hw
    have hxml : target ≠ ['x', 'm', 'l'] := by
      rintro rfl
      exact absurd hx (by decide)
    have hscan : scanInstruction a (target ++ (u ++ '?' :: '>' :: rest)) = .ok (target, rest) :=
      (scanInstruction_eq_ok_iff ha).2 ⟨u, hn, by simp [hx], hu', rfl⟩
    refine ⟨.ignorable, ?_, rfl⟩
    have hs : "<?".toList ++ target ++ u ++ "?>".toList ++ rest =
        '<' :: '?' :: (target ++ (u ++ '?' :: '>' :: rest)) := by simp
    rw [hs, scanContent, hscan, Scan.toToken]
    simp only [if_neg hxml]
  | @declaration u hn hu' =>
    have hscan : scanInstruction a (['x', 'm', 'l'] ++ (u ++ '?' :: '>' :: rest)) =
        .ok (['x', 'm', 'l'], rest) :=
      (scanInstruction_eq_ok_iff ha).2 ⟨u, hn, fun _ => rfl, hu', rfl⟩
    refine ⟨.declaration, ?_, rfl⟩
    have hs : "<?xml".toList ++ u ++ "?>".toList ++ rest =
        '<' :: '?' :: (['x', 'm', 'l'] ++ (u ++ '?' :: '>' :: rest)) := by simp
    rw [hs, scanContent, hscan]
    rfl
  | @character c _ hc hm hr =>
    have hclose : ∀ t, c :: rest ≠ ']' :: ']' :: '>' :: t := fun t ht => hr ⟨t, ht.symm⟩
    refine ⟨.ignorable, ?_, rfl⟩
    rw [scanContent.eq_def]
    split <;> simp_all

end FxmlWiring.Markup
