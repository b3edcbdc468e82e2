import FxmlWiring.Proofs.Markup.Declared
import FxmlWiring.Proofs.Markup.RoundTrip
import FxmlWiring.Proofs.Markup.WellFormedContent

/-! # Documents that are well formed

A text without a document type is read exactly if the grammar calls it a document, with the names of
the fourth edition and the predefined entities; everything else is malformed
(`extract_succeeds_iff_isDocument`). -/

namespace FxmlWiring.Markup

open Text

/-! ## From the prolog to the epilog -/

/-- References do not matter around the root element. -/
theorem isMisc_plain_iff {a : Alphabet} {s : List Char} :
    a.plain.IsMisc s ↔ a.dialect.IsMisc s := by
  have hn : ∀ n, a.plain.isName n ↔ a.dialect.isName n := fun _ => Iff.rfl
  exact ⟨.mono fun n => (hn n).1, .mono fun n => (hn n).2⟩

namespace Source

/-- The words of the fourth edition are the names of documents in UTF-8. -/
theorem plain_utf8 : Alphabet.utf8.plain = FourthEdition.dialect := by
  rw [Alphabet.plain, Alphabet.isName_utf8]
  rfl

/-- Nothing is declared before the prolog. -/
theorem isPlain_opening : Declarations.IsPlain { standalone := false } :=
  ⟨rfl, rfl⟩

variable {shown body : List Char}

/-- **A document is read.** -/
theorem exists_readRoot (h : FourthEdition.dialect.IsDocument body) (shown : List Char) :
    ∃ root, (Source.mk .utf8 shown body .complete).readRoot false = .ok root := by
  have ha := Alphabet.separates_utf8
  rw [← plain_utf8] at h
  obtain ⟨before, w, after, hb, hw, hafter, rfl⟩ := h
  have hb := isMisc_plain_iff.1 hb
  have hafter := isMisc_plain_iff.1 hafter
  obtain ⟨x, hx⟩ := hw.exists_readsTo ha isPlain_opening after
  have hroot : readContent { standalone := false } .utf8 .complete .document [] [] [] (w ++ after) =
      .ok ([x], after) := (readContent_eq_ok_iff ha Alphabet.units_utf8_pos).2 hx
  have hprolog : Prolog.readProlog .utf8 .complete .opening { standalone := false }
      (before ++ (w ++ after)) = .ok ({ standalone := false }, w ++ after) := by
    obtain ⟨n, t, hn, rfl⟩ := hw.exists_cons
    rw [Prolog.readProlog_opening_of_isMisc ha .complete hb, List.cons_append, List.append_assoc]
    exact readProlog_elementStart hn _ _
  refine ⟨x, ?_⟩
  simp only [readRoot, hprolog]
  rw [hroot]
  simp only [(Prolog.readEpilog_eq_ok_iff ha).2 hafter]

/-- **What is not read is malformed**, and what is read is a document. -/
theorem readRoot_cases (hd : ¬ "<!DOCTYPE".toList <:+: body) (shown : List Char) :
    (∃ cause p, (Source.mk .utf8 shown body .complete).readRoot false =
        .error (.malformed cause p)) ∨
      FourthEdition.dialect.IsDocument body := by
  have ha := Alphabet.separates_utf8
  rw [← plain_utf8]
  rcases Prolog.readProlog_opening_cases (d := { standalone := false }) ha hd with
    ⟨f, hf⟩ | ⟨before, c, s, hb, hbody, hc, hp⟩
  · left
    simp only [readRoot, hf]
    exact ⟨_, _, rfl⟩
  · cases hr : readContent { standalone := false } .utf8 .complete .document [] [] []
        ('<' :: c :: s) with
    | error f =>
      left
      simp only [readRoot, hp]
      rw [hr]
      exact ⟨_, _, rfl⟩
    | ok x =>
      obtain ⟨out, after⟩ := x
      cases he : Prolog.readEpilog .utf8 .complete after with
      | error f =>
        left
        simp only [readRoot, hp]
        rw [hr]
        split
        · rename_i h
          cases h
        · rename_i h
          obtain ⟨-, rfl⟩ := Prod.mk.inj (Except.ok.inj h)
          rw [he]
          exact ⟨_, _, rfl⟩
        · exact ⟨_, _, rfl⟩
      | ok u =>
        right
        have hrun := (readContent_eq_ok_iff ha Alphabet.units_utf8_pos).1 hr
        obtain ⟨root, hs, hroot⟩ := hrun.exists_element ha isPlain_opening hc
        have hafter := isMisc_plain_iff.2 ((Prolog.readEpilog_eq_ok_iff ha).1 he)
        exact ⟨before, root, after, isMisc_plain_iff.2 hb, hroot, hafter, by rw [hbody, hs]⟩

/-! ## From the bytes on -/

/-- A text that does not begin with the name of the XML declaration and a blank holds no such
declaration, or an empty one. -/
theorem declaration?_cases (hx : ∀ c t, body = "<?xml".toList ++ c :: t → isSpace c = false)
    (shown : List Char) :
    (Source.mk .utf8 shown body .complete).declaration? = none ∨
      (∃ f, Prolog.readProlog .utf8 .complete .opening { standalone := false } body =
        .error (.fault f)) ∧
      ∃ closing, (Source.mk .utf8 shown body .complete).declaration? = some ([], closing) := by
  cases hd : (Source.mk .utf8 shown body .complete).declaration? with
  | none => exact Or.inl rfl
  | some x =>
    obtain ⟨settings, closing⟩ := x
    obtain ⟨rest, isLast, hs, hu, hb, rfl⟩ := exists_of_declaration? Alphabet.separates_utf8 hd
    have hnil : settings = [] := by
      cases settings with
      | nil => rfl
      | cons c t =>
        have hc := hx c (t ++ '?' :: '>' :: rest) hb
        rw [hu.startsBlank c rfl] at hc
        cases hc
    rw [hnil]
    exact Or.inr ⟨Prolog.readProlog_opening_of_isMisplaced hs (Or.inr (Or.inl rfl)), _, rfl⟩

end Source

/-- A document is longer than one character. -/
theorem FourthEdition.one_lt_length {s : List Char} (h : dialect.IsDocument s) : 1 < s.length := by
  obtain ⟨before, root, after, -, hroot, -, rfl⟩ := h
  obtain ⟨n, t, ⟨c, n', rfl, -⟩, rfl⟩ := hroot.exists_cons
  simp only [List.length_append, List.length_cons]
  omega

/-! ## Texts of characters -/

section Characters

variable {m : String} (hz : '\x00' ∉ m.toList) (hd : ¬ "<!DOCTYPE".toList <:+: m.toList)
  (hx : ∀ c t, Source.withoutMark m.toList = "<?xml".toList ++ c :: t → isSpace c = false)
include hz hd hx

/-- **A text of characters is read if it is a document**, and is malformed if it is not. -/
theorem parse_ofString_cases :
    FourthEdition.dialect.IsDocument (Source.withoutMark m.toList) ∧
        (∃ root, (ofString m).parse = .ok root) ∨
      ¬ FourthEdition.dialect.IsDocument (Source.withoutMark m.toList) ∧
        ∃ cause p, (ofString m).parse = .error (.malformed cause p) := by
  by_cases hm : m.toList = ['<']
  · -- A start that could go on in different encodings.
    right
    constructor
    · intro h
      have hl := FourthEdition.one_lt_length h
      rw [hm] at hl
      exact absurd hl (by decide)
    · refine ⟨.unclosedToken, .start, ?_⟩
      rw [parse, surrogates?_ofString, toBytes_ofString, hm]
      rfl
  · have hdetect := Source.detect_encode_eq (fun h => hz (List.mem_of_mem_take h)) hm
    have hsource := Source.ofFamily_encode_mark m.toList
    have hdoctype : ¬ "<!DOCTYPE".toList <:+: Source.withoutMark m.toList :=
      fun h => hd (h.trans (Source.withoutMark_suffix _).isInfix)
    have hparse : (ofString m).parse = parseAs (ofString m) .utf8
        (if m.toList.head? = some '\ufeff' then 3 else 0) := by
      rw [parse, surrogates?_ofString, toBytes_ofString, hdetect]
    rw [hparse, parseAs, toBytes_ofString, hsource]
    generalize Source.withoutMark m.toList = body at hx hdoctype
    dsimp only
    rcases Source.declaration?_cases hx m.toList with hn | ⟨⟨f, hf⟩, closing, hs⟩
    · have hl : (Source.mk .utf8 m.toList body .complete).limit? false = none :=
        Source.limit?_eq_none_of_not_infix Alphabet.separates_utf8 Alphabet.takesBytes_utf8 hdoctype
      rw [hn]
      dsimp only [Source.read]
      rw [hl]
      by_cases h : FourthEdition.dialect.IsDocument body
      · exact Or.inl ⟨h, Source.exists_readRoot h _⟩
      · exact Or.inr ⟨h, (Source.readRoot_cases hdoctype _).resolve_right h⟩
    · -- An empty declaration is no declaration, and its target is not one of an instruction.
      right
      constructor
      · intro h
        obtain ⟨root, hroot⟩ := Source.exists_readRoot h m.toList
        simp only [Source.readRoot, hf] at hroot
        cases hroot
      · rw [hs]
        exact ⟨_, _, rfl⟩

end Characters

/-! ## Texts -/

/-- A text that is a document, behind a mark of the byte order or without one. -/
def IsDocumentText (text : List CodePoint) : Prop :=
  ∃ m : String, text = CodePoint.ofString m ∧
    FourthEdition.dialect.IsDocument (Source.withoutMark m.toList)

/-- A text of characters is a document if its characters are. -/
theorem isDocumentText_ofString_iff {m : String} : IsDocumentText (CodePoint.ofString m) ↔
    FourthEdition.dialect.IsDocument (Source.withoutMark m.toList) := by
  constructor
  · rintro ⟨m', hm, h⟩
    rwa [CodePoint.ofString_injective hm]
  · exact fun h => ⟨m, rfl, h⟩

/-- A document has no surrogates. -/
theorem IsDocumentText.surrogates?_eq_none {text : List CodePoint} (h : IsDocumentText text) :
    Text.surrogates? text = none := by
  obtain ⟨m, rfl, -⟩ := h
  exact Text.surrogates?_ofString m

/-- **Malformed markup is never read as markup that asks for nothing.** The requirements of a text
without zero characters, without a document type and without an XML declaration are a list exactly
if the text, less a mark of the byte order, is a well-formed document, for all settings. Any other
text is malformed exactly if it has no surrogates; surrogates are complained about as such. -/
theorem extract_succeeds_iff_isDocument {text : List CodePoint}
    (hz : .character '\x00' ∉ text) (hd : ¬ CodePoint.ofString "<!DOCTYPE" <:+: text)
    (hx : ∀ c t, text = CodePoint.ofString "<?xml" ++ .character c :: t ∨
      text = CodePoint.ofString "\ufeff<?xml" ++ .character c :: t → isSpace c = false)
    (s : Settings) :
    ((∃ rs, extract s (.decoded text) = .ok rs) ↔ IsDocumentText text) ∧
      (¬ IsDocumentText text →
        ((∃ cause p, extract s (.decoded text) = .error (.malformed cause p)) ↔
          Text.surrogates? text = none)) ∧
      ∀ x, Text.surrogates? text = some x →
        extract s (.decoded text) = .error (.surrogates x) := by
  have hsurrogates : ∀ x, Text.surrogates? text = some x →
      extract s (.decoded text) = .error (.surrogates x) := by
    intro x h
    rw [extract, parse, surrogates?, h]
    rfl
  cases h : Text.surrogates? text with
  | some x =>
    have hn : ¬ IsDocumentText text := by
      intro hdoc
      cases h.symm.trans hdoc.surrogates?_eq_none
    rw [hsurrogates x h]
    exact ⟨by simp [hn], fun _ => by simp, fun y hy => by rw [Option.some.inj hy]⟩
  | none =>
    obtain ⟨m, rfl⟩ : ∃ m, text = CodePoint.ofString m := ⟨_, eq_ofString_of_surrogates? h⟩
    have hz : '\x00' ∉ m.toList := fun hmem => hz (List.mem_map_of_mem hmem)
    have hd : ¬ "<!DOCTYPE".toList <:+: m.toList := fun hin => hd (hin.map _)
    have hx : ∀ c t, Source.withoutMark m.toList = "<?xml".toList ++ c :: t →
        isSpace c = false := by
      intro c t hm
      refine hx c (t.map .character) ?_
      rcases Source.eq_or_eq_of_withoutMark hm with hm | hm
      · left
        simp [CodePoint.ofString, hm]
      · right
        simp [CodePoint.ofString, hm]
    have hcharacters : ∀ x, none = some x →
        extract s (.decoded (CodePoint.ofString m)) = .error (.surrogates x) := by
      intro x hx
      cases hx
    rw [isDocumentText_ofString_iff]
    rcases parse_ofString_cases hz hd hx with ⟨hdoc, root, hp⟩ | ⟨hdoc, cause, p, hp⟩
    · have hok : extract s (ofString m) = .ok (Requirement.collect s root) := by
        rw [extract, hp]
        rfl
      exact ⟨iff_of_true ⟨_, hok⟩ hdoc, fun hn => absurd hdoc hn, hcharacters⟩
    · have herr : extract s (ofString m) = .error (.malformed cause p) := by
        rw [extract, hp]
        rfl
      refine ⟨iff_of_false ?_ hdoc, fun _ => iff_of_true ⟨cause, p, herr⟩ rfl, hcharacters⟩
      rintro ⟨rs, hrs⟩
      cases herr.symm.trans hrs

/-- A comment and an element behind a mark. -/
def markedElement : List CodePoint :=
  CodePoint.ofString "\ufeff<!--x--><a/>"

/-- The comment and the element are a document, and are read. -/
theorem marked_element_is_read :
    .character '\x00' ∉ markedElement ∧ ¬ CodePoint.ofString "<!DOCTYPE" <:+: markedElement ∧
      IsDocumentText markedElement ∧ ∃ rs, extract .standard (.decoded markedElement) = .ok rs := by
  have hz : .character '\x00' ∉ markedElement := by decide
  have hd : ¬ CodePoint.ofString "<!DOCTYPE" <:+: markedElement := by decide
  have hdoc : IsDocumentText markedElement := by
    have hcomment : IsComment "<!--x-->".toList :=
      ⟨['x'], ⟨fun c hc => by rw [List.mem_singleton.1 hc]; decide, by decide, by decide⟩, rfl⟩
    have hname : FourthEdition.IsName ['a'] :=
      ⟨'a', [], rfl, Or.inl (Or.inl ⟨(0x61, 0x7A), by decide, by decide⟩), by simp⟩
    exact ⟨_, rfl, "<!--x-->".toList, "<a/>".toList, [], .cons (.comment hcomment) .nil,
      .empty ⟨[], ⟨[], [], hname, .nil, List.forall_mem_nil _, rfl⟩, .nil⟩, .nil, rfl⟩
  refine ⟨hz, hd, hdoc, (extract_succeeds_iff_isDocument hz hd ?_ .standard).1.2 hdoc⟩
  rintro c t (h | h)
  · cases (List.cons.inj h).1
  · cases (List.cons.inj (List.cons.inj (List.cons.inj h).2).2).1

/-- An element with a surrogate in it. -/
def loneSurrogate : List CodePoint :=
  CodePoint.ofString "<a>" ++ .surrogate 0 :: CodePoint.ofString "</a>"

/-- An element with a surrogate in it is no document, but it is not malformed either. -/
theorem surrogate_is_not_malformed :
    .character '\x00' ∉ loneSurrogate ∧ ¬ CodePoint.ofString "<!DOCTYPE" <:+: loneSurrogate ∧
      (∀ c t, loneSurrogate = CodePoint.ofString "<?xml" ++ .character c :: t ∨
        loneSurrogate = CodePoint.ofString "\ufeff<?xml" ++ .character c :: t →
          isSpace c = false) ∧
      ¬ IsDocumentText loneSurrogate ∧
      extract .standard (.decoded loneSurrogate) = .error (.surrogates ⟨3, 0, 0⟩) := by
  refine ⟨by decide, by decide, ?_, ?_, rfl⟩
  · rintro c t (h | h)
    · cases (List.cons.inj (List.cons.inj h).2).1
    · cases (List.cons.inj h).1
  · intro h
    cases h.surrogates?_eq_none

end FxmlWiring.Markup
