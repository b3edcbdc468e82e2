import FxmlWiring.Proofs.Markup.Declared
import FxmlWiring.Proofs.Markup.LimitPlace
import FxmlWiring.Proofs.Markup.Source
import FxmlWiring.Proofs.Text.Position

/-! # Positions of faults

A text that is malformed has a fault (`parse_ofString_eq_malformed_iff`), and the text from the
faulty place on is an end of it (`TextHasFault.isIn`). So the position that is reported is where the
text in front of that place ends: on one of its lines, and not behind the end of that line. -/

namespace FxmlWiring.Markup

open Text

/-! ## The XML declaration -/

namespace XmlDeclaration

/-- What a setting tells of the text around it is in the text. -/
structure Setting.IsIn (text : List Char) (x : Setting) : Prop where
  nameAt : x.nameAt <:+ text
  valueAt : x.valueAt <:+ text

theorem Setting.IsIn.mono {s t : List Char} (h : s <:+ t) {x : Setting} (hx : x.IsIn s) :
    x.IsIn t :=
  ⟨hx.nameAt.trans h, hx.valueAt.trans h⟩

theorem readValue_in (s : List Char) :
    Gives (· <:+ s) (fun x => x.2.1 <:+ s ∧ x.2.2 <:+ s) (readValue s) := by
  have hs := skipSpace_suffix s
  unfold readValue
  split
  · exact List.nil_suffix
  · rename_i q t h
    rw [h] at hs
    have ht : t <:+ s := (List.suffix_cons _ _).trans hs
    have hd : t.dropWhile isValueCharacter <:+ s := (List.dropWhile_suffix _).trans ht
    split
    · split
      · rename_i c rest h
        rw [h] at hd
        split
        · exact ⟨ht, (List.suffix_cons _ _).trans hd⟩
        · exact hd
      · exact List.nil_suffix
    · exact hs

theorem readSetting_in (s : List Char) :
    Gives (· <:+ s) (fun x => (∀ y ∈ x.1, y.IsIn s) ∧ x.2 <:+ s) (readSetting s) := by
  have hnone : Gives (· <:+ s)
      (fun x : Option Setting × List Char => (∀ y ∈ x.1, y.IsIn s) ∧ x.2 <:+ s)
      (.ok (none, s) : Except (List Char) _) :=
    ⟨fun y hy => (nomatch hy : y.IsIn s), List.suffix_rfl⟩
  have hat := skipSpace_suffix s
  unfold readSetting
  split
  · exact hnone
  · split
    · exact List.suffix_rfl
    · split
      · exact hnone
      · dsimp only
        have hleft := (skipSpace_suffix _).trans
          ((List.dropWhile_suffix isNameCharacter).trans hat)
        split
        · rename_i rest h
          rw [h] at hleft
          have hvalue := readValue_in rest
          have hrest := (List.suffix_cons _ _).trans hleft
          split
          · exact hat
          · split
            · rename_i h
              exact (hvalue.of_error h).trans hrest
            · rename_i h
              obtain ⟨hv, hr⟩ := hvalue.of_ok h
              refine ⟨?_, hr.trans hrest⟩
              rintro y ⟨⟩
              exact ⟨hat, hv.trans hrest⟩
        · exact hleft

section Settings

variable {text : List Char} {encoding : Option (List Char × List Char)} {x : Setting}
  {rest : List Char}

theorem readStandalone_in (hx : x.IsIn text) (hrest : rest <:+ text) :
    Gives (· <:+ text) (fun _ => True) (readStandalone encoding x rest) := by
  unfold readStandalone
  split
  · exact hx.nameAt
  · split
    · exact hx.valueAt
    · split
      · exact (skipSpace_suffix rest).trans hrest
      · trivial

theorem readEncoding_in (hx : x.IsIn text) (hrest : rest <:+ text) :
    Gives (· <:+ text) (fun _ => True) (readEncoding x rest) := by
  have hsetting := readSetting_in rest
  unfold readEncoding
  split
  · split
    · split
      · split
        · rename_i h
          exact (hsetting.of_error h).trans hrest
        · trivial
        · rename_i h
          obtain ⟨hy, hr⟩ := hsetting.of_ok h
          exact readStandalone_in ((hy _ rfl).mono hrest) (hr.trans hrest)
      · exact hx.valueAt
    · exact hx.valueAt
  · exact readStandalone_in hx hrest

end Settings

/-- **What is wrong with the settings of a declaration is in their text.** -/
theorem read_in (s : List Char) : Gives (· <:+ s) (fun _ => True) (read s) := by
  have hsetting := readSetting_in s
  unfold read
  split
  · rename_i h
    exact hsetting.of_error h
  · rename_i h
    exact (hsetting.of_ok h).2
  · rename_i x rest h
    obtain ⟨hx, hrest⟩ := hsetting.of_ok h
    have hx := hx x rfl
    have hnext := readSetting_in rest
    split
    · exact hx.nameAt
    · split
      · rename_i h
        exact (hnext.of_error h).trans hrest
      · trivial
      · rename_i y rest' h
        obtain ⟨hy, hr⟩ := hnext.of_ok h
        exact readEncoding_in ((hy y rfl).mono hrest) (hr.trans hrest)

end XmlDeclaration

/-! ## Faults of documents -/

namespace Source

/-- The fault that ends the reading of a root: before the root element, in it, or after it. -/
inductive HasRootFault (s : Source) (standalone : Bool) : Fault → Prop
  | prolog {f : Fault} (hp : Prolog.readProlog s.alphabet s.ending .opening { standalone } s.body =
      .error (.fault f)) : HasRootFault s standalone f
  | content {d : Declarations} {text : List Char} {f : Fault}
      (hp : Prolog.readProlog s.alphabet s.ending .opening { standalone } s.body = .ok (d, text))
      (hc : readContent d s.alphabet s.ending .document d.entities [] [] text = .error f) :
      HasRootFault s standalone f
  | epilog {d : Declarations} {text rest : List Char} {root : Node} {f : Fault}
      (hp : Prolog.readProlog s.alphabet s.ending .opening { standalone } s.body = .ok (d, text))
      (hc : readContent d s.alphabet s.ending .document d.entities [] [] text = .ok ([root], rest))
      (he : Prolog.readEpilog s.alphabet s.ending rest = .error f) : HasRootFault s standalone f
  | rootless {d : Declarations} {text rest : List Char} {nodes : List Node}
      (hp : Prolog.readProlog s.alphabet s.ending .opening { standalone } s.body = .ok (d, text))
      (hc : readContent d s.alphabet s.ending .document d.entities [] [] text = .ok (nodes, rest))
      (hn : nodes.length ≠ 1) : HasRootFault s standalone ⟨.noElement, rest⟩

variable {s : Source} {standalone : Bool} {f : Fault} {cause : Cause} {p : Position}

/-- A root cannot be read if it has a fault, and the position is that of the fault. -/
theorem readRoot_eq_malformed_iff : s.readRoot standalone = .error (.malformed cause p) ↔
    ∃ f, s.HasRootFault standalone f ∧ f.cause = cause ∧ f.position s.shown = p := by
  constructor
  · intro h
    -- One case for each place where reading may end.
    rw [readRoot] at h
    split at h
    · rename_i f hp
      cases h
      exact ⟨f, .prolog hp, rfl, rfl⟩
    · cases h
    · rename_i d text hp
      split at h
      · rename_i f hc
        cases h
        exact ⟨f, .content hp hc, rfl, rfl⟩
      · rename_i root rest hc
        split at h
        · rename_i f he
          cases h
          exact ⟨f, .epilog hp hc he, rfl, rfl⟩
        · cases h
      · rename_i nodes rest hn hc
        cases h
        refine ⟨_, .rootless hp hc fun hl => ?_, rfl, rfl⟩
        obtain ⟨root, rfl⟩ := List.length_eq_one_iff.1 hl
        exact hn root rfl
  · rintro ⟨f, hf, rfl, rfl⟩
    cases hf with
    | prolog hp => rw [readRoot, hp]; rfl
    | content hp hc => rw [readRoot, hp]; simp only [hc]; rfl
    | epilog hp hc he => rw [readRoot, hp]; simp only [hc, he]; rfl
    | @rootless d text rest nodes hp hc hn =>
      rw [readRoot, hp]
      simp only [hc]
      obtain _ | ⟨root, _ | ⟨node, nodes⟩⟩ := nodes
      · rfl
      · exact absurd rfl hn
      · rfl

/-- The fault of a root is in the body of the source. -/
theorem HasRootFault.isIn (h : s.HasRootFault standalone f) : f.IsIn s.body := by
  cases h with
  | prolog hp => exact (Prolog.readProlog_in _ _ _).of_error hp
  | content hp hc =>
    exact Fault.IsIn.mono ((Prolog.readProlog_in _ _ _).of_ok hp)
      ((readContent_in _ _ _ _ _ _).of_error hc)
  | epilog hp hc he =>
    have hrest := ((readContent_in _ _ _ _ _ _).of_ok hc).trans
      ((Prolog.readProlog_in _ _ _).of_ok hp)
    exact Fault.IsIn.mono hrest ((Prolog.readEpilog_in _).of_error he)
  | rootless hp hc =>
    exact ((readContent_in _ _ _ _ _ _).of_ok hc).trans ((Prolog.readProlog_in _ _ _).of_ok hp)

/-- The fault that ends the reading of a source: the limit on amplification, or one of the root. -/
inductive HasFault (s : Source) (standalone : Bool) : Fault → Prop
  | limit {text : List Char} (h : s.limit? standalone = some text) :
      HasFault s standalone ⟨.amplification, text⟩
  | root {f : Fault} (h : s.limit? standalone = none) (hf : s.HasRootFault standalone f) :
      HasFault s standalone f

/-- **A source is malformed if it has a fault**, and the position is that of the fault. -/
theorem read_eq_malformed_iff : s.read standalone = .error (.malformed cause p) ↔
    ∃ f, s.HasFault standalone f ∧ f.cause = cause ∧ f.position s.shown = p := by
  cases hl : s.limit? standalone with
  | some text =>
    rw [read, hl]
    constructor
    · rintro ⟨⟩
      exact ⟨_, .limit hl, rfl, rfl⟩
    · rintro ⟨f, hf, rfl, rfl⟩
      cases hf with
      | limit h =>
        cases hl.symm.trans h
        rfl
      | root h => cases hl.symm.trans h
  | none =>
    have hread : s.read standalone = s.readRoot standalone := by rw [read, hl]
    rw [hread, readRoot_eq_malformed_iff]
    refine exists_congr fun f => and_congr_left fun _ => ⟨.root hl, fun hf => ?_⟩
    cases hf with
    | limit h => cases hl.symm.trans h
    | root _ hf => exact hf

/-- **The fault of a source is in its body.** -/
theorem HasFault.isIn (h : s.HasFault standalone f) : f.IsIn s.body := by
  cases h with
  | limit h => exact limit?_suffix h
  | root _ hf => exact hf.isIn

/-- A text as a source: all of it is shown, and a mark of the byte order is not read. -/
def ofText (text : List Char) : Source :=
  ⟨.utf8, text, withoutMark text, .complete⟩

end Source

/-- The fault of a text: a single `<` could go on to be anything; what is wrong with an XML
declaration is in its settings; and the rest is read behind the declaration. -/
inductive TextHasFault (text : List Char) : Fault → Prop
  | opening (h : text = ['<']) : TextHasFault text ⟨.unclosedToken, text⟩
  | declaration {settings closing left : List Char} (h : text ≠ ['<'])
      (hd : (Source.ofText text).declaration? = some (settings, closing))
      (hr : XmlDeclaration.read settings = .error left) :
      TextHasFault text ⟨.malformedDeclaration, left ++ closing⟩
  | declared {settings closing : List Char} {contents : XmlDeclaration.Contents} {f : Fault}
      (h : text ≠ ['<']) (hd : (Source.ofText text).declaration? = some (settings, closing))
      (hr : XmlDeclaration.read settings = .ok contents)
      (hf : { Source.ofText text with body := closing.drop 2 }.HasFault contents.standalone f) :
      TextHasFault text f
  | undeclared {f : Fault} (h : text ≠ ['<']) (hd : (Source.ofText text).declaration? = none)
      (hf : (Source.ofText text).HasFault false f) : TextHasFault text f

section Cases

variable {text settings closing : List Char} {f : Fault} (h : text ≠ ['<'])
include h

/-- A text without an XML declaration has the fault of what is read from its start. -/
theorem textHasFault_of_undeclared (hd : (Source.ofText text).declaration? = none) :
    TextHasFault text f ↔ (Source.ofText text).HasFault false f := by
  refine ⟨fun hf => ?_, .undeclared h hd⟩
  cases hf with
  | opening h' => exact absurd h' h
  | declaration _ hd' | declared _ hd' => exact nomatch hd.symm.trans hd'
  | undeclared _ _ hf => exact hf

variable (hd : (Source.ofText text).declaration? = some (settings, closing))
include hd

/-- A text with a malformed XML declaration has no other fault than this one. -/
theorem textHasFault_of_declaration {left : List Char}
    (hr : XmlDeclaration.read settings = .error left) :
    TextHasFault text f ↔ f = ⟨.malformedDeclaration, left ++ closing⟩ := by
  refine ⟨fun hf => ?_, fun hf => hf ▸ .declaration h hd hr⟩
  cases hf with
  | opening h' => exact absurd h' h
  | undeclared _ hd' => exact nomatch hd.symm.trans hd'
  | declaration _ hd' hr' =>
    cases hd.symm.trans hd'
    cases hr.symm.trans hr'
    rfl
  | declared _ hd' hr' =>
    cases hd.symm.trans hd'
    cases hr.symm.trans hr'

/-- A text with an XML declaration has the fault of what is read behind it. -/
theorem textHasFault_of_declared {contents : XmlDeclaration.Contents}
    (hr : XmlDeclaration.read settings = .ok contents) :
    TextHasFault text f ↔
      { Source.ofText text with body := closing.drop 2 }.HasFault contents.standalone f := by
  refine ⟨fun hf => ?_, .declared h hd hr⟩
  cases hf with
  | opening h' => exact absurd h' h
  | undeclared _ hd' => exact nomatch hd.symm.trans hd'
  | declaration _ hd' hr' =>
    cases hd.symm.trans hd'
    cases hr.symm.trans hr'
  | declared _ hd' hr' hf =>
    cases hd.symm.trans hd'
    cases hr.symm.trans hr'
    exact hf

end Cases

/-- **The text from the faulty place on is an end of the text.** -/
theorem TextHasFault.isIn {text : List Char} {f : Fault} (h : TextHasFault text f) :
    f.IsIn text := by
  have hbody : (Source.ofText text).body <:+ text := Source.withoutMark_suffix text
  cases h with
  | opening => exact List.suffix_rfl
  | @declaration settings closing left _ hd hr =>
    obtain ⟨rest, -, -, -, hb, rfl⟩ := Source.exists_of_declaration? Alphabet.separates_utf8 hd
    have hdeclared : settings ++ '?' :: '>' :: rest <:+ (Source.ofText text).body :=
      ⟨['<', '?', 'x', 'm', 'l'], hb.symm⟩
    exact append_suffix (hdeclared.trans hbody) ((XmlDeclaration.read_in settings).of_error hr)
  | @declared settings closing contents f _ hd hr hf =>
    obtain ⟨rest, -, -, -, hb, rfl⟩ := Source.exists_of_declaration? Alphabet.separates_utf8 hd
    have hrest : rest <:+ (Source.ofText text).body :=
      ⟨"<?xml".toList ++ settings ++ ['?', '>'], by rw [hb]; simp; rfl⟩
    exact Fault.IsIn.mono (hrest.trans hbody) hf.isIn
  | undeclared _ hd hf => exact Fault.IsIn.mono hbody hf.isIn

/-- The position of a fault in a text is where the text in front of it ends. -/
theorem Fault.position_append (f : Fault) (before : List Char) :
    f.position (before ++ f.rest) = .ofEnd before := by
  rw [Fault.position, List.length_append, Nat.add_sub_cancel, List.take_left]

/-- The message of a malformed document says what the parser says: the cause, and then the
position. -/
theorem Error.message_malformed (cause : Cause) (p : Position) :
    (malformed cause p).message = "FXML is not well-formed: " ++ (cause.message ++
      (": line " ++ toString p.line ++ ", column " ++ toString p.column)) := by
  change _ ++ _ ++ _ ++ _ ++ _ ++ _ = _
  -- Rewriting tries to compute with literals.
  generalize "FXML is not well-formed: " = a, ": line " = b, ", column " = c
  simp only [String.append_assoc]

section Characters

variable {m : String} (hz : '\x00' ∉ m.toList)
include hz

/-- A text of characters is read as it is. -/
theorem exists_parse_ofString (hm : m.toList ≠ ['<']) :
    ∃ mark, Source.ofFamily .utf8 mark (Markup.ofString m).toBytes = Source.ofText m.toList ∧
      (Markup.ofString m).parse = parseAs (.ofString m) .utf8 mark := by
  have hdetect := Source.detect_encode_eq (fun h => hz (List.mem_of_mem_take h)) hm
  rw [parse, surrogates?_ofString, toBytes_ofString, hdetect]
  exact ⟨_, Source.ofFamily_encode_mark m.toList, rfl⟩

/-- **A text of characters is malformed if it has a fault**, and the position is that of the
fault. -/
theorem parse_ofString_eq_malformed_iff {cause : Cause} {p : Position} :
    (Markup.ofString m).parse = .error (.malformed cause p) ↔
      ∃ f, TextHasFault m.toList f ∧ f.cause = cause ∧ f.position m.toList = p := by
  by_cases hm : m.toList = ['<']
  · have hp : (Markup.ofString m).parse = .error (.malformed .unclosedToken .start) := by
      rw [parse, surrogates?_ofString, toBytes_ofString, hm]
      rfl
    rw [hp]
    constructor
    · rintro ⟨⟩
      exact ⟨_, .opening hm, rfl, by rw [hm]; rfl⟩
    · rintro ⟨f, hf, rfl, rfl⟩
      cases hf with
      | opening h => rw [hm]; rfl
      | declaration h | declared h | undeclared h => exact absurd hm h
  · obtain ⟨mark, hs, hp⟩ := exists_parse_ofString hz hm
    rw [hp, parseAs, hs]
    cases hd : (Source.ofText m.toList).declaration? with
    | none =>
      simp only [textHasFault_of_undeclared hm hd]
      exact Source.read_eq_malformed_iff
    | some x =>
      obtain ⟨settings, closing⟩ := x
      dsimp only
      cases hr : XmlDeclaration.read settings with
      | error left =>
        simp only [textHasFault_of_declaration hm hd hr, exists_eq_left]
        constructor
        · rintro ⟨⟩
          exact ⟨rfl, rfl⟩
        · rintro ⟨rfl, rfl⟩
          rfl
      | ok contents =>
        simp only [textHasFault_of_declared hm hd hr]
        exact Source.read_eq_malformed_iff

end Characters

/-- **The position of a malformed text is in it.** The text has no surrogates. The line is at most
one more than the text has breaks, and the column is not behind the end of that line. The message
ends in both numbers, and the place is that of the fault: the position is where the text in front of
it ends. -/
theorem malformed_position_is_in_text {text : List CodePoint} (hz : .character '\x00' ∉ text)
    {cause : Cause} {p : Position}
    (h : (Markup.decoded text).parse = .error (.malformed cause p)) :
    ∃ m, text = CodePoint.ofString m ∧
      (1 ≤ p.line ∧ p.line ≤ breakCount m.toList + 1 ∧
        ∃ l, (lines m.toList)[p.line - 1]? = some l ∧ p.column ≤ l.length) ∧
      (Error.malformed cause p).message = "FXML is not well-formed: " ++ (cause.message ++
        (": line " ++ toString p.line ++ ", column " ++ toString p.column)) ∧
      ∃ f before, TextHasFault m.toList f ∧ f.cause = cause ∧ before ++ f.rest = m.toList ∧
        p = .ofEnd before := by
  obtain ⟨m, rfl⟩ : ∃ m, text = CodePoint.ofString m := by
    cases hs : Text.surrogates? text with
    | some x =>
      rw [parse, surrogates?, hs] at h
      cases h
    | none => exact ⟨_, eq_ofString_of_surrogates? hs⟩
  have hz : '\x00' ∉ m.toList := fun hmem => hz (List.mem_map_of_mem hmem)
  obtain ⟨f, hf, hcause, hposition⟩ := (parse_ofString_eq_malformed_iff hz).1 h
  obtain ⟨before, hb⟩ := hf.isIn
  have hp : p = .ofEnd before := by rw [← hposition, ← hb, f.position_append]
  have hin : p.IsIn m.toList := by
    rw [hp, ← hb]
    exact Position.isIn_ofEnd before f.rest
  exact ⟨m, rfl, ⟨hin.line_pos, hin.line_le, hin.column_le⟩, Error.message_malformed cause p,
    f, before, hf, hcause, hb, hp⟩

/-- Two comments, and a letter behind the second one on the fourth line, in front of the root
element. -/
def strayLetter : String :=
  "<!--é-->\r\n\n\r<!--é-->é"

/-- The letter is where the position says. -/
theorem stray_letter_on_the_fourth_line :
    .character '\x00' ∉ CodePoint.ofString strayLetter ∧
    (Markup.ofString strayLetter).parse = .error (.malformed .unexpectedToken ⟨4, 8⟩) ∧
    (1 ≤ 4 ∧ 4 ≤ breakCount strayLetter.toList + 1 ∧
      ∃ l, (lines strayLetter.toList)[3]? = some l ∧ 8 ≤ l.length) ∧
    (Error.malformed .unexpectedToken ⟨4, 8⟩).message =
      "FXML is not well-formed: syntax error: line 4, column 8" := by
  have hz : .character '\x00' ∉ CodePoint.ofString strayLetter := by decide
  have hp : (Markup.ofString strayLetter).parse = .error (.malformed .unexpectedToken ⟨4, 8⟩) := by
    with_unfolding_all rfl
  obtain ⟨m, hm, hin, hmessage, -⟩ := malformed_position_is_in_text hz hp
  obtain rfl := CodePoint.ofString_injective hm
  exact ⟨hz, hp, hin, hmessage.trans (by decide)⟩

end FxmlWiring.Markup
