import FxmlWiring.Proofs.Markup.WiderAlphabet

/-! # Where faults are found

A fault tells the text from the faulty place on. This text is always an end of the text that is
read, and so is what is left after a token, whatever the token is: each scanner keeps to the text
that it is given (`scanContent_in`), and so does the reader of content (`readContent_in`). -/

namespace FxmlWiring.Markup

open Text

/-! ## Both answers -/

section Gives

variable {ε α β : Type} {E E' : ε → Prop} {P P' : α → Prop} {Q : β → Prop} {x : Except ε α}

/-- What holds of an answer: one thing of a failure, another one of a result. -/
def Gives (E : ε → Prop) (P : α → Prop) : Except ε α → Prop
  | .error e => E e
  | .ok x => P x

theorem Gives.of_error (h : Gives E P x) {e : ε} (hx : x = .error e) : E e := by
  rwa [hx] at h

theorem Gives.of_ok (h : Gives E P x) {a : α} (hx : x = .ok a) : P a := by
  rwa [hx] at h

theorem Gives.mono (hE : ∀ e, E e → E' e) (hP : ∀ a, P a → P' a) (h : Gives E P x) :
    Gives E' P' x := by
  cases x with
  | error e => exact hE e h
  | ok a => exact hP a h

theorem Gives.map {f : α → β} (hf : ∀ a, P a → Q (f a)) (h : Gives E P x) :
    Gives E Q (x.map f) := by
  cases x with
  | error e => exact h
  | ok a => exact hf a h

theorem Gives.bind {f : α → Except ε β} (h : Gives E P x) (hf : ∀ a, P a → Gives E Q (f a)) :
    Gives E Q (x >>= f) := by
  cases x with
  | error e => exact h
  | ok a => exact hf a h

end Gives

/-- A halt at a character is at a place in the text. -/
def Halt.IsIn (text : List Char) : Halt → Prop
  | stray rest => rest <:+ text
  | endOfText | endOfMarkup | tooShort => True

theorem Halt.IsIn.mono {s t : List Char} (h : s <:+ t) {halt : Halt} (hh : halt.IsIn s) :
    halt.IsIn t := by
  cases halt with
  | stray rest => exact List.IsSuffix.trans hh h
  | endOfText | endOfMarkup | tooShort => trivial

/-- The scan of a text halts in it or has a result. -/
abbrev ScansIn {α : Type} (text : List Char) (P : α → Prop) (x : Except Halt α) : Prop :=
  Gives (Halt.IsIn text) P x

/-- A scan of an end of a text is one of the text. -/
theorem ScansIn.mono {α : Type} {s t : List Char} {P P' : α → Prop} {x : Except Halt α}
    (h : s <:+ t) (hP : ∀ a, P a → P' a) (hx : ScansIn s P x) : ScansIn t P' x :=
  Gives.mono (fun _ => Halt.IsIn.mono h) hP hx

/-- What a scan of an end of a text leaves is an end of the text. -/
theorem ScansIn.of_suffix {α : Type} {s t : List Char} {f : α → List Char} {x : Except Halt α}
    (h : s <:+ t) (hx : ScansIn s (f · <:+ s) x) : ScansIn t (f · <:+ t) x :=
  hx.mono h fun _ hr => List.IsSuffix.trans hr h

/-- A fault is at a place in the text. -/
def Fault.IsIn (text : List Char) (f : Fault) : Prop :=
  f.rest <:+ text

theorem Fault.IsIn.mono {s t : List Char} (h : s <:+ t) {f : Fault} (hf : f.IsIn s) : f.IsIn t :=
  List.IsSuffix.trans hf h

/-- What a halt makes of a token is a fault in the text. -/
theorem Halt.IsIn.toFault {text token : List Char} {halt : Halt} (h : halt.IsIn text)
    (ht : token <:+ text) (ending : Ending) : (halt.toFault ending token).IsIn text := by
  cases halt with
  | stray rest => exact h
  | endOfText | tooShort => exact ht
  | endOfMarkup =>
    rw [Halt.toFault]
    split
    · exact List.nil_suffix
    · exact ht

/-! ## Names and references -/

variable {a : Alphabet} {ending : Ending}

theorem skipSpace_suffix (s : List Char) : skipSpace s <:+ s :=
  List.dropWhile_suffix isSpace

theorem scanName_in (s : List Char) : ScansIn s (·.2 <:+ s) (scanName a s) := by
  unfold scanName
  split
  · trivial
  · split
    · exact (List.dropWhile_suffix _).trans (List.suffix_cons _ _)
    · exact List.suffix_rfl

namespace Reference

theorem scanNumber_in (base : Nat) (isDigit : Char → Bool) (s : List Char) :
    ScansIn s (·.2 <:+ s) (scanNumber base isDigit s) := by
  unfold scanNumber
  split
  · trivial
  · rename_i c s
    have hd : s.dropWhile isDigit <:+ c :: s :=
      (List.dropWhile_suffix _).trans (List.suffix_cons _ _)
    split
    · split
      · rename_i rest h
        rw [h] at hd
        exact (List.suffix_cons _ _).trans hd
      · trivial
      · exact hd
    · exact List.suffix_rfl

theorem scan_in (s : List Char) : ScansIn s (·.2 <:+ s) (scan a s) := by
  unfold scan
  split
  · rename_i s
    exact (scanNumber_in 16 isHexDigit s).of_suffix ⟨['#', 'x'], rfl⟩
  · rename_i s _
    exact (scanNumber_in 10 Char.isDigit s).of_suffix (List.suffix_cons _ _)
  · have hn := scanName_in (a := a) s
    split
    · rename_i h
      exact hn.of_error h
    · rename_i h
      exact (List.suffix_cons _ _).trans (hn.of_ok h)
    · trivial
    · rename_i h
      exact hn.of_ok h

/-- What is behind a reference is in the text that starts with its sign. -/
theorem suffix_of_scan {s rest : List Char} {r : Reference} (h : scan a s = .ok (r, rest)) :
    rest <:+ '&' :: s :=
  ((scan_in s).of_ok h).trans (List.suffix_cons _ _)

/-- What is wrong with a reference is in the text that starts with its sign. -/
theorem isIn_of_scan {s : List Char} {halt : Halt} (h : scan a s = .error halt) :
    halt.IsIn ('&' :: s) :=
  ((scan_in s).of_error h).mono (List.suffix_cons _ _)

end Reference

/-! ## Comments, instructions and sections -/

theorem scanCommentText_in (s : List Char) : ScansIn s (· <:+ s) (scanCommentText s) := by
  fun_induction scanCommentText s with
  | case1 => trivial
  | case2 s => exact ⟨['-', '-', '>'], rfl⟩
  | case3 => trivial
  | case4 s => exact ⟨['-', '-'], rfl⟩
  | case5 c s _ _ _ _ ih => exact ih.of_suffix (List.suffix_cons _ _)
  | case6 c s => exact List.suffix_rfl

theorem scanComment_in (s : List Char) : ScansIn s (· <:+ s) (scanComment s) := by
  unfold scanComment
  split
  · trivial
  · exact (scanCommentText_in _).of_suffix (List.suffix_cons _ _)
  · exact List.suffix_rfl

theorem scanInstructionText_in (s : List Char) : ScansIn s (· <:+ s) (scanInstructionText s) := by
  fun_induction scanInstructionText s with
  | case1 => trivial
  | case2 s => exact ⟨['?', '>'], rfl⟩
  | case3 c s _ _ ih => exact ih.of_suffix (List.suffix_cons _ _)
  | case4 c s => exact List.suffix_rfl

theorem scanInstruction_in (s : List Char) : ScansIn s (·.2 <:+ s) (scanInstruction a s) := by
  have hn := scanName_in (a := a) s
  unfold scanInstruction
  split
  · rename_i h
    exact hn.of_error h
  · trivial
  · rename_i target c rest h
    have hc : c :: rest <:+ s := hn.of_ok h
    have hrest : rest <:+ s := (List.suffix_cons _ _).trans hc
    split
    · exact hc
    · split
      · exact ((scanInstructionText_in rest).of_suffix hrest).map fun _ hr => hr
      · split
        · split
          · exact (List.suffix_cons _ _).trans hrest
          · trivial
          · exact hrest
        · exact hc

theorem expect_in (word s : List Char) : ScansIn s (· <:+ s) (scanCdataStart.expect word s) := by
  fun_induction scanCdataStart.expect word s with
  | case1 s => exact List.suffix_rfl
  | case2 w ws s ih => exact ih.of_suffix (List.suffix_cons _ _)
  | case3 w ws c s => exact List.suffix_rfl
  | case4 => exact List.nil_suffix

theorem scanCdataStart_in (ending : Ending) (s : List Char) :
    ScansIn s (· <:+ s) (scanCdataStart a ending s) := by
  unfold scanCdataStart
  split
  · trivial
  · exact expect_in _ s

theorem readCdata_in (ending : Ending) (s : List Char) :
    Gives (Fault.IsIn s) (· <:+ s) (readCdata ending s) := by
  fun_induction readCdata ending s with
  | case1 => exact List.nil_suffix
  | case2 s => exact ⟨[']', ']', '>'], rfl⟩
  | case3 c s => exact List.suffix_rfl
  | case4 c s _ _ _ ih =>
    have h := List.suffix_cons c s
    exact ih.mono (fun _ => Fault.IsIn.mono h) fun _ hr => hr.trans h
  | case5 c s => exact List.suffix_rfl

/-! ## Tags -/

/-- What an attribute tells of the text around it is in the text. -/
structure WrittenAttribute.IsIn (text : List Char) (w : WrittenAttribute) : Prop where
  nameAt : w.nameAt <:+ text
  value : w.value ++ w.valueEnd <:+ text

theorem WrittenAttribute.IsIn.mono {s t : List Char} (h : s <:+ t) {w : WrittenAttribute}
    (hw : w.IsIn s) : w.IsIn t :=
  ⟨hw.nameAt.trans h, hw.value.trans h⟩

theorem valueHalt?_in (quote : Char) (s : List Char) :
    ∀ halt ∈ valueHalt? a quote s, halt.IsIn s := by
  fun_induction valueHalt? a quote s with
  | case1 =>
    rintro halt ⟨⟩
    trivial
  | case2 => rintro halt ⟨⟩
  | case3 s halt hr hq =>
    rintro halt' ⟨⟩
    exact Reference.isIn_of_scan hr
  | case4 s r rest hr hq ih =>
    intro halt h
    exact (ih halt h).mono (Reference.suffix_of_scan hr)
  | case5 c s =>
    rintro halt ⟨⟩
    exact List.suffix_rfl
  | case6 c s _ _ _ ih =>
    intro halt h
    exact (ih halt h).mono (List.suffix_cons _ _)

/-- A value and what follows it make up the text behind the opening quote. -/
theorem scanQuoted_in (s : List Char) :
    ScansIn s (fun x => x.1 ++ x.2 <:+ s) (scanQuoted a s) := by
  unfold scanQuoted
  split
  · trivial
  · rename_i q s
    split
    · split
      · rename_i halt h
        exact (valueHalt?_in q s halt h).mono (List.suffix_cons _ _)
      · change List.takeWhile _ s ++ List.dropWhile _ s <:+ q :: s
        rw [List.takeWhile_append_dropWhile]
        exact List.suffix_cons _ _
    · exact List.suffix_rfl

theorem scanAttribute_in (s : List Char) :
    ScansIn s (fun x => x.1.IsIn s ∧ x.2 <:+ s) (scanAttribute a s) := by
  have hn := scanName_in (a := a) s
  unfold scanAttribute
  split
  · rename_i h
    exact hn.of_error h
  · trivial
  · rename_i name c r h
    have hc : c :: r <:+ s := hn.of_ok h
    have hspace : skipSpace (c :: r) <:+ s := (skipSpace_suffix _).trans hc
    split
    · split
      · trivial
      · rename_i r' hr
        rw [hr] at hspace
        have hvalue : skipSpace r' <:+ s :=
          (skipSpace_suffix r').trans ((List.suffix_cons _ _).trans hspace)
        have hq := scanQuoted_in (a := a) (skipSpace r')
        split
        · rename_i h
          exact (hq.of_error h).mono hvalue
        · rename_i value u h
          have hin : value ++ u <:+ s := (hq.of_ok h).trans hvalue
          refine ⟨⟨List.suffix_rfl, hin⟩, ?_⟩
          exact (List.drop_suffix 1 u).trans ((List.suffix_append value u).trans hin)
      · exact hspace
    · exact hc

theorem scanTagEnd?_in (s : List Char) :
    ∀ result ∈ scanTagEnd? s, ScansIn s (·.2 <:+ s) result := by
  unfold scanTagEnd?
  split
  · rintro result ⟨⟩
    exact List.suffix_cons _ _
  · rintro result ⟨⟩
    exact ⟨['/', '>'], rfl⟩
  · rintro result ⟨⟩
    trivial
  · rintro result ⟨⟩
    exact List.suffix_cons _ _
  · rintro result ⟨⟩

theorem scanAttributes_in (ifEnds : Halt) (hends : ∀ text, ifEnds.IsIn text) (s : List Char) :
    ScansIn s (fun x => (∀ w ∈ x.1.1, w.IsIn s) ∧ x.2 <:+ s) (scanAttributes a ifEnds s) := by
  -- Behind a blank, what follows is in the text.
  have hskip : ∀ (c : Char) (s : List Char), skipSpace s <:+ c :: s := fun c s =>
    (skipSpace_suffix s).trans (List.suffix_cons c s)
  fun_induction scanAttributes a ifEnds s with
  | case1 ifEnds s result h =>
    exact (scanTagEnd?_in s result h).map fun _ hr => ⟨List.forall_mem_nil _, hr⟩
  | case2 ifEnds => exact hends _
  | case3 ifEnds c s _ result h =>
    exact ((scanTagEnd?_in _ result h).of_suffix (hskip c s)).map fun _ hr =>
      ⟨List.forall_mem_nil _, hr⟩
  | case4 ifEnds c s _ _ halt h => exact ((scanAttribute_in _).of_error h).mono (hskip c s)
  | case5 ifEnds c s _ _ w r hw halt h _ ih =>
    have hr : r <:+ c :: s := ((scanAttribute_in _).of_ok hw).2.trans (hskip c s)
    exact ((ih fun _ => trivial).of_error h).mono hr
  | case6 ifEnds c s _ _ w r hw ws isEmpty u hu _ ih =>
    obtain ⟨hw, hr⟩ := (scanAttribute_in _).of_ok hw
    obtain ⟨hws, hu⟩ := (ih fun _ => trivial).of_ok hu
    have hr : r <:+ c :: s := hr.trans (hskip c s)
    refine ⟨List.forall_mem_cons.2 ⟨hw.mono (hskip c s), fun w h => (hws w h).mono hr⟩, ?_⟩
    exact hu.trans hr
  | case7 ifEnds c s => exact List.suffix_rfl

theorem scanStartTag_in (s : List Char) :
    ScansIn s (fun x => (∀ w ∈ x.1.attributes, w.IsIn s) ∧ x.2 <:+ s) (scanStartTag a s) := by
  have hn := scanName_in (a := a) s
  unfold scanStartTag
  split
  · rename_i h
    exact hn.of_error h
  · rename_i name rest h
    have hrest : rest <:+ s := hn.of_ok h
    have hattributes := scanAttributes_in (a := a) .endOfText (fun _ => trivial) rest
    split
    · rename_i h
      exact (hattributes.of_error h).mono hrest
    · rename_i h
      obtain ⟨hws, hr⟩ := hattributes.of_ok h
      exact ⟨fun w hw => (hws w hw).mono hrest, hr.trans hrest⟩

theorem scanEndTag_in (s : List Char) : ScansIn s (·.2 <:+ s) (scanEndTag a s) := by
  have hn := scanName_in (a := a) s
  unfold scanEndTag
  split
  · rename_i h
    exact hn.of_error h
  · trivial
  · rename_i name c rest h
    have hspace : skipSpace (c :: rest) <:+ s := (skipSpace_suffix _).trans (hn.of_ok h)
    split
    · rename_i r hr
      rw [hr] at hspace
      exact (List.suffix_cons _ _).trans hspace
    · trivial
    · exact hspace

/-! ## Tokens of content -/

/-- What a token tells of the text around it is in the text. -/
def ContentToken.IsIn (text : List Char) : ContentToken → Prop
  | startTag tag => ∀ w ∈ tag.attributes, w.IsIn text
  | endTag _ nameAt => nameAt <:+ text
  | reference _ | ignorable | declaration => True

/-- A token is scanned in the text. -/
abbrev TokenIn (text : List Char) (x : Except Fault (ContentToken × List Char)) : Prop :=
  Gives (Fault.IsIn text) (fun x => x.1.IsIn text ∧ x.2 <:+ text) x

theorem toToken_in {α : Type} {text s : List Char} {scanned : Scan α} {f : α → ContentToken}
    {P : α × List Char → Prop} (hs : s <:+ text) (h : ScansIn s P scanned)
    (hf : ∀ x, P x → (f x.1).IsIn text ∧ x.2 <:+ text) :
    TokenIn text (scanned.toToken ending text f) := by
  unfold Scan.toToken
  split
  · exact (Halt.IsIn.mono hs h).toFault List.suffix_rfl ending
  · exact hf _ h

theorem ignoring_in {text s : List Char} {scanned : Except Halt (List Char)} (hs : s <:+ text)
    (h : ScansIn s (· <:+ s) scanned) : TokenIn text (ignoring ending text scanned) := by
  unfold ignoring
  split
  · exact (Halt.IsIn.mono hs h).toFault List.suffix_rfl ending
  · exact ⟨trivial, List.IsSuffix.trans h hs⟩

/-- **The next token of content is in the text**, and so is the fault if there is none. -/
theorem scanContent_in (text : List Char) : TokenIn text (scanContent a ending text) := by
  unfold scanContent
  split
  · have h : Halt.endOfText.IsIn [] := trivial
    exact h.toFault List.suffix_rfl ending
  · rename_i s
    have hs : s <:+ '<' :: '/' :: s := ⟨['<', '/'], rfl⟩
    exact toToken_in hs (scanEndTag_in s) fun _ hr => ⟨hs, hr.trans hs⟩
  · exact ignoring_in ⟨['<', '!', '-'], rfl⟩ (scanComment_in _)
  · rename_i s
    have hs : s <:+ '<' :: '!' :: '[' :: s := ⟨['<', '!', '['], rfl⟩
    have hstart := scanCdataStart_in (a := a) ending s
    split
    · rename_i halt h
      exact ((hstart.of_error h).mono hs).toFault List.suffix_rfl ending
    · rename_i r h
      have hr : r <:+ '<' :: '!' :: '[' :: s := (hstart.of_ok h).trans hs
      have hread := readCdata_in ending r
      exact (hread.mono (fun _ => Fault.IsIn.mono hr) fun _ hu => hu).map fun _ hu =>
        ⟨trivial, List.IsSuffix.trans hu hr⟩
  · have h : Halt.endOfMarkup.IsIn ['<', '!'] := trivial
    exact h.toFault List.suffix_rfl ending
  · exact ⟨['<', '!'], rfl⟩
  · rename_i s
    have hs : s <:+ '<' :: '?' :: s := ⟨['<', '?'], rfl⟩
    refine toToken_in hs (scanInstruction_in s) fun x hr => ⟨?_, hr.trans hs⟩
    split
    · trivial
    · trivial
  · rename_i s _ _ _ _ _ _
    have hs : s <:+ '<' :: s := List.suffix_cons _ _
    exact toToken_in hs (scanStartTag_in s) fun _ ⟨hws, hr⟩ =>
      ⟨fun w hw => (hws w hw).mono hs, hr.trans hs⟩
  · rename_i s
    have hs : s <:+ '&' :: s := List.suffix_cons _ _
    exact toToken_in hs (Reference.scan_in s) fun _ hr => ⟨trivial, hr.trans hs⟩
  · exact ⟨[']', ']'], rfl⟩
  · rename_i c s _ _ _ _ _ _ _ _ _
    split
    · exact ⟨trivial, List.suffix_cons _ _⟩
    · exact List.suffix_rfl

/-! ## Values and attributes -/

/-- A fault at a place in a value is at a place in the text of the value. -/
def ValueFault.IsIn (text : List Char) (f : ValueFault) : Prop :=
  ∀ left ∈ f.left, left <:+ text

/-- A value is read, or has a fault in the text. -/
abbrev ValueIn {α : Type} (text : List Char) (x : Except ValueFault α) : Prop :=
  Gives (ValueFault.IsIn text) (fun _ => True) x

theorem ValueIn.mono {α : Type} {s t : List Char} {x : Except ValueFault α} (h : s <:+ t)
    (hx : ValueIn s x) : ValueIn t x :=
  Gives.mono (fun _ hf left hl => (hf left hl).trans h) (fun _ _ => trivial) hx

theorem skipPairedBreak_suffix (a : Alphabet) (c : Char) (s : List Char) :
    skipPairedBreak a c s <:+ s := by
  unfold skipPairedBreak
  split
  · split
    · exact List.suffix_cons _ _
    · exact List.suffix_rfl
  · exact List.suffix_rfl

theorem expandValue_in (d : Declarations) (closed : Entities) (s : List Char) :
    ValueIn s (expandValue d a closed s) := by
  have hhere : ∀ (cause : Cause) (s : List Char), ValueFault.IsIn s ⟨cause, some s⟩ := by
    rintro cause s left ⟨⟩
    exact List.suffix_rfl
  fun_induction expandValue d a closed s with
  | case1 => trivial
  | case2 _ _ s rest h =>
    rintro left ⟨⟩
    exact Reference.isIn_of_scan h
  | case3 | case4 | case9 | case10 | case14 => exact hhere _ _
  | case5 _ _ s code rest h x _ ih | case6 _ _ s code rest h x _ ih =>
    exact (ih.mono (Reference.suffix_of_scan h)).map fun _ _ => trivial
  | case7 | case11 | case12 => rintro left ⟨⟩
  | case8 _ _ s name rest h _ text _ inner _ _ ih =>
    exact (ih.mono (Reference.suffix_of_scan h)).map fun _ _ => trivial
  | case13 _ _ s name rest h _ _ _ _ ih => exact ih.mono (Reference.suffix_of_scan h)
  | case15 _ _ c s _ _ _ ih =>
    exact (ih.mono ((skipPairedBreak_suffix _ c s).trans (List.suffix_cons c s))).map
      fun _ _ => trivial
  | case16 _ _ c s _ _ _ ih => exact (ih.mono (List.suffix_cons _ _)).map fun _ _ => trivial

/-- What is left of a value is followed by the text behind it. -/
theorem append_suffix {text value valueEnd left : List Char}
    (hv : value ++ valueEnd <:+ text) (hl : left <:+ value) : left ++ valueEnd <:+ text := by
  obtain ⟨u, rfl⟩ := hl
  rw [List.append_assoc] at hv
  exact (List.suffix_append u _).trans hv

theorem readValue_in (d : Declarations) (closed : Entities) (isTokens : Bool) (s : List Char) :
    ValueIn s (readValue d a closed isTokens s) :=
  (expandValue_in d closed s).map fun _ _ => trivial

/-- **A fault in the attributes of a tag is in the text**, at the tag or at one of them. -/
theorem readAttributes_in (d : Declarations) (closed : Entities) {text tagAt : List Char}
    (ht : tagAt <:+ text) (element : List Char) (seen : List (List Char))
    {ws : List WrittenAttribute} (hws : ∀ w ∈ ws, w.IsIn text) :
    Gives (Fault.IsIn text) (fun _ => True)
      (readAttributes d a closed tagAt element seen ws) := by
  induction ws generalizing seen with
  | nil => trivial
  | cons w ws ih =>
    obtain ⟨hw, hws⟩ := List.forall_mem_cons.1 hws
    have hvalue := readValue_in (a := a) d closed (d.isTokens element w.name) w.value
    rw [readAttributes]
    split
    · exact hw.nameAt
    · split
      · rename_i cause left h
        exact append_suffix hw.value (hvalue.of_error h left rfl)
      · exact ht
      · exact (ih _ hws).map fun _ _ => trivial

/-! ## Content -/

/-- Content is read, or has a fault in the text. -/
abbrev ContentIn (text : List Char) (x : Except Fault (List Node × List Char)) : Prop :=
  Gives (Fault.IsIn text) (·.2 <:+ text) x

theorem ContentIn.mono {s t : List Char} {x : Except Fault (List Node × List Char)} (h : s <:+ t)
    (hx : ContentIn s x) : ContentIn t x :=
  Gives.mono (fun _ => Fault.IsIn.mono h) (fun _ hr => hr.trans h) hx

theorem endOfContent?_suffix {text left : List Char}
    (h : endOfContent? ending text = some left) : left <:+ text := by
  unfold endOfContent? at h
  split at h
  · cases h
  · split at h
    · cases h
      exact List.suffix_rfl
    · split at h
      · cases h
        exact List.nil_suffix
      · split at h
        · cases h
          exact List.nil_suffix
        · cases h

/-- **A fault in content is in the text**, and so is what follows the content. -/
theorem readContent_in (d : Declarations) (place : Place) (closed : Entities)
    (stack : List OpenElement) (nodes : List Node) (text : List Char) :
    ContentIn text (readContent d a ending place closed stack nodes text) := by
  -- Reading goes on behind a token.
  have hgo : ∀ {a : Alphabet} {ending : Ending} {text rest : List Char} {t : ContentToken}
      {x : Except Fault (List Node × List Char)},
      scanContent a ending text = .ok (t, rest) → ContentIn rest x → ContentIn text x :=
    fun h hx => ContentIn.mono ((scanContent_in _).of_ok h).2 hx
  fun_induction readContent d a ending place closed stack nodes text with
  | case1 => exact List.nil_suffix
  | case2 _ _ _ _ _ _ h | case3 _ _ _ _ _ _ _ h => exact endOfContent?_suffix h
  | case4 _ _ _ _ _ _ _ _ _ h => exact (scanContent_in _).of_error h
  | case5 | case8 | case9 | case11 | case12 | case16 | case19 | case20 =>
    rename_i ih
    exact hgo ‹scanContent _ _ _ = _› ih
  | case6 | case7 | case10 | case13 | case14 | case15 | case21 => exact List.suffix_rfl
  | case17 _ _ _ _ _ _ text _ tag rest h f hf =>
    exact (readAttributes_in d _ List.suffix_rfl _ [] ((scanContent_in _).of_ok h).1).of_error hf
  | case18 _ _ _ _ _ _ _ _ _ _ h => exact ((scanContent_in _).of_ok h).2
  | case22 _ _ _ _ _ _ _ _ _ _ _ hout h =>
    dsimp only
    rw [if_pos hout]
    exact ((scanContent_in _).of_ok h).2
  | case23 _ _ _ _ _ _ _ _ _ e _ nodes hout h ih =>
    dsimp only
    rw [if_neg hout]
    simp only [nodes, List.unattach_reverse, List.unattach_attach] at ih
    exact hgo h ih
  | case24 _ _ _ _ _ _ _ _ _ _ h => exact ((scanContent_in _).of_ok h).1

end FxmlWiring.Markup
