import FxmlWiring.Proofs.Markup.FaultPlace
import FxmlWiring.Proofs.Markup.WiderProlog

/-! # Where faults outside the root element are found

Tokens of the prolog and their literals are in the text that is read (`scan_in`), each step from one
stage to the next finds a fault there or none (`Stage.next_in`), and so do the readers of what
stands before and after the root element. -/

namespace FxmlWiring.Markup.Prolog

open Text

variable {a : Alphabet} {ending : Ending} {text : List Char}

/-! ## Tokens -/

/-- What a token tells of the text around it is in the text. -/
def Token.IsIn (text : List Char) : Token → Prop
  | literal value valueEnd _ => value ++ valueEnd <:+ text
  | _ => True

theorem Token.IsIn.mono {s t : List Char} (h : s <:+ t) {token : Token} (ht : token.IsIn s) :
    token.IsIn t := by
  cases token with
  | literal value valueEnd isCut => exact List.IsSuffix.trans ht h
  | _ => trivial

/-- A scanned token and what follows it are in the text. -/
structure Scanned.IsIn (text : List Char) (r : Scanned) : Prop where
  token : r.token.IsIn text
  rest : r.rest <:+ text

theorem Scanned.IsIn.mono {s t : List Char} (h : s <:+ t) {r : Scanned} (hr : r.IsIn s) :
    r.IsIn t :=
  ⟨hr.token.mono h, hr.rest.trans h⟩

/-- A token that is scanned in an end of a text is one of the text. -/
theorem scanned_of_suffix {s t : List Char} {x : Except Halt Scanned} (h : s <:+ t)
    (hx : ScansIn s (Scanned.IsIn s) x) : ScansIn t (Scanned.IsIn t) x :=
  hx.mono h fun _ hr => hr.mono h

theorem atEnd_in {halt : Halt} (hh : halt.IsIn text) {t : Token} (ht : t.IsIn text) :
    ScansIn text (Scanned.IsIn text) (atEnd ending halt t) := by
  have hcut : t.cut.IsIn text := by
    cases t with
    | literal value valueEnd isCut => exact ht
    | _ => trivial
  unfold atEnd
  split
  · exact ⟨ht, List.nil_suffix⟩
  · exact ⟨hcut, List.nil_suffix⟩
  · exact hh

theorem scanWord_in (s : List Char) : ScansIn s (Scanned.IsIn s) (scanWord a ending s) := by
  unfold scanWord
  split
  · trivial
  · rename_i c s
    have hd : s.dropWhile a.continuesName <:+ c :: s :=
      (List.dropWhile_suffix _).trans (List.suffix_cons _ _)
    -- A word is no literal.
    have ht : ∀ r, Token.IsIn (c :: s) (if a.startsName c then
        .name (c :: s.takeWhile a.continuesName) r else .nameToken) := fun r => by
      split <;> trivial
    split
    · dsimp only
      split
      · exact atEnd_in (by trivial) (ht none)
      · rename_i x rest h
        rw [h] at hd
        split
        · exact ⟨ht none, hd⟩
        · split
          · exact ⟨ht (some x), (List.suffix_cons _ _).trans hd⟩
          · exact hd
    · exact List.suffix_rfl

theorem scanLiteral_in (quote : Char) (s : List Char) :
    ScansIn s (Scanned.IsIn s) (scanLiteral ending quote s) := by
  unfold scanLiteral
  have hs := List.takeWhile_append_dropWhile (p := fun c => isLegal c ∧ c ≠ quote) (l := s)
  have hd := List.dropWhile_suffix (fun c => decide (isLegal c ∧ c ≠ quote)) (l := s)
  split
  · trivial
  · rename_i c rest h
    rw [h] at hs hd
    have ht : Token.IsIn s
        (.literal (s.takeWhile fun c => isLegal c ∧ c ≠ quote) (c :: rest) false) :=
      ⟨[], hs⟩
    have hrest : rest <:+ s := (List.suffix_cons _ _).trans hd
    split
    · dsimp only
      split
      · exact atEnd_in (by exact List.nil_suffix) ht
      · split
        · exact ⟨ht, hrest⟩
        · exact hrest
    · exact hd

theorem scanPercent_in (s : List Char) : ScansIn s (·.2 <:+ s) (scanPercent a s) := by
  have hn := scanName_in (a := a) s
  unfold scanPercent
  split
  · trivial
  · split
    · exact List.suffix_rfl
    · split
      · rename_i h
        exact hn.of_error h
      · rename_i h
        exact (List.suffix_cons _ _).trans (hn.of_ok h)
      · trivial
      · rename_i h
        exact hn.of_ok h

theorem scanKeyword_in (s : List Char) : ScansIn s (Scanned.IsIn s) (scanKeyword a ending s) := by
  have hn := scanName_in (a := a) s
  unfold scanKeyword
  split
  · rename_i h
    exact hn.of_error h
  · exact atEnd_in (by trivial) trivial
  · rename_i h
    split
    · exact ⟨trivial, hn.of_ok h⟩
    · exact hn.of_ok h

theorem scanDeclaration_in (s : List Char) :
    ScansIn s (Scanned.IsIn s) (scanDeclaration a ending s) := by
  unfold scanDeclaration
  split
  · trivial
  · rename_i s
    exact ((scanComment_in s).of_suffix (List.suffix_cons _ _)).map fun _ hr => ⟨trivial, hr⟩
  · exact ⟨trivial, List.suffix_cons _ _⟩
  · rename_i c s _ _
    have hd : s.dropWhile a.spellsKeyword <:+ c :: s :=
      (List.dropWhile_suffix _).trans (List.suffix_cons _ _)
    split
    · dsimp only
      split
      · trivial
      · rename_i rest h
        rw [h] at hd
        split
        · split
          · exact ⟨trivial, hd⟩
          · trivial
        · split
          · exact hd
          · exact ⟨trivial, hd⟩
      · rename_i x rest _ h
        rw [h] at hd
        split
        · exact ⟨trivial, hd⟩
        · exact hd
    · exact List.suffix_rfl

theorem scanBrackets_in (s : List Char) : ScansIn s (Scanned.IsIn s) (scanBrackets ending s) := by
  unfold scanBrackets
  split
  · exact ⟨trivial, List.nil_suffix⟩
  · exact ⟨trivial, ⟨[']', '>'], rfl⟩⟩
  · split
    · exact ⟨trivial, List.suffix_rfl⟩
    · trivial
  · exact ⟨trivial, List.suffix_rfl⟩

theorem scanParen_in (s : List Char) : ScansIn s (Scanned.IsIn s) (scanParen ending s) := by
  unfold scanParen
  split
  · exact atEnd_in (by exact List.nil_suffix) trivial
  · split
    · exact ⟨trivial, List.suffix_cons _ _⟩
    · split
      · exact ⟨trivial, List.suffix_rfl⟩
      · exact List.suffix_rfl

/-- **A token outside the root element is in the text**, and so is the place where there is none. -/
theorem scan_in (text : List Char) :
    ScansIn text (Scanned.IsIn text) (scan a ending text) := by
  unfold scan
  split
  · trivial
  · split
    · exact ⟨trivial, List.nil_suffix⟩
    · trivial
  · exact scanned_of_suffix ⟨['<', '!'], rfl⟩ (scanDeclaration_in _)
  · rename_i s
    refine ((scanInstruction_in s).of_suffix ⟨['<', '?'], rfl⟩).map fun x hr => ⟨?_, hr⟩
    dsimp only
    split <;> trivial
  · split
    · exact ⟨trivial, List.suffix_cons _ _⟩
    · exact List.suffix_cons _ _
  · rename_i s
    refine ((scanPercent_in s).of_suffix (List.suffix_cons _ _)).map fun x hr => ⟨?_, hr⟩
    dsimp only
    split <;> trivial
  · exact ⟨trivial, List.suffix_cons _ _⟩
  · exact ⟨trivial, List.suffix_cons _ _⟩
  · exact ⟨trivial, List.suffix_cons _ _⟩
  · exact scanned_of_suffix (List.suffix_cons _ _) (scanBrackets_in _)
  · exact ⟨trivial, List.suffix_cons _ _⟩
  · exact scanned_of_suffix (List.suffix_cons _ _) (scanParen_in _)
  · exact ⟨trivial, List.suffix_cons _ _⟩
  · exact scanned_of_suffix (List.suffix_cons _ _) (scanKeyword_in _)
  · split
    · exact ⟨trivial, List.suffix_cons _ _⟩
    · split
      · exact scanned_of_suffix (List.suffix_cons _ _) (scanLiteral_in _ _)
      · exact scanWord_in _

/-! ## Literals -/

/-- A fault in a literal is in its text. -/
def LiteralFault.IsIn (text : List Char) (f : LiteralFault) : Prop :=
  f.left <:+ text

/-- A literal is read, or has a fault in the text. -/
abbrev LiteralIn (text : List Char) (x : Except LiteralFault (List Char)) : Prop :=
  Gives (LiteralFault.IsIn text) (fun _ => True) x

theorem LiteralIn.map {s t : List Char} {x : Except LiteralFault (List Char)} (h : s <:+ t)
    (hx : LiteralIn s x) (f : List Char → List Char) : LiteralIn t (x.map f) :=
  (Gives.mono (fun _ hf => List.IsSuffix.trans hf h) (fun _ _ => trivial) hx).map fun _ _ => trivial

theorem replacementText_in (s : List Char) : LiteralIn s (replacementText a s) := by
  fun_induction replacementText a s with
  | case1 => trivial
  | case2 s rest h => exact Reference.isIn_of_scan h
  | case3 | case4 => exact List.suffix_rfl
  | case5 s code rest h x _ ih => exact ih.map (Reference.suffix_of_scan h) _
  | case6 s name rest h ih => exact ih.map (Reference.suffix_of_scan h) _
  | case7 s rest h =>
    exact List.IsSuffix.trans ((scanPercent_in s).of_error h) (List.suffix_cons _ _)
  | case8 | case9 => exact List.suffix_rfl
  | case10 s rest h =>
    exact List.IsSuffix.trans ((scanPercent_in s).of_ok h) (List.suffix_cons _ _)
  | case11 s _ _ ih =>
    exact ih.map ((skipPairedBreak_suffix a _ s).trans (List.suffix_cons _ _)) _
  | case12 c s _ _ _ ih => exact ih.map (List.suffix_cons _ _) _

theorem publicIdFault?_in (s : List Char) : ∀ f ∈ publicIdFault? s, f.left <:+ s := by
  unfold publicIdFault?
  split
  · rintro f ⟨⟩
  · rintro f ⟨⟩
    exact List.dropWhile_suffix _

/-! ## Steps -/

/-- A failure of the prolog that is a fault is in the text. -/
def Failure.IsIn (text : List Char) : Failure → Prop
  | fault f => f.IsIn text
  | repeatedElement => True

theorem Failure.IsIn.mono {s t : List Char} (h : s <:+ t) {failure : Failure}
    (hf : failure.IsIn s) : failure.IsIn t := by
  cases failure with
  | fault f => exact Fault.IsIn.mono h hf
  | repeatedElement => trivial

/-- A step leads somewhere, or has a fault in the text. -/
abbrev StepIn (text : List Char) (step : Step) : Prop :=
  Gives (Failure.IsIn text) (fun _ => True) step

section Steps

variable {d : Declarations} {stage : Stage} {t : Token} {here : List Char}

theorem unexpected_in (hh : here <:+ text) : StepIn text (unexpected t here) :=
  hh

theorem publicIdStep_in {value valueEnd : List Char} (hv : value ++ valueEnd <:+ text) :
    StepIn text (publicIdStep value valueEnd stage d) := by
  unfold publicIdStep
  split
  · rename_i f hf
    exact append_suffix hv (publicIdFault?_in value f hf)
  · trivial

theorem entityStep_in {entity : Declared} {value valueEnd : List Char} {isCut : Bool}
    (hv : value ++ valueEnd <:+ text) :
    StepIn text (entityStep a d entity value valueEnd isCut) := by
  unfold entityStep
  split
  · split
    · rename_i f hf
      exact append_suffix hv ((replacementText_in value).of_error hf)
    · split
      · exact (List.suffix_append value valueEnd).trans hv
      · split <;> trivial
  · trivial

theorem defaultStep_in {element name value valueEnd : List Char} {isTokens isCut : Bool}
    (hv : value ++ valueEnd <:+ text) (hh : here <:+ text) :
    StepIn text (defaultStep a d element name isTokens value valueEnd isCut here) := by
  unfold defaultStep
  dsimp only
  split
  · split
    · rename_i cause left hf
      exact append_suffix hv ((readValue_in d d.entities isTokens value).of_error hf left rfl)
    · exact hh
    · split
      · exact (List.suffix_append value valueEnd).trans hv
      · trivial
  · trivial

theorem elementStep_in {element : List Char} : StepIn text (elementStep d element) := by
  unfold elementStep
  split <;> trivial

namespace Stage

theorem nextInSubset_in (hh : here <:+ text) : StepIn text (nextInSubset d t here) := by
  unfold nextInSubset
  split <;> try first | exact unexpected_in hh | trivial
  split <;> first | exact unexpected_in hh | trivial

theorem nextInDoctype_in (ht : t.IsIn text) (hh : here <:+ text) :
    StepIn text (nextInDoctype d stage t here) := by
  unfold nextInDoctype
  split <;> try first | exact unexpected_in hh | trivial | exact publicIdStep_in ht
  split <;> first | exact unexpected_in hh | trivial

theorem nextInEntity_in (ht : t.IsIn text) (hh : here <:+ text) :
    StepIn text (nextInEntity a d stage t here) := by
  unfold nextInEntity
  split <;> try first
    | exact unexpected_in hh
    | trivial
    | exact publicIdStep_in ht
    | exact entityStep_in ht
  all_goals split <;> first | exact unexpected_in hh | trivial

theorem nextInNotation_in (ht : t.IsIn text) (hh : here <:+ text) :
    StepIn text (nextInNotation d stage t here) := by
  unfold nextInNotation
  split <;> try first | exact unexpected_in hh | trivial | exact publicIdStep_in ht
  split <;> first | exact unexpected_in hh | trivial

theorem nextInAttributes_in (ht : t.IsIn text) (hh : here <:+ text) :
    StepIn text (nextInAttributes a d stage t here) := by
  unfold nextInAttributes
  split <;> try first | exact unexpected_in hh | trivial | exact defaultStep_in ht hh
  · split
    · trivial
    · split
      · trivial
      · split <;> first | exact unexpected_in hh | trivial
  · split <;> first | exact unexpected_in hh | trivial

theorem nextInElement_in (hh : here <:+ text) : StepIn text (nextInElement d stage t here) := by
  unfold nextInElement
  split <;> try first | exact unexpected_in hh | trivial | exact elementStep_in
  all_goals split <;> first | exact unexpected_in hh | trivial | exact elementStep_in

/-- **A token leads somewhere, or the fault is in the text**: at the token or in its literal. -/
theorem next_in (ht : t.IsIn text) (hh : here <:+ text) :
    StepIn text (stage.next a d t here) := by
  unfold next
  split
  · trivial
  · split
    · split <;> try first | exact unexpected_in hh | trivial
      split <;> first | exact unexpected_in hh | trivial
    · split <;> first | exact unexpected_in hh | trivial
    · exact nextInSubset_in hh
    -- The stages inside a declaration.
    all_goals first
      | exact nextInDoctype_in ht hh
      | exact nextInEntity_in ht hh
      | exact nextInNotation_in ht hh
      | exact nextInAttributes_in ht hh
      | exact nextInElement_in hh
      | (split <;> first | exact unexpected_in hh | trivial)

end Stage

end Steps

/-! ## Before and after the root element -/

theorem endFault_in : (endFault ending).IsIn text := by
  unfold endFault
  split <;> exact List.nil_suffix

/-- **A fault before the root element is in the text**, and so is the root element. -/
theorem readProlog_in (stage : Stage) (d : Declarations) (text : List Char) :
    Gives (Failure.IsIn text) (·.2 <:+ text) (readProlog a ending stage d text) := by
  fun_induction readProlog a ending stage d text with
  | case1 => exact endFault_in
  | case2 ending _ _ text _ halt h =>
    exact ((scan_in text).of_error h).toFault List.suffix_rfl ending
  | case3 => exact List.suffix_rfl
  | case4 _ _ _ text _ scanned h _ f hf =>
    exact (Stage.next_in ((scan_in text).of_ok h).token List.suffix_rfl).of_error hf
  | case5 _ _ _ text _ scanned h _ _ _ _ ih =>
    have hrest := ((scan_in text).of_ok h).rest
    exact ih.mono (fun _ => Failure.IsIn.mono hrest) fun _ hr => List.IsSuffix.trans hr hrest

/-- **A fault after the root element is in the text.** -/
theorem readEpilog_in (text : List Char) :
    Gives (Fault.IsIn text) (fun _ => True) (readEpilog a ending text) := by
  fun_induction readEpilog a ending text with
  | case1 | case3 => trivial
  | case2 => exact endFault_in
  | case4 text _ _ halt h => exact ((scan_in text).of_error h).toFault List.suffix_rfl ending
  | case5 text _ _ scanned h _ ih | case6 text _ _ scanned h _ ih
  | case7 text _ _ scanned h _ ih =>
    have hrest := ((scan_in text).of_ok h).rest
    exact ih.mono (fun _ => Fault.IsIn.mono hrest) fun _ _ => trivial
  | case8 => exact List.suffix_rfl

end FxmlWiring.Markup.Prolog
