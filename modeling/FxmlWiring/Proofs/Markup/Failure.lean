import FxmlWiring.Proofs.Markup.Declared

/-! # How reading a document fails

A document that cannot be read is malformed, with a position, unless it is **stopped**: by
surrogates, which have no bytes, by an encoding that it names (`NamesUnreadable`), or by an element
that its prolog declares twice (`RepeatsElement`). `parse_eq_stop_iff` tells exactly when. -/

namespace FxmlWiring.Markup

open Text

/-- An error that stops the reader without a position. -/
def Error.IsStop (e : Error) : Prop :=
  ∀ cause p, e ≠ .malformed cause p

/-! ## The families -/

namespace Source.Family

theorem separates_alphabet (family : Family) : family.alphabet.Separates := by
  cases family with
  | utf8 => exact Alphabet.separates_utf8
  | utf16 => exact Alphabet.separates_utf16

/-- The name of the XML declaration is a name in every family. -/
theorem isName_xml (family : Family) : family.alphabet.IsName ['x', 'm', 'l'] := by
  have h8 : Alphabet.utf8.IsName ['x', 'm', 'l'] := by decide +kernel
  have h16 : Alphabet.utf16.IsName ['x', 'm', 'l'] := by decide +kernel
  cases family with
  | utf8 => exact h8
  | utf16 => exact h16

end Source.Family

/-! ## Encodings that stop the reader -/

/-- The error that a charset of the name stops the reader with, if it does. -/
def Charset.Named.stop? (name : List Char) : Charset.Named → Option Error
  | multiByte => some .multiByteEncoding
  | transform => some (.notTextEncoding (.ofList name))
  | refused refusal => some (.refusedEncoding (.ofList name) refusal)
  | unknown => some (.noSuchEncoding (.ofList name))
  | singleByte _ | unusable => none

/-- The error that a named encoding stops the reader with, if it does. -/
def Charset.Choice.stop? (name : List Char) : Charset.Choice → Option Error
  | named n => n.stop? name
  | asShown | singleByte _ | contradiction => none

namespace Source

variable {s : Source} {m : Markup} {family : Family} {mark : Nat}
  {encoding : Option (List Char × List Char)} {rest nameRest : List Char} {e : Error}

/-- **Only an encoding named in bytes stops the reader**, if it is one that does. -/
theorem redecode_eq_stop_iff (he : e.IsStop) :
    s.redecode m family mark encoding rest nameRest = .error e ↔
      ∃ bytes x, m = .encoded bytes ∧ encoding = some x ∧
        (Charset.choose family x.1).stop? x.1 = some e := by
  unfold redecode
  constructor
  · intro h
    split at h
    · cases h
    · cases h
    · rename_i bytes name nameAt
      refine ⟨bytes, (name, nameAt), rfl, rfl, ?_⟩
      dsimp only at h ⊢
      -- Every other choice gives a source, or a fault with a position.
      split at h
      all_goals rename_i hc
      all_goals rw [hc]
      all_goals first
        | exact congrArg some (Except.error.inj h)
        | exact absurd (Except.error.inj h).symm (he _ _)
        | cases h
  · rintro ⟨bytes, ⟨name, nameAt⟩, rfl, rfl, hc⟩
    dsimp only at hc ⊢
    split
    all_goals rename_i hc'
    all_goals rw [hc'] at hc
    all_goals first
      | exact congrArg Except.error (Option.some.inj hc)
      | cases hc

/-- Where the name of the encoding stands does not matter to the source that is read. -/
theorem redecode_congr {encoding' : Option (List Char × List Char)} {nameRest' : List Char}
    (he : encoding.map Prod.fst = encoding'.map Prod.fst) {s' : Source}
    (h : s.redecode m family mark encoding rest nameRest = .ok s') :
    s.redecode m family mark encoding' rest nameRest' = .ok s' := by
  unfold redecode at h ⊢
  cases m with
  | decoded t => exact h
  | encoded bytes =>
    cases encoding with
    | none =>
      cases encoding' with
      | none => exact h
      | some y => cases he
    | some x =>
      cases encoding' with
      | none => cases he
      | some y =>
        obtain ⟨name, nameAt⟩ := x
        obtain ⟨name', nameAt'⟩ := y
        obtain rfl : name = name' := Option.some.inj he
        dsimp only at h ⊢
        split at h
        all_goals first
          | exact h
          | cases h

/-! ## Elements declared twice -/

/-- The prolog of the source declares an element twice. -/
def RepeatsElement (s : Source) (standalone : Bool) : Prop :=
  (Prolog.Config.opening s.ending standalone s.body).Repeats s.alphabet

/-- **Reading the root stops only if the prolog declares an element twice.** -/
theorem readRoot_eq_stop_iff {standalone : Bool} (he : e.IsStop) :
    s.readRoot standalone = .error e ↔
      e = .repeatedElementDeclaration ∧ s.RepeatsElement standalone := by
  have hr := Prolog.readProlog_eq_repeatedElement_iff (a := s.alphabet)
    (Prolog.Config.opening s.ending standalone s.body)
  change Prolog.readProlog s.alphabet s.ending .opening { standalone } s.body = _ ↔ _ at hr
  rw [RepeatsElement, ← hr, readRoot]
  constructor
  · intro h
    split at h
    · exact absurd (Except.error.inj h).symm (he _ _)
    · rename_i hp
      exact ⟨(Except.error.inj h).symm, hp⟩
    · split at h
      · exact absurd (Except.error.inj h).symm (he _ _)
      · split at h
        · exact absurd (Except.error.inj h).symm (he _ _)
        · cases h
      · exact absurd (Except.error.inj h).symm (he _ _)
  · rintro ⟨rfl, hp⟩
    rw [hp]

/-- **Reading a source stops only if the prolog declares an element twice**, and is not given up
before. -/
theorem read_eq_stop_iff {standalone : Bool} (he : e.IsStop) :
    s.read standalone = .error e ↔ e = .repeatedElementDeclaration ∧
      s.limit? standalone = none ∧ s.RepeatsElement standalone := by
  rw [read]
  split
  · rename_i text hl
    constructor
    · intro h
      exact absurd (Except.error.inj h).symm (he _ _)
    · rintro ⟨-, hn, -⟩
      cases hl.symm.trans hn
  · rename_i hl
    rw [readRoot_eq_stop_iff he]
    exact and_congr_right fun _ => ⟨fun hr => ⟨hl, hr⟩, And.right⟩

example : Prolog.readProlog .utf8 .complete .opening {}
    "<!DOCTYPE a[<!ELEMENT b ANY><!ELEMENT b (c)>]><a/>".toList = .error .repeatedElement := by
  decide +kernel

end Source

/-! ## Whole documents -/

/-- The document shows the family, and starts with an XML declaration that says so much. -/
structure Declares (m : Markup) (family : Source.Family) (mark : Nat)
    (encoding : Option (List Char)) (standalone : Bool) (rest : List Char) : Prop where
  shows : Source.detect m.toBytes = some (family, mark)
  declares : ∃ settings, XmlDeclaration.Says encoding standalone settings ∧
    (Source.ofFamily family mark m.toBytes).body = declared settings rest

/-- The document is bytes, and names an encoding that stops the reader with the error. -/
def NamesUnreadable (m : Markup) (e : Error) : Prop :=
  ∃ bytes family mark name standalone rest, m = .encoded bytes ∧
    Declares m family mark (some name) standalone rest ∧
    (Charset.choose family name).stop? name = some e

/-- The document is read as the source from its first character on, or from the end of its
declaration on in the encoding that it names. -/
inductive OpensAs (m : Markup) : Source → Bool → Prop
  | shown {family : Source.Family} {mark : Nat}
      (h : Source.detect m.toBytes = some (family, mark)) :
      OpensAs m (Source.ofFamily family mark m.toBytes) false
  | declared {family : Source.Family} {mark : Nat} {encoding : Option (List Char)}
      {standalone : Bool} {rest : List Char} {s : Source}
      (h : Declares m family mark encoding standalone rest)
      (hs : (Source.ofFamily family mark m.toBytes).redecode m family mark
        (encoding.map (·, [])) rest [] = .ok s) :
      OpensAs m s standalone

/-- The prolog of the document declares an element twice, and the limit on amplification is not
reached before. -/
def RepeatsElement (m : Markup) : Prop :=
  ∃ s standalone, OpensAs m s standalone ∧ s.limit? standalone = none ∧ s.RepeatsElement standalone

/-- Reading the bytes of the document is stopped by the error. -/
def StoppedInBytes (m : Markup) (e : Error) : Prop :=
  NamesUnreadable m e ∨ e = .repeatedElementDeclaration ∧ RepeatsElement m

/-- Reading the document is stopped by the error. A text with surrogates is not read at all. -/
def Stopped (m : Markup) (e : Error) : Prop :=
  match m.surrogates? with
  | some s => e = .surrogates s
  | none => StoppedInBytes m e

/-- A document without bytes that show a family is stopped by nothing. -/
theorem not_stoppedInBytes_of_not_shown {m : Markup} (hm : Source.detect m.toBytes = none)
    (e : Error) : ¬ StoppedInBytes m e := by
  rintro (⟨bytes, family, mark, name, standalone, rest, -, h, -⟩ | ⟨-, s, standalone, h, -⟩)
  · cases hm.symm.trans h.shows
  · cases h with
    | shown h => cases hm.symm.trans h
    | declared h => cases hm.symm.trans h.shows

section Shown

variable {m : Markup} {family : Source.Family} {mark : Nat} {e : Error}
  (hm : Source.detect m.toBytes = some (family, mark))
include hm

/-- A document declares what is read from the declaration of its source. -/
theorem declares_iff {family' : Source.Family} {mark' : Nat} {encoding : Option (List Char)}
    {standalone : Bool} {rest : List Char} :
    Declares m family' mark' encoding standalone rest ↔ family' = family ∧ mark' = mark ∧
      ∃ settings contents, (Source.ofFamily family mark m.toBytes).declaration? =
          some (settings, '?' :: '>' :: rest) ∧
        XmlDeclaration.read settings = .ok contents ∧
        contents.encoding.map Prod.fst = encoding ∧ contents.standalone = standalone := by
  have hi := @Source.exists_declaration?_iff (Source.ofFamily family mark m.toBytes)
    family.separates_alphabet family.isName_xml encoding standalone rest
  constructor
  · rintro ⟨hm', hs⟩
    obtain ⟨rfl, rfl⟩ := Prod.mk.inj (Option.some.inj (hm.symm.trans hm'))
    exact ⟨rfl, rfl, hi.2 hs⟩
  · rintro ⟨rfl, rfl, hs⟩
    exact ⟨hm, hi.1 hs⟩

/-- A document that declares nothing is stopped by nothing but the prolog of what it shows. -/
theorem stoppedInBytes_iff_of_undeclared
    (hn : ∀ settings rest contents, (Source.ofFamily family mark m.toBytes).declaration? =
        some (settings, '?' :: '>' :: rest) → XmlDeclaration.read settings ≠ .ok contents) :
    StoppedInBytes m e ↔ e = .repeatedElementDeclaration ∧
      (Source.ofFamily family mark m.toBytes).limit? false = none ∧
      (Source.ofFamily family mark m.toBytes).RepeatsElement false := by
  have hu : ∀ {family' mark' encoding standalone rest},
      ¬ Declares m family' mark' encoding standalone rest := by
    intro _ _ _ _ rest h
    obtain ⟨-, -, settings, contents, hd, hr, -⟩ := (declares_iff hm).1 h
    exact hn settings rest contents hd hr
  constructor
  · rintro (⟨bytes, family, mark, name, standalone, rest, -, h, -⟩ | ⟨he, s, standalone, h, hr⟩)
    · exact absurd h hu
    · cases h with
      | @shown family' mark' hm' =>
        obtain ⟨rfl, rfl⟩ := Prod.mk.inj (Option.some.inj (hm.symm.trans hm'))
        exact ⟨he, hr⟩
      | declared h => exact absurd h hu
  · rintro ⟨he, hr⟩
    exact Or.inr ⟨he, _, false, .shown hm, hr⟩

section Declared

variable {settings rest : List Char} {contents : XmlDeclaration.Contents}
  (hd : (Source.ofFamily family mark m.toBytes).declaration? =
    some (settings, '?' :: '>' :: rest))
  (hr : XmlDeclaration.read settings = .ok contents)
include hd hr

/-- What is read from the declaration of the source is the only thing that the document declares. -/
theorem declares_iff_of_read {family' : Source.Family} {mark' : Nat}
    {encoding : Option (List Char)} {standalone : Bool} {rest' : List Char} :
    Declares m family' mark' encoding standalone rest' ↔ family' = family ∧ mark' = mark ∧
      contents.encoding.map Prod.fst = encoding ∧ contents.standalone = standalone ∧
      rest' = rest := by
  rw [declares_iff hm]
  constructor
  · rintro ⟨hf, hk, settings', contents', hd', hr', he, hs⟩
    rw [hd] at hd'
    obtain ⟨rfl, hc⟩ := Prod.mk.inj (Option.some.inj hd')
    obtain rfl := Except.ok.inj (hr.symm.trans hr')
    exact ⟨hf, hk, he, hs, by simpa using hc.symm⟩
  · rintro ⟨hf, hk, he, hs, rfl⟩
    exact ⟨hf, hk, settings, contents, hd, hr, he, hs⟩

/-- The encoding that a document names stops the reader where the reader takes it up. -/
theorem namesUnreadable_iff (he : e.IsStop) (nameRest : List Char) :
    NamesUnreadable m e ↔ (Source.ofFamily family mark m.toBytes).redecode m family mark
      contents.encoding rest nameRest = .error e := by
  rw [Source.redecode_eq_stop_iff he]
  constructor
  · rintro ⟨bytes, family', mark', name, standalone, rest', hb, h, hs⟩
    obtain ⟨rfl, rfl, hn, -, -⟩ := (declares_iff_of_read hm hd hr).1 h
    obtain ⟨x, hx, rfl⟩ := Option.map_eq_some_iff.1 hn
    exact ⟨bytes, x, hb, hx, hs⟩
  · rintro ⟨bytes, x, hb, hx, hs⟩
    refine ⟨bytes, family, mark, x.1, contents.standalone, rest, hb, ?_, hs⟩
    exact (declares_iff_of_read hm hd hr).2 ⟨rfl, rfl, by rw [hx]; rfl, rfl, rfl⟩

/-- A document with a declaration declares an element twice if the source that it is read as does
so. -/
theorem repeatsElement_iff (nameRest : List Char) :
    RepeatsElement m ↔ ∃ s, (Source.ofFamily family mark m.toBytes).redecode m family mark
        contents.encoding rest nameRest = .ok s ∧ s.limit? contents.standalone = none ∧
      s.RepeatsElement contents.standalone := by
  constructor
  · rintro ⟨s, standalone, h, hs⟩
    cases h with
    | shown h =>
      -- The declaration itself cannot stand in a prolog.
      obtain ⟨rfl, rfl⟩ := Prod.mk.inj (Option.some.inj (hm.symm.trans h))
      exact absurd hs.2 (Source.not_repeats_of_declaration? hd _)
    | @declared family' mark' encoding standalone rest' s h hs' =>
      obtain ⟨rfl, rfl, hn, rfl, rfl⟩ := (declares_iff_of_read hm hd hr).1 h
      refine ⟨s, Source.redecode_congr ?_ hs', hs⟩
      simp [← hn, Function.comp_def]
  · rintro ⟨s, hs, hrep⟩
    have hdec := (declares_iff_of_read hm hd hr).2 ⟨rfl, rfl, rfl, rfl, rfl⟩
    refine ⟨s, contents.standalone, .declared hdec (Source.redecode_congr ?_ hs), hrep⟩
    simp [Function.comp_def]

/-- A document with a declaration is stopped by the encoding that it names, or by the prolog of what
it is read as then. -/
theorem stoppedInBytes_iff_of_declared (he : e.IsStop) (nameRest : List Char) :
    StoppedInBytes m e ↔
      (Source.ofFamily family mark m.toBytes).redecode m family mark contents.encoding rest
          nameRest = .error e ∨
        ∃ s, (Source.ofFamily family mark m.toBytes).redecode m family mark contents.encoding rest
          nameRest = .ok s ∧ s.read contents.standalone = .error e := by
  rw [StoppedInBytes, namesUnreadable_iff hm hd hr he nameRest,
    repeatsElement_iff hm hd hr nameRest]
  simp only [Source.read_eq_stop_iff he]
  refine or_congr_right ⟨?_, ?_⟩
  · rintro ⟨he, s, hs, hrep⟩
    exact ⟨s, hs, he, hrep⟩
  · rintro ⟨s, hs, he, hrep⟩
    exact ⟨he, s, hs, hrep⟩

end Declared

/-- A document that shows a family is stopped where the reader of that family is. -/
theorem parseAs_eq_stop_iff (he : e.IsStop) :
    parseAs m family mark = .error e ↔ StoppedInBytes m e := by
  rw [parseAs]
  cases hd : (Source.ofFamily family mark m.toBytes).declaration? with
  | none =>
    rw [stoppedInBytes_iff_of_undeclared hm fun _ _ _ h => nomatch hd.symm.trans h]
    exact Source.read_eq_stop_iff he
  | some x =>
    obtain ⟨settings, closing⟩ := x
    obtain ⟨rest, -, -, -, -, rfl⟩ := Source.exists_of_declaration? family.separates_alphabet hd
    dsimp only
    cases hr : XmlDeclaration.read settings with
    | error left =>
      have hn : ∀ settings' rest' contents, (Source.ofFamily family mark m.toBytes).declaration? =
          some (settings', '?' :: '>' :: rest') → XmlDeclaration.read settings' ≠ .ok contents := by
        intro settings' rest' contents hd' hr'
        obtain ⟨rfl, -⟩ := Prod.mk.inj (Option.some.inj (hd.symm.trans hd'))
        cases hr.symm.trans hr'
      rw [stoppedInBytes_iff_of_undeclared hm hn]
      -- Neither side holds: the declaration is a fault, and it is no prolog.
      constructor
      · intro h
        exact absurd (Except.error.inj h).symm (he _ _)
      · rintro ⟨-, -, h⟩
        exact absurd h (Source.not_repeats_of_declaration? hd _)
    | ok contents =>
      have hdrop : ('?' :: '>' :: rest).drop 2 = rest := rfl
      rw [stoppedInBytes_iff_of_declared hm hd hr he
        ((contents.encoding.map (·.2)).getD [] ++ '?' :: '>' :: rest)]
      dsimp only
      rw [hdrop]
      split
      · rename_i e' hs
        rw [hs]
        simp
      · rename_i s hs
        rw [hs]
        simp

end Shown

/-- **When reading a document is stopped**: when it is a text with surrogates, when it names an
encoding that stops the reader, and when its prolog declares an element twice. -/
theorem parse_eq_stop_iff {m : Markup} {e : Error} (he : e.IsStop) :
    m.parse = .error e ↔ Stopped m e := by
  rw [parse, Stopped]
  cases m.surrogates? with
  | some s => exact ⟨fun h => (Except.error.inj h).symm, fun h => congrArg Except.error h.symm⟩
  | none =>
    cases hm : Source.detect m.toBytes with
    | none =>
      constructor
      · intro h
        exact absurd (Except.error.inj h).symm (he _ _)
      · intro h
        exact absurd h (not_stoppedInBytes_of_not_shown hm e)
    | some x => exact parseAs_eq_stop_iff hm he

/-- What stops the reader is no fault with a position. -/
theorem StoppedInBytes.isStop {m : Markup} {e : Error} (h : StoppedInBytes m e) : e.IsStop := by
  rcases h with ⟨bytes, family, mark, name, standalone, rest, -, -, h⟩ | ⟨rfl, -⟩
  · unfold Charset.Choice.stop? Charset.Named.stop? at h
    split at h
    · split at h
      all_goals first
        | (obtain rfl := Option.some.inj h; exact fun _ _ h => nomatch h)
        | cases h
    all_goals cases h
  · exact fun _ _ h => nomatch h

/-- What stops the reader is no fault with a position. -/
theorem Stopped.isStop {m : Markup} {e : Error} (h : Stopped m e) : e.IsStop := by
  unfold Stopped at h
  split at h
  · subst h
    exact fun _ _ h => nomatch h
  · exact StoppedInBytes.isStop h

end FxmlWiring.Markup
