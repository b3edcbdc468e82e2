import FxmlWiring.Proofs.Markup.ContentRun

/-! # Wider alphabets

An alphabet lies **within** a wider one if it has fewer names, and the names that the wider one has
besides start with characters that no name of the first one holds. What a reader takes of a document
is then taken in the wider alphabet as well, and read as the same (`ReadsTo.widen` for content). The
faults are others: a word that is a name may go on further. -/

namespace FxmlWiring.Markup

open Text

/-- The names and keywords of one alphabet are those of a wider one, and a character of names that
starts a name in the wider one does so in the first. Signs separate them in both. -/
structure Alphabet.IsWithin (a b : Alphabet) : Prop where
  separates : a.Separates ∧ b.Separates
  units_pos : ∀ c, 0 < a.units c ∧ 0 < b.units c
  starts : ∀ c, a.startsName c = true → b.startsName c = true
  continues : ∀ c, a.continuesName c = true → b.continuesName c = true
  starts_of_continues : ∀ c, a.continuesName c = true → b.startsName c = true →
    a.startsName c = true
  spells : ∀ c, a.spellsKeyword c = true → b.spellsKeyword c = true
  not_spells : ∀ c ∈ Alphabet.signs, b.spellsKeyword c = false
  opens : ∀ c, a.startsName c = true → b.opensElement c = true
  breaksAtReturn : a.breaksAtReturn = b.breaksAtReturn

variable {a b : Alphabet} (hab : a.IsWithin b)
include hab

/-! ## Names and references -/

/-- A name is one of the wider alphabet. -/
theorem Alphabet.IsName.widen {n : List Char} (h : a.IsName n) : b.IsName n := by
  obtain ⟨c, t, rfl, hc, ht⟩ := h
  exact ⟨c, t, rfl, hab.starts c hc, fun d hd => hab.continues d (ht d hd)⟩

/-- A name ends where it does, if what follows cannot stand in a name of the wider alphabet. -/
theorem scanName_widen {s n rest : List Char} (h : scanName a s = .ok (n, rest))
    (hr : StopsAt b.continuesName rest) : scanName b s = .ok (n, rest) := by
  obtain ⟨hn, rfl⟩ := isName_of_scanName h
  exact scanName_append (hn.widen hab) hr

/-- A reference is the same reference. -/
theorem Reference.scan_widen {s rest : List Char} {r : Reference}
    (h : Reference.scan a s = .ok (r, rest)) : Reference.scan b s = .ok (r, rest) := by
  obtain ⟨w, hw, hs⟩ := (Reference.scan_eq_ok_iff hab.separates.1).1 h
  exact (Reference.scan_eq_ok_iff hab.separates.2).2
    ⟨w, hw.mono fun _ hn => Alphabet.IsName.widen hab hn, hs⟩

/-- An instruction is the same instruction. -/
theorem scanInstruction_widen {s target rest : List Char}
    (h : scanInstruction a s = .ok (target, rest)) : scanInstruction b s = .ok (target, rest) := by
  obtain ⟨u, hn, hx, hu, rfl⟩ := (scanInstruction_eq_ok_iff hab.separates.1).1 h
  exact (scanInstruction_eq_ok_iff hab.separates.2).2 ⟨u, hn.widen hab, hx, hu, rfl⟩

/-! ## Values -/

/-- The same carriage returns go with a line feed. -/
theorem skipPairedBreak_widen (c : Char) (s : List Char) :
    skipPairedBreak b c s = skipPairedBreak a c s := by
  unfold skipPairedBreak
  rw [hab.breaksAtReturn]

omit hab in
/-- A map succeeds where it did, if what is mapped does. -/
theorem map_eq_ok_of_imp {ε α β : Type} {x y : Except ε α} (h : ∀ {t}, x = .ok t → y = .ok t)
    {f : α → β} {t : β} (hx : x.map f = .ok t) : y.map f = .ok t := by
  cases x with
  | error e => cases hx
  | ok u =>
    rw [h rfl]
    exact hx

omit hab in
/-- A reference to an entity that is declared with a text is replaced by the expanded text. -/
theorem expandValue_internal {d : Declarations} {closed : Entities}
    {s name rest text inner : List Char} (hs : Reference.scan a s = .ok (.entity name, rest))
    (hp : Reference.predefined? name = none) (hl : closed.lookup name = some (.internal text))
    (hi : expandValue d .internal (closed.without name) text = .ok inner) :
    expandValue d a closed ('&' :: s) = (expandValue d a closed rest).map (inner ++ ·) := by
  rw [expandValue, if_pos rfl]
  split <;> simp_all
  split <;> simp_all

omit hab in
/-- A reference to an entity that may be declared elsewhere is skipped. -/
theorem expandValue_skipped {d : Declarations} {closed : Entities} {s name rest : List Char}
    (hs : Reference.scan a s = .ok (.entity name, rest))
    (hp : Reference.predefined? name = none) (hl : closed.lookup name = none)
    (hd : ¬ d.declares name = true) (hst : ¬ d.isStrict = true) :
    expandValue d a closed ('&' :: s) = expandValue d a closed rest := by
  rw [expandValue, if_pos rfl]
  split <;> simp_all [-List.lookup_eq_none_iff]
  split <;> simp_all [-List.lookup_eq_none_iff]

/-- **A value is expanded to the same.** -/
theorem expandValue_widen {d : Declarations} {closed : Entities} {s t : List Char}
    (h : expandValue d a closed s = .ok t) : expandValue d b closed s = .ok t := by
  -- What an entity stands for is read alike in both. Only the cases without a fault are left.
  fun_induction expandValue d a closed s generalizing t with
  | case1 =>
    rw [expandValue]
    exact h
  | case5 _ _ s code rest hs x hx ih =>
    rw [expandValue_reference _ _ (Reference.scan_widen hab hs) hx]
    exact map_eq_ok_of_imp (ih hab) h
  | case6 _ _ s name rest hs x hx ih =>
    rw [expandValue_reference _ _ (Reference.scan_widen hab hs) hx]
    exact map_eq_ok_of_imp (ih hab) h
  | case8 _ _ s name rest hs hx text hl inner hi _ ih =>
    rw [expandValue_internal (Reference.scan_widen hab hs) hx hl hi]
    exact map_eq_ok_of_imp (ih hab) h
  | case13 _ _ s name rest hs hx hl hd hst ih =>
    rw [expandValue_skipped (Reference.scan_widen hab hs) hx hl hd hst]
    exact ih hab h
  | case15 _ _ c s hamp hlt hc ih =>
    rw [expandValue, if_neg hamp, if_neg hlt, if_pos hc, skipPairedBreak_widen hab]
    exact map_eq_ok_of_imp (ih hab) h
  | case16 _ _ c s hamp hlt hc ih =>
    rw [expandValue, if_neg hamp, if_neg hlt, if_neg hc]
    exact map_eq_ok_of_imp (ih hab) h
  | _ => cases h

variable {d : Declarations} {closed : Entities}

/-- A value is read as the same. -/
theorem readValue_widen {isTokens : Bool} {s t : List Char}
    (h : readValue d a closed isTokens s = .ok t) : readValue d b closed isTokens s = .ok t :=
  map_eq_ok_of_imp (expandValue_widen hab) h

/-- The attributes of a tag are read as the same. -/
theorem readAttributes_widen {tagAt element : List Char} {seen : List (List Char)}
    {ws : List WrittenAttribute} {as : List Attribute}
    (h : readAttributes d a closed tagAt element seen ws = .ok as) :
    readAttributes d b closed tagAt element seen ws = .ok as := by
  induction ws generalizing seen as with
  | nil => exact h
  | cons w ws ih =>
    rw [readAttributes] at h ⊢
    split at h
    · cases h
    · rename_i hseen
      rw [if_neg hseen]
      split at h
      · cases h
      · cases h
      · rename_i v hv
        rw [readValue_widen hab hv]
        exact map_eq_ok_of_imp ih h

theorem attributes?_widen {element : List Char} {xs : List (List Char × List Char)}
    {as : List Attribute} (h : attributes? d a closed element xs = some as) :
    attributes? d b closed element xs = some as := by
  have hok : ∀ {x : Except Fault (List Attribute)}, x.toOption = some as ↔ x = .ok as := by
    intro x
    cases x <;> simp [Except.toOption]
  exact hok.2 (readAttributes_widen hab (hok.1 h))

/-! ## Content -/

/-- **What stands at the front of content** stands there in the wider alphabet. -/
theorem Starts.widen {text rest : List Char} {l : Lexeme} (h : Starts a text l rest) :
    Starts b text l rest := by
  have hn : ∀ n, a.dialect.isName n → b.dialect.isName n := fun _ hn => hn.widen hab
  have hr : ∀ r, a.dialect.allows r → b.dialect.allows r := fun _ hr => hr
  cases h with
  | startTag hw => exact .startTag (hw.mono hn hr) rest
  | endTag hw => exact .endTag (hw.mono hn) rest
  | reference hw => exact .reference (hw.mono hn) rest
  | comment hw => exact .comment hw rest
  | cdata hw => exact .cdata hw rest
  | instruction hw => exact .instruction (hw.mono hn) rest
  | declaration hx hs => exact .declaration (hx.widen hab) hs rest
  | character hc hm hr => exact .character hc hm hr

/-- A token does the same to the open elements. -/
theorem Next.widen {stack stack' : List OpenElement} {nodes nodes' : List Node} {l : Lexeme}
    (h : Next d a closed stack nodes l stack' nodes') :
    Next d b closed stack nodes l stack' nodes' := by
  cases h with
  | ignorable => exact .ignorable _ _
  | reference hr => exact .reference hr _ _
  | emptyTag has => exact .emptyTag (attributes?_widen hab has) _ _
  | startTag has => exact .startTag (attributes?_widen hab has) _ _
  | endTag e => exact .endTag e _ _

/-- **A run over content is one in the wider alphabet.** -/
theorem ReadsTo.widen {stack : List OpenElement} {nodes out : List Node} {text rest : List Char}
    (h : ReadsTo d a closed stack nodes text out rest) :
    ReadsTo d b closed stack nodes text out rest := by
  induction h with
  | last hs hn hl => exact .last (hs.widen hab) (hn.widen hab) hl
  | step hs hn hl _ ih => exact .step (hs.widen hab) (hn.widen hab) hl ih

/-- Content is read as the same. -/
theorem readContent_widen {ending ending' : Ending} {stack : List OpenElement}
    {nodes out : List Node} {text rest : List Char}
    (h : readContent d a ending .document closed stack nodes text = .ok (out, rest)) :
    readContent d b ending' .document closed stack nodes text = .ok (out, rest) := by
  have hrun := (readContent_eq_ok_iff hab.separates.1 fun c => (hab.units_pos c).1).1 h
  exact (readContent_eq_ok_iff hab.separates.2 fun c => (hab.units_pos c).2).2 (hrun.widen hab)

omit hab in
/-- A root element starts with its name, if the text starts with `<` and is no comment, section or
instruction. -/
theorem ReadsTo.startsName {nodes out : List Node} {c : Char} {s rest : List Char}
    (h : ReadsTo d a closed [] nodes ('<' :: c :: s) out rest) (hc : c ≠ '!' ∧ c ≠ '?') :
    a.startsName c = true := by
  obtain ⟨l, text', stack, nodes', hs, hn⟩ : ∃ l text' stack nodes',
      Starts a ('<' :: c :: s) l text' ∧ Next d a closed [] nodes l stack nodes' := by
    cases h with
    | last hs hn => exact ⟨_, _, _, _, hs, hn⟩
    | step hs hn => exact ⟨_, _, _, _, hs, hn⟩
  generalize ht : '<' :: c :: s = text at hs
  cases hs with
  | startTag hw =>
    obtain ⟨t, b, ⟨x, n, rfl, hx, -⟩, -, -, rfl⟩ := hw
    obtain rfl : c = x := (List.cons.inj (List.cons.inj ht).2).1
    exact hx
  | endTag => cases hn
  | declaration => cases hn
  | reference hw => cases hw <;> exact absurd (List.cons.inj ht).1 (by decide)
  | comment hw =>
    obtain ⟨u, -, rfl⟩ := hw
    exact absurd (List.cons.inj (List.cons.inj ht).2).1 hc.1
  | cdata hw =>
    obtain ⟨u, -, rfl⟩ := hw
    exact absurd (List.cons.inj (List.cons.inj ht).2).1 hc.1
  | instruction hw =>
    obtain ⟨target, u, -, -, -, rfl⟩ := hw
    exact absurd (List.cons.inj (List.cons.inj ht).2).1 hc.2
  | character _ hm => exact absurd (List.cons.inj ht).1.symm hm.1

end FxmlWiring.Markup
