import FxmlWiring.Proofs.Markup.Truncation
import FxmlWiring.Proofs.Markup.WiderAlphabet

/-! # Documents in wider alphabets

Outside the root element as well, what is taken in an alphabet is taken in a wider one: token by
token (`Prolog.scan_widen`), from stage to stage (`Prolog.Stage.next_widen`), and so for the whole
document (`Source.readRoot_widen`). Only what starts the root element is a matter of its own, since
fewer characters may seem to open an element. -/

namespace FxmlWiring.Markup

open Text

variable {a b : Alphabet} (hab : a.IsWithin b)
include hab

namespace Prolog

/-! ## Tokens -/

section Scanners

variable {ending : Ending} {s : List Char} {r : Scanned}

/-- A sign that ends a word ends it in the wider alphabet. -/
theorem stopsAt_of_scanWord {c : Char} (h : scanWord a ending (c :: s) = .ok r) :
    StopsAt b.continuesName (s.dropWhile a.continuesName) := by
  have hsign : ∀ x, endsWord x = true ∨ isRepetition x = true → x ∈ Alphabet.signs := by
    intro x hx
    simp only [endsWord, isRepetition, Bool.or_eq_true, decide_eq_true_eq] at hx
    rcases hx with ((((((h | rfl) | rfl) | rfl) | rfl) | rfl) | rfl) | ((rfl | rfl) | rfl)
    · exact Alphabet.mem_signs_of_isSpace h
    all_goals decide
  rw [scanWord] at h
  split at h
  · dsimp only at h
    split at h
    · rename_i hd
      rw [hd]
      exact stopsAt_nil
    · rename_i x rest hd
      rw [hd, stopsAt_cons]
      refine hab.separates.2.not_continues x (hsign x ?_)
      split at h
      · rename_i hx
        exact Or.inl hx
      · split at h
        · rename_i hx
          exact Or.inr hx.1
        · cases h
  · cases h

/-- A word is the same word, and a name if it was one. -/
theorem scanWord_widen (h : scanWord a ending s = .ok r) : scanWord b ending s = .ok r := by
  cases s with
  | nil => cases h
  | cons c s =>
    have hstop := stopsAt_of_scanWord hab h
    rw [scanWord] at h
    split at h
    · rename_i hc
      have hstart : b.startsName c = a.startsName c := by
        rw [Bool.eq_iff_iff]
        exact ⟨hab.starts_of_continues c hc, hab.starts c⟩
      rw [scanWord, if_pos (hab.continues c hc), takeWhile_of_imp hab.continues hstop,
        dropWhile_of_imp hab.continues hstop, hstart]
      exact h
    · cases h

/-- A percent sign, or a reference. -/
theorem scanPercent_widen {rest : List Char} {isReference : Bool}
    (h : scanPercent a s = .ok (isReference, rest)) :
    scanPercent b s = .ok (isReference, rest) := by
  unfold scanPercent at h
  split at h
  · cases h
  · rename_i c s
    rw [scanPercent]
    split at h
    · rename_i hc
      rw [if_pos hc]
      exact h
    · rename_i hc
      rw [if_neg hc]
      split at h
      · cases h
      · rename_i n t hn
        rw [scanName_widen hab hn (stopsAt_cons.2 (hab.separates.2.not_continues ';' (by decide)))]
        exact h
      · cases h
      · cases h

/-- A name after a number sign. -/
theorem scanKeyword_widen (h : scanKeyword a ending s = .ok r) :
    scanKeyword b ending s = .ok r := by
  unfold scanKeyword at h
  split at h
  · cases h
  · rename_i n hn
    rw [scanKeyword, scanName_widen hab hn stopsAt_nil]
    exact h
  · rename_i n c rest hn
    split at h
    · rename_i hc
      have hsign : c ∈ Alphabet.signs := by
        rcases hc with hc | rfl | rfl | rfl | rfl
        · exact Alphabet.mem_signs_of_isSpace hc
        all_goals decide
      rw [scanKeyword, scanName_widen hab hn
        (stopsAt_cons.2 (hab.separates.2.not_continues c hsign))]
      simp only [if_pos hc, h]
    · cases h

/-- What `<!` starts. -/
theorem scanDeclaration_widen (h : scanDeclaration a ending s = .ok r) :
    scanDeclaration b ending s = .ok r := by
  unfold scanDeclaration at h
  split at h
  · cases h
  · exact h
  · exact h
  · rename_i c s hhyphens hbracket
    split at h
    · rename_i hc
      -- A blank or a percent sign ends the keyword.
      have hstop : StopsAt b.spellsKeyword (s.dropWhile a.spellsKeyword) := by
        dsimp only at h
        split at h
        · cases h
        · rename_i hd
          rw [hd, stopsAt_cons]
          exact hab.not_spells '%' (by decide)
        · rename_i hd
          split at h
          · rename_i hx
            rw [hd, stopsAt_cons]
            exact hab.not_spells _ (Alphabet.mem_signs_of_isSpace hx)
          · cases h
      rw [scanDeclaration.eq_4 _ _ _ _ hhyphens hbracket, if_pos (hab.spells c hc),
        takeWhile_of_imp hab.spells hstop, dropWhile_of_imp hab.spells hstop]
      exact h
    · cases h

end Scanners

/-- **A token is the same token**, unless it starts the root element. -/
theorem scan_widen {ending : Ending} {text : List Char} {r : Scanned}
    (h : scan a ending text = .ok r) (hr : r.token ≠ .elementStart) :
    scan b ending text = .ok r := by
  unfold scan at h
  split at h
  case h_2 =>
    split at h
    · obtain rfl := Except.ok.inj h
      exact absurd rfl hr
    · cases h
  case h_3 => exact scanDeclaration_widen hab h
  case h_4 s =>
    cases hi : scanInstruction a s with
    | error e =>
      rw [hi] at h
      cases h
    | ok x =>
      rw [scan, scanInstruction_widen hab hi, ← hi]
      exact h
  case h_5 =>
    split at h
    · obtain rfl := Except.ok.inj h
      exact absurd rfl hr
    · cases h
  case h_6 s =>
    cases hp : scanPercent a s with
    | error e =>
      rw [hp] at h
      cases h
    | ok x =>
      rw [scan, scanPercent_widen hab hp, ← hp]
      exact h
  case h_14 => exact scanKeyword_widen hab h
  case h_15 c s h₁ h₂ h₃ h₄ h₅ h₆ h₇ h₈ h₉ h₁₀ h₁₁ h₁₂ h₁₃ =>
    rw [scan.eq_15 b ending c s h₁ h₂ h₃ h₄ h₅ h₆ h₇ h₈ h₉ h₁₀ h₁₁ h₁₂ h₁₃]
    split at h
    · rename_i hc
      rw [if_pos hc]
      exact h
    · rename_i hc
      rw [if_neg hc]
      split at h
      · rename_i hq
        rw [if_pos hq]
        exact h
      · rename_i hq
        rw [if_neg hq]
        exact scanWord_widen hab h
  -- The signs are the same in every alphabet.
  all_goals exact h

/-! ## From stage to stage -/

omit hab in
/-- A character reference in the literal of an entity is replaced. -/
theorem replacementText_character {s rest : List Char} {code : Nat} {x : Char}
    (hs : Reference.scan a s = .ok (.character code, rest))
    (hx : Reference.characterOf? code = some x) :
    replacementText a ('&' :: s) = (replacementText a rest).map (x :: ·) := by
  rw [replacementText, if_pos rfl]
  split <;> simp_all

omit hab in
/-- Any other reference in the literal of an entity stays. -/
theorem replacementText_entity {s name rest : List Char}
    (hs : Reference.scan a s = .ok (.entity name, rest)) :
    replacementText a ('&' :: s) = (replacementText a rest).map ('&' :: name ++ ';' :: ·) := by
  rw [replacementText, if_pos rfl]
  split <;> simp_all

/-- The replacement text of an entity is the same. -/
theorem replacementText_widen {s t : List Char} (h : replacementText a s = .ok t) :
    replacementText b s = .ok t := by
  -- Only the cases without a fault are left.
  fun_induction replacementText a s generalizing t with
  | case1 =>
    rw [replacementText]
    exact h
  | case5 s code rest hs x hx ih =>
    rw [replacementText_character (Reference.scan_widen hab hs) hx]
    exact map_eq_ok_of_imp ih h
  | case6 s name rest hs ih =>
    rw [replacementText_entity (Reference.scan_widen hab hs)]
    exact map_eq_ok_of_imp ih h
  | case11 s hamp hper ih =>
    rw [replacementText, if_neg hamp, if_neg hper, if_pos rfl, skipPairedBreak_widen hab]
    exact map_eq_ok_of_imp ih h
  | case12 c s hamp hper hc ih =>
    rw [replacementText, if_neg hamp, if_neg hper, if_neg hc]
    exact map_eq_ok_of_imp ih h
  | _ => cases h

section Steps

variable {d : Declarations} {stage : Stage} {t : Token} {here : List Char}
  {x : Stage × Declarations}

theorem entityStep_widen {entity : Declared} {value valueEnd : List Char} {isCut : Bool}
    (h : entityStep a d entity value valueEnd isCut = .ok x) :
    entityStep b d entity value valueEnd isCut = .ok x := by
  unfold entityStep at h ⊢
  split at h
  · rename_i hc
    rw [if_pos hc]
    split at h
    · cases h
    · rename_i text ht
      rw [replacementText_widen hab ht]
      exact h
  · rename_i hc
    rw [if_neg hc]
    exact h

theorem defaultStep_widen {element name value valueEnd : List Char} {isTokens isCut : Bool}
    (h : defaultStep a d element name isTokens value valueEnd isCut here = .ok x) :
    defaultStep b d element name isTokens value valueEnd isCut here = .ok x := by
  unfold defaultStep at h ⊢
  dsimp only at h ⊢
  split at h
  · rename_i hc
    rw [if_pos hc]
    split at h
    · cases h
    · cases h
    · rename_i v hv
      rw [readValue_widen hab hv]
      exact h
  · rename_i hc
    rw [if_neg hc]
    exact h

namespace Stage

theorem nextInEntity_widen (h : nextInEntity a d stage t here = .ok x) :
    nextInEntity b d stage t here = .ok x := by
  unfold nextInEntity at h
  split at h
  all_goals first
    | exact entityStep_widen hab h
    | exact h
    | cases h

theorem nextInAttributes_widen (h : nextInAttributes a d stage t here = .ok x) :
    nextInAttributes b d stage t here = .ok x := by
  unfold nextInAttributes at h
  split at h
  all_goals first
    | exact defaultStep_widen hab h
    | exact h
    | cases h

/-- **A token leads to the same stage.** Only the literals of entities and of default values are
looked into. -/
theorem next_widen (h : stage.next a d t here = .ok x) : stage.next b d t here = .ok x := by
  unfold next at h ⊢
  split at h
  · rename_i ht
    rw [if_pos ht]
    exact h
  · rename_i ht
    rw [if_neg ht]
    split at h
    all_goals first
      | exact nextInEntity_widen hab h
      | exact nextInAttributes_widen hab h
      | exact h

omit hab in
/-- The start of an element leads to no stage. -/
theorem next_elementStart_ne_ok : stage.next a d .elementStart here ≠ .ok x := by
  intro h
  cases stage with
  | entityEnd entity => cases entity <;> cases h
  | member element connectors => cases connectors <;> cases h
  | memberNext element connector outer => cases outer <;> cases h
  | _ => cases h

end Stage

end Steps

/-! ## The whole prolog -/

/-- What seems to start the root element starts it in the wider alphabet. -/
theorem scan_elementStart_widen {ending : Ending} {text : List Char} {r : Scanned}
    (h : scan a ending text = .ok r) (hr : r.token = .elementStart)
    (hopens : ∀ c s, text = '<' :: c :: s → c ≠ '!' ∧ c ≠ '?' → b.opensElement c = true) :
    scan b ending text = .ok r := by
  rcases (leads_of_scan hab.separates.1 h).of_elementStart hr with rfl | ⟨c, s, rfl, hc, hm⟩
  · exact h
  · rw [scan.eq_5 _ _ _ _ hm.1 hm.2, if_pos hc] at h
    rw [scan.eq_5 _ _ _ _ hm.1 hm.2, if_pos (hopens c s rfl hm)]
    exact h

/-- **A prolog is read as the same** if its root element starts in the wider alphabet, too. -/
theorem readProlog_widen {ending : Ending} {stage : Stage} {d d' : Declarations}
    {text rest : List Char} (h : readProlog a ending stage d text = .ok (d', rest))
    (hroot : ∀ c s, rest = '<' :: c :: s → c ≠ '!' ∧ c ≠ '?' → b.opensElement c = true) :
    readProlog b ending stage d text = .ok (d', rest) := by
  -- The induction follows the reader from token to token.
  fun_induction readProlog a ending stage d text with
  | case1 => cases h
  | case2 => cases h
  | case3 ending stage d text _ scanned hs hr =>
    obtain ⟨rfl, rfl⟩ := Prod.mk.inj (Except.ok.inj h)
    rw [readProlog_of_scan (scan_elementStart_widen hab hs hr.1 hroot), if_pos hr]
  | case4 => cases h
  | case5 ending stage d text _ scanned hs hr stage' d'' hn ih =>
    rw [dite_eq_ite] at ih
    have ht : scanned.token ≠ .elementStart := by
      intro ht
      rw [ht] at hn
      exact Stage.next_elementStart_ne_ok hn
    rw [readProlog_of_scan (scan_widen hab hs ht), if_neg hr, Stage.next_widen hab hn]
    exact ih h

end Prolog

/-! ## The whole document -/

namespace Source

/-- **A document without a declaration is read as the same.** -/
theorem readRoot_widen {shown shown' body : List Char} {standalone : Bool} {root : Node}
    (h : (Source.mk a shown body .complete).readRoot standalone = .ok root) :
    (Source.mk b shown' body .complete).readRoot standalone = .ok root := by
  obtain ⟨d, text, rest, hp, hc, he⟩ := exists_of_readRoot h
  have hrun := (readContent_eq_ok_iff hab.separates.1 fun c => (hab.units_pos c).1).1 hc
  have hprolog := Prolog.readProlog_widen hab hp fun c s ht hm =>
    hab.opens c ((ht ▸ hrun).startsName hm)
  have hepilog := (Prolog.readEpilog_eq_ok_iff hab.separates.2).2
    (((Prolog.readEpilog_eq_ok_iff hab.separates.1).1 he).mono fun _ hn =>
      Alphabet.IsName.widen hab hn)
  simp only [readRoot, hprolog, readContent_widen hab hc, hepilog]

/-- What starts a document is its declaration in both alphabets, or in none. -/
theorem declaration?_widen {shown shown' body : List Char} {r : Prolog.Scanned}
    (h : Prolog.scan a .complete body = .ok r) :
    (Source.mk b shown' body .complete).declaration? =
      (Source.mk a shown body .complete).declaration? := by
  by_cases hr : r.token = .elementStart
  · -- Another character than `?` follows `<`, whether or not it opens an element.
    rcases (Prolog.leads_of_scan hab.separates.1 h).of_elementStart hr with
      rfl | ⟨c, s, rfl, hc, hm⟩
    · rfl
    · rw [declaration?, declaration?]
      dsimp only
      rw [Prolog.scan.eq_5 _ _ _ _ hm.1 hm.2, Prolog.scan.eq_5 _ _ _ _ hm.1 hm.2, if_pos hc]
      cases b.opensElement c <;> rfl
  · rw [declaration?, declaration?, h, Prolog.scan_widen hab h hr]

end Source

end FxmlWiring.Markup
