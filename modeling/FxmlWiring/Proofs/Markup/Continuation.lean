import FxmlWiring.Proofs.Markup.Surroundings

/-! # Prologs that go on

A reader that has got to the end of a token, with text left, has found what it finds if more text
follows: `scan_append` for one token outside the root element, `readProlog_append` for the whole
prolog. Only the places that errors name depend on what comes later. -/

namespace FxmlWiring.Markup

open Text

variable {a : Alphabet} {ending : Ending}

/-- A name that something follows is the same name if more text comes. -/
theorem scanName_append_of_ne_nil {s n rest : List Char} (h : scanName a s = .ok (n, rest))
    (hr : rest ≠ []) (more : List Char) : scanName a (s ++ more) = .ok (n, rest ++ more) := by
  obtain ⟨x, t, rfl⟩ := List.exists_cons_of_ne_nil hr
  unfold scanName at h
  split at h
  · cases h
  · rename_i c s
    split at h
    · rename_i hc
      obtain ⟨rfl, hd⟩ := Prod.mk.inj (Except.ok.inj h)
      rw [List.cons_append, scanName, if_pos hc, dropWhile_append_of_eq_cons hd,
        takeWhile_append_of_eq_cons hd]
      rfl
    · cases h

/-- A comment is the same comment if more text comes. -/
theorem scanComment_append {s rest : List Char} (h : scanComment s = .ok rest) (more : List Char) :
    scanComment (s ++ more) = .ok (rest ++ more) := by
  obtain ⟨w, hw, hs⟩ := scanComment_eq_ok_iff.1 h
  exact scanComment_eq_ok_iff.2 ⟨w, hw, by rw [← List.append_assoc, ← hs]; rfl⟩

/-- An instruction is the same instruction if more text comes. -/
theorem scanInstruction_append (ha : a.Separates) {s target rest : List Char}
    (h : scanInstruction a s = .ok (target, rest)) (more : List Char) :
    scanInstruction a (s ++ more) = .ok (target, rest ++ more) := by
  obtain ⟨u, hn, hx, hu, rfl⟩ := (scanInstruction_eq_ok_iff ha).1 h
  exact (scanInstruction_eq_ok_iff ha).2 ⟨u, hn, hx, hu, by simp⟩

namespace Prolog

/-! ## One token -/

/-- The token when more text follows: a literal tells the text from its closing quote on. -/
def Token.extend (more : List Char) : Token → Token
  | .literal value valueEnd isCut => .literal value (valueEnd ++ more) isCut
  | t => t

/-- What has been scanned when more text follows. -/
def Scanned.extend (more : List Char) (r : Scanned) : Scanned :=
  ⟨r.token.extend more, r.rest ++ more, false⟩

/-- A token at the end of the text leaves nothing. -/
theorem rest_of_atEnd {halt : Halt} {t : Token} {r : Scanned} (h : atEnd ending halt t = .ok r) :
    r.rest = [] := by
  unfold atEnd at h
  split at h
  · obtain rfl := Except.ok.inj h
    rfl
  · obtain rfl := Except.ok.inj h
    rfl
  · cases h

section Scanners

variable {s : List Char} {r : Scanned} (hr : r.rest ≠ []) (ending' : Ending) (more : List Char)
include hr

theorem scanWord_append (h : scanWord a ending s = .ok r) :
    scanWord a ending' (s ++ more) = .ok (r.extend more) := by
  have hword : ∀ (isName : Bool) (word : List Char) (x : Option Char),
      (if isName = true then Token.name word x else .nameToken).extend more =
        if isName = true then Token.name word x else .nameToken := by
    intro isName word x
    cases isName <;> rfl
  unfold scanWord at h
  split at h
  · cases h
  · rename_i c s
    split at h
    · rename_i hc
      dsimp only at h
      split at h
      · exact absurd (rest_of_atEnd h) hr
      · rename_i x rest hd
        rw [List.cons_append, scanWord, if_pos hc]
        simp only [dropWhile_append_of_eq_cons hd, takeWhile_append_of_eq_cons hd]
        split at h
        · rename_i hx
          obtain rfl := Except.ok.inj h
          rw [if_pos hx, Scanned.extend, hword]
          rfl
        · rename_i hx
          split at h
          · rename_i hrep
            obtain rfl := Except.ok.inj h
            rw [if_neg hx, if_pos hrep, Scanned.extend, hword]
          · cases h
    · cases h

theorem scanLiteral_append {q : Char} (h : scanLiteral ending q s = .ok r) :
    scanLiteral ending' q (s ++ more) = .ok (r.extend more) := by
  unfold scanLiteral at h
  split at h
  · cases h
  · rename_i c rest hd
    rw [scanLiteral]
    simp only [dropWhile_append_of_eq_cons hd, takeWhile_append_of_eq_cons hd]
    split at h
    · rename_i hc
      dsimp only at h
      rw [if_pos hc]
      split at h
      · exact absurd (rest_of_atEnd h) hr
      · split at h
        · rename_i hx
          obtain rfl := Except.ok.inj h
          rw [List.cons_append]
          simp only [if_pos hx]
          rfl
        · cases h
    · cases h

theorem scanKeyword_append (h : scanKeyword a ending s = .ok r) :
    scanKeyword a ending' (s ++ more) = .ok (r.extend more) := by
  unfold scanKeyword at h
  split at h
  · cases h
  · exact absurd (rest_of_atEnd h) hr
  · rename_i name c rest hn
    have hn' := scanName_append_of_ne_nil hn (List.cons_ne_nil c rest) more
    rw [scanKeyword, hn']
    split at h
    · rename_i hc
      obtain rfl := Except.ok.inj h
      simp only [List.cons_append, if_pos hc]
      rfl
    · cases h

theorem scanParen_append (h : scanParen ending s = .ok r) :
    scanParen ending' (s ++ more) = .ok (r.extend more) := by
  unfold scanParen at h
  split at h
  · exact absurd (rest_of_atEnd h) hr
  · rename_i c rest
    rw [List.cons_append, scanParen]
    split at h
    · rename_i hc
      obtain rfl := Except.ok.inj h
      rw [if_pos hc]
      rfl
    · rename_i hc
      split at h
      · rename_i hc'
        obtain rfl := Except.ok.inj h
        rw [if_neg hc, if_pos hc']
        rfl
      · cases h

theorem scanBrackets_append (he : ending.isTruncated = false) (h : scanBrackets ending s = .ok r) :
    scanBrackets ending' (s ++ more) = .ok (r.extend more) := by
  unfold scanBrackets at h
  split at h
  · obtain rfl := Except.ok.inj h
    exact absurd rfl hr
  · obtain rfl := Except.ok.inj h
    rfl
  · rw [he] at h
    cases h
  · rename_i hsection hcut
    obtain rfl := Except.ok.inj h
    dsimp only at hr
    rw [scanBrackets.eq_4]
    · rfl
    -- The characters that decide are there already.
    · rintro h
      exact hr (List.append_eq_nil_iff.1 h).1
    · intro u hu
      rcases s with _ | ⟨c, _ | ⟨c', s⟩⟩
      · exact hr rfl
      · exact hcut (by rw [(List.cons.inj hu).1])
      · obtain ⟨hc, ht⟩ := List.cons.inj hu
        exact hsection s (by rw [hc, (List.cons.inj ht).1])
    · intro h
      rcases s with _ | ⟨c, _ | ⟨c', s⟩⟩
      · exact hr rfl
      · exact hcut (by rw [(List.cons.inj h).1])
      · cases (List.cons.inj h).2

theorem scanDeclaration_append (he : ending.isTruncated = false)
    (h : scanDeclaration a ending s = .ok r) :
    scanDeclaration a ending' (s ++ more) = .ok (r.extend more) := by
  unfold scanDeclaration at h
  split at h
  · cases h
  · rename_i s
    cases hc : scanComment s with
    | error e =>
      rw [hc] at h
      cases h
    | ok rest =>
      rw [hc] at h
      obtain rfl := Except.ok.inj h
      rw [List.cons_append, scanDeclaration, scanComment_append hc]
      rfl
  · obtain rfl := Except.ok.inj h
    rfl
  · rename_i c s hc₁ hc₂
    split at h
    · rename_i hk
      rw [List.cons_append, scanDeclaration.eq_4 _ _ _ _ hc₁ hc₂, if_pos hk]
      dsimp only at h ⊢
      split at h
      · cases h
      · rename_i rest hd
        simp only [dropWhile_append_of_eq_cons hd, takeWhile_append_of_eq_cons hd]
        split at h
        · rw [he] at h
          cases h
        · rename_i x t
          split at h
          · cases h
          · rename_i hx
            obtain rfl := Except.ok.inj h
            rw [List.cons_append]
            simp only [if_neg hx]
            rfl
      · rename_i x rest hx hd
        simp only [dropWhile_append_of_eq_cons hd, takeWhile_append_of_eq_cons hd]
        split at h
        · rename_i hsp
          obtain rfl := Except.ok.inj h

          simp only [if_pos hsp]
          rfl
        · cases h
    · cases h

end Scanners

/-- A percent sign, or a reference. -/
theorem scanPercent_append {s rest : List Char} {isReference : Bool}
    (h : scanPercent a s = .ok (isReference, rest)) (more : List Char) :
    scanPercent a (s ++ more) = .ok (isReference, rest ++ more) := by
  unfold scanPercent at h
  split at h
  · cases h
  · rename_i c s
    split at h
    · rename_i hc
      obtain ⟨rfl, rfl⟩ := Prod.mk.inj (Except.ok.inj h)
      rw [List.cons_append, scanPercent, if_pos hc]
    · rename_i hc
      split at h
      · cases h
      · rename_i n t hn
        obtain ⟨rfl, rfl⟩ := Prod.mk.inj (Except.ok.inj h)
        have hn' := scanName_append_of_ne_nil hn (List.cons_ne_nil ';' t) more
        rw [List.cons_append] at hn'
        rw [List.cons_append, scanPercent, if_neg hc, hn']
        rfl
      · cases h
      · cases h

/-- **A token that something follows is the same token if more text comes**, unless the text ends
inside a character. -/
theorem scan_append (ha : a.Separates) (he : ending.isTruncated = false) {text : List Char}
    {r : Scanned} (h : scan a ending text = .ok r) (hr : r.rest ≠ []) (ending' : Ending)
    (more : List Char) : scan a ending' (text ++ more) = .ok (r.extend more) := by
  unfold scan at h
  split at h
  · cases h
  · rw [he] at h
    cases h
  · exact scanDeclaration_append hr ending' more he h
  · rename_i s
    cases hi : scanInstruction a s with
    | error e =>
      rw [hi] at h
      cases h
    | ok x =>
      rw [hi] at h
      obtain rfl := Except.ok.inj h
      rw [List.cons_append, List.cons_append, scan, scanInstruction_append ha hi]
      dsimp only [Except.map]
      split <;> rfl
  · rename_i c s hb hq
    split at h
    · rename_i hc
      obtain rfl := Except.ok.inj h
      rw [List.cons_append, List.cons_append, scan.eq_5 _ _ _ _ hb hq, if_pos hc]
      rfl
    · cases h
  · rename_i s
    cases hp : scanPercent a s with
    | error e =>
      rw [hp] at h
      cases h
    | ok x =>
      rw [hp] at h
      obtain rfl := Except.ok.inj h
      obtain ⟨isReference, rest⟩ := x
      rw [List.cons_append, scan, scanPercent_append hp]
      cases isReference <;> rfl
  case h_10 => exact scanBrackets_append hr ending' more he h
  case h_12 => exact scanParen_append hr ending' more h
  case h_14 => exact scanKeyword_append hr ending' more h
  case h_15 c s h₁ _ _ h₄ h₅ h₆ h₇ h₈ h₉ h₁₀ h₁₁ h₁₂ h₁₃ =>
    -- All that `<` could start has been taken before.
    have hlt : c ≠ '<' := by
      rintro rfl
      cases s with
      | nil => exact h₁ rfl rfl
      | cons x s => exact h₄ x s rfl rfl
    rw [List.cons_append, scan.eq_15 a ending' c (s ++ more) (fun h => absurd h hlt)
      (fun _ h => absurd h hlt) (fun _ h => absurd h hlt) (fun _ _ h => absurd h hlt)
      h₅ h₆ h₇ h₈ h₉ h₁₀ h₁₁ h₁₂ h₁₃]
    split at h
    · rename_i hc
      obtain rfl := Except.ok.inj h
      rw [if_pos hc]
      rfl
    · rename_i hc
      rw [if_neg hc]
      split at h
      · rename_i hq
        rw [if_pos hq]
        exact scanLiteral_append hr ending' more h
      · rename_i hq
        rw [if_neg hq]
        exact scanWord_append hr ending' more h
  all_goals
    obtain rfl := Except.ok.inj h
    rfl

/-! ## From stage to stage -/

section Steps

variable {a : Alphabet} {d : Declarations} {stage : Stage} {t : Token} {here : List Char}
  {x : Stage × Declarations} (more here' : List Char)

theorem publicIdStep_eq_ok {value valueEnd : List Char} (valueEnd' : List Char)
    (h : publicIdStep value valueEnd stage d = .ok x) :
    publicIdStep value valueEnd' stage d = .ok x := by
  unfold publicIdStep at h ⊢
  split at h
  · cases h
  · exact h

theorem entityStep_eq_ok {entity : Declared} {value valueEnd : List Char} {isCut : Bool}
    (valueEnd' : List Char) (h : entityStep a d entity value valueEnd isCut = .ok x) :
    entityStep a d entity value valueEnd' isCut = .ok x := by
  unfold entityStep at h ⊢
  split at h
  · rename_i hc
    rw [if_pos hc]
    split at h
    · cases h
    · split at h
      · cases h
      · rename_i hcut
        rwa [if_neg hcut]
  · rename_i hc
    rw [if_neg hc]
    exact h

theorem defaultStep_eq_ok {element name value valueEnd : List Char} {isTokens isCut : Bool}
    (valueEnd' here' : List Char)
    (h : defaultStep a d element name isTokens value valueEnd isCut here = .ok x) :
    defaultStep a d element name isTokens value valueEnd' isCut here' = .ok x := by
  unfold defaultStep at h ⊢
  dsimp only at h ⊢
  split at h
  · rename_i hc
    rw [if_pos hc]
    split at h
    · cases h
    · cases h
    · split at h
      · cases h
      · rename_i hcut
        rwa [if_neg hcut]
  · rename_i hc
    rw [if_neg hc]
    exact h

namespace Stage

/-! A token that cannot stand somewhere is an error in both texts. Any other token leads to the same
stage: the branches of a step say so themselves (`exact h`), but where a literal is judged or a word
decides. -/

theorem nextInSubset_extend (h : nextInSubset d t here = .ok x) :
    nextInSubset d (t.extend more) here' = .ok x := by
  unfold nextInSubset at h
  split at h
  all_goals first
    | exact h
    | cases h
    | (simp only [nextInSubset, Token.extend]; split at h <;> simp_all [unexpected])

theorem nextInDoctype_extend (h : nextInDoctype d stage t here = .ok x) :
    nextInDoctype d stage (t.extend more) here' = .ok x := by
  unfold nextInDoctype at h
  split at h
  all_goals first
    | exact h
    | cases h
    | exact publicIdStep_eq_ok _ h
    | (simp only [nextInDoctype, Token.extend]; split at h <;> simp_all [unexpected])

theorem nextInEntity_extend (h : nextInEntity a d stage t here = .ok x) :
    nextInEntity a d stage (t.extend more) here' = .ok x := by
  unfold nextInEntity at h
  split at h
  all_goals first
    | exact h
    | cases h
    | exact publicIdStep_eq_ok _ h
    | exact entityStep_eq_ok _ h
    | (simp only [nextInEntity, Token.extend]; split at h <;> simp_all [unexpected])

theorem nextInNotation_extend (h : nextInNotation d stage t here = .ok x) :
    nextInNotation d stage (t.extend more) here' = .ok x := by
  unfold nextInNotation at h
  split at h
  all_goals first
    | exact h
    | cases h
    | exact publicIdStep_eq_ok _ h
    | (simp only [nextInNotation, Token.extend]; split at h <;> simp_all [unexpected])

theorem nextInAttributes_extend (h : nextInAttributes a d stage t here = .ok x) :
    nextInAttributes a d stage (t.extend more) here' = .ok x := by
  unfold nextInAttributes at h
  split at h
  all_goals first
    | exact h
    | cases h
    | exact defaultStep_eq_ok _ _ h
    | (simp only [nextInAttributes, Token.extend]; repeat' split at h)
  all_goals simp_all [unexpected]

theorem nextInElement_extend (h : nextInElement d stage t here = .ok x) :
    nextInElement d stage (t.extend more) here' = .ok x := by
  unfold nextInElement at h
  split at h
  all_goals first
    | exact h
    | cases h
    | (simp only [nextInElement, Token.extend]; split at h <;> simp_all [unexpected])

theorem next_extend (h : stage.next a d t here = .ok x) :
    stage.next a d (t.extend more) here' = .ok x := by
  have hspace : t.extend more = .space ↔ t = .space := by cases t <;> simp [Token.extend]
  unfold next at h ⊢
  split at h
  · rename_i ht
    rw [if_pos (hspace.2 ht)]
    exact h
  · rename_i ht
    rw [if_neg (mt hspace.1 ht)]
    split at h
    case h_1 =>
      split at h
      all_goals first
        | exact h
        | cases h
        | (simp only [Token.extend]; split at h <;> simp_all [unexpected])
    case h_2 =>
      split at h
      all_goals first
        | exact h
        | cases h
    case h_3 => exact nextInSubset_extend more here' h
    all_goals first
      | exact nextInDoctype_extend more here' h
      | exact nextInEntity_extend more here' h
      | exact nextInNotation_extend more here' h
      | exact nextInAttributes_extend more here' h
      | exact nextInElement_extend more here' h
      | (split at h
         · rename_i hc
           subst hc
           exact h
         · cases h)

end Stage

end Steps

/-! ## The whole prolog -/

/-- A prolog that can be read starts with a token, and the root element is still to come then. -/
theorem exists_scan_of_readProlog (ha : a.Separates) (he : ending.isTruncated = false)
    {stage : Stage} {d : Declarations} {text : List Char} {x : Declarations × List Char}
    (h : readProlog a ending stage d text = .ok x) :
    ∃ r, scan a ending text = .ok r ∧ r.rest ≠ [] := by
  cases hs : scan a ending text with
  | error halt =>
    rw [readProlog] at h
    split at h
    · cases h
    · split at h <;> simp_all
  | ok r =>
    -- Without a rest, either `<` is the last character, or an empty text is read next.
    refine ⟨r, rfl, fun hr => ?_⟩
    rw [readProlog_of_scan hs] at h
    split at h
    · rename_i hroot
      have hl := leads_of_scan ha hs
      rw [hroot.1, hr] at hl
      cases hl with
      | item _ ht => rcases ht with h | h | h <;> cases h
      | truncated =>
        rw [scan, if_neg (by simp [he])] at hs
        cases hs
      | inner ht => cases ht
    · split at h
      · cases h
      · rw [readProlog, if_pos hr] at h
        cases h

/-- **A prolog that can be read is read in the same way if more text comes.** -/
theorem readProlog_append (ha : a.Separates) (he : ending.isTruncated = false) {stage : Stage}
    {d d' : Declarations} {text rest : List Char}
    (h : readProlog a ending stage d text = .ok (d', rest)) (ending' : Ending)
    (more : List Char) : readProlog a ending' stage d (text ++ more) = .ok (d', rest ++ more) := by
  -- The induction follows the reader from token to token.
  induction hn : text.length using Nat.strong_induction_on generalizing ending stage d text with
  | _ n ih =>
    subst hn
    obtain ⟨r, hs, hr⟩ := exists_scan_of_readProlog ha he h
    have hroot : r.token.extend more = .elementStart ↔ r.token = .elementStart := by
      cases r.token <;> simp [Token.extend]
    rw [readProlog_of_scan hs] at h
    rw [readProlog_of_scan (scan_append ha he hs hr ending' more)]
    simp only [Scanned.extend, hroot, Bool.false_eq_true, if_false]
    split at h
    · -- The root element starts here, with more text behind it.
      rename_i hstart
      obtain ⟨rfl, rfl⟩ := Prod.mk.inj (Except.ok.inj h)
      rw [if_pos hstart]
    · rename_i hstart
      rw [if_neg hstart]
      split at h
      · cases h
      · rename_i stage' d'' hnext
        rw [Stage.next_extend more (text ++ more) hnext]
        refine ih _ (length_scan_lt hs) ?_ h rfl
        split
        · rfl
        · exact he

end Prolog

end FxmlWiring.Markup
