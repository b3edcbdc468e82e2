import FxmlWiring.Markup.Prolog.Read
import FxmlWiring.Proofs.Markup.Recognized

/-! # Around the root element

Blanks, comments and instructions may stand before and after the root element. Reading passes them
over in both places and takes nothing else (`readProlog_opening_cases`, `readEpilog_eq_ok_iff`),
unless a document type is there. What a token tells about the text where it was found is `Leads`. -/

namespace FxmlWiring.Markup.Prolog

open Text

variable {a : Alphabet} {d : Declarations}

/-! ## Tokens -/

/-- A token that may stand around the root element. -/
def Token.IsMisc (t : Token) : Prop :=
  t = .space ∨ t = .comment ∨ t = .instruction

/-- A token that stands in a document type only. -/
def Token.isInner : Token → Bool
  | .space | .comment | .instruction | .xmlDeclaration | .declaration _ | .elementStart => false
  | _ => true

@[simp] theorem Token.isInner_cut (t : Token) : t.cut.isInner = t.isInner := by
  cases t <;> rfl

theorem isInner_of_atEnd {ending : Ending} {halt : Halt} {t : Token} {r : Scanned}
    (h : atEnd ending halt t = .ok r) (ht : t.isInner = true) : r.token.isInner = true := by
  unfold atEnd at h
  split at h
  · obtain rfl := Except.ok.inj h
    exact ht
  · obtain rfl := Except.ok.inj h
    rwa [← t.isInner_cut] at ht
  · cases h

theorem isInner_of_scanWord {ending : Ending} {s : List Char} {r : Scanned}
    (h : scanWord a ending s = .ok r) : r.token.isInner = true := by
  have hword : ∀ (isName : Bool) (word : List Char) (x : Option Char),
      (if isName = true then Token.name word x else .nameToken).isInner = true := by
    intro isName word x
    cases isName <;> rfl
  unfold scanWord at h
  split at h
  · cases h
  · split at h
    · dsimp only at h
      split at h
      · exact isInner_of_atEnd h (hword _ _ _)
      · split at h
        · obtain rfl := Except.ok.inj h
          exact hword _ _ _
        · split at h
          · obtain rfl := Except.ok.inj h
            exact hword _ _ _
          · cases h
    · cases h

theorem isInner_of_scanLiteral {ending : Ending} {q : Char} {s : List Char} {r : Scanned}
    (h : scanLiteral ending q s = .ok r) : r.token.isInner = true := by
  unfold scanLiteral at h
  split at h
  · cases h
  · split at h
    · dsimp only at h
      split at h
      · exact isInner_of_atEnd h rfl
      · split at h
        · obtain rfl := Except.ok.inj h
          rfl
        · cases h
    · cases h

theorem isInner_of_scanKeyword {ending : Ending} {s : List Char} {r : Scanned}
    (h : scanKeyword a ending s = .ok r) : r.token.isInner = true := by
  unfold scanKeyword at h
  split at h
  · cases h
  · exact isInner_of_atEnd h rfl
  · split at h
    · obtain rfl := Except.ok.inj h
      rfl
    · cases h

theorem isInner_of_scanBrackets {ending : Ending} {s : List Char} {r : Scanned}
    (h : scanBrackets ending s = .ok r) : r.token.isInner = true := by
  unfold scanBrackets at h
  split at h
  · obtain rfl := Except.ok.inj h
    rfl
  · obtain rfl := Except.ok.inj h
    rfl
  · split at h
    · obtain rfl := Except.ok.inj h
      rfl
    · cases h
  · obtain rfl := Except.ok.inj h
    rfl

theorem isInner_of_scanParen {ending : Ending} {s : List Char} {r : Scanned}
    (h : scanParen ending s = .ok r) : r.token.isInner = true := by
  unfold scanParen at h
  split at h
  · exact isInner_of_atEnd h rfl
  · split at h
    · obtain rfl := Except.ok.inj h
      rfl
    · split at h
      · obtain rfl := Except.ok.inj h
        rfl
      · cases h

/-- What a token outside the root element tells about the front of the text, and what is left. -/
inductive Leads (a : Alphabet) : List Char → Token → List Char → Prop
  | item {w : List Char} {t : Token} (hw : a.dialect.IsMiscItem w) (ht : t.IsMisc)
      (rest : List Char) : Leads a (w ++ rest) t rest
  | declaration (keyword rest : List Char) :
      Leads a ('<' :: '!' :: (keyword ++ rest)) (.declaration keyword) rest
  | xmlDeclaration {u : List Char} (hu : IsInstructionText u) (rest : List Char) :
      Leads a ("<?xml".toList ++ u ++ "?>".toList ++ rest) .xmlDeclaration rest
  | root {c : Char} (hc : a.opensElement c = true) (hm : c ≠ '!' ∧ c ≠ '?') (rest : List Char) :
      Leads a ('<' :: c :: rest) .elementStart (c :: rest)
  | truncated : Leads a ['<'] .elementStart []
  | inner {t : Token} (ht : t.isInner = true) (text rest : List Char) : Leads a text t rest

/-- Where a token leads that may stand around the root element. -/
theorem Leads.exists_item {text rest : List Char} {t : Token} (h : Leads a text t rest)
    (ht : t.IsMisc) : ∃ w, a.dialect.IsMiscItem w ∧ text = w ++ rest := by
  cases h with
  | item hw => exact ⟨_, hw, rfl⟩
  | _ => rcases ht with h | h | h <;> simp_all [Token.isInner]

/-- Where an XML declaration leads. -/
theorem Leads.exists_settings {text rest : List Char} {t : Token} (h : Leads a text t rest)
    (ht : t = .xmlDeclaration) :
    ∃ u, IsInstructionText u ∧ text = "<?xml".toList ++ u ++ "?>".toList ++ rest := by
  cases h with
  | xmlDeclaration hu => exact ⟨_, hu, rfl⟩
  | item _ hm => rcases hm with h | h | h <;> cases h.symm.trans ht
  | inner hi => rw [ht] at hi; cases hi
  | _ => cases ht

/-- Where the root element starts. -/
theorem Leads.of_elementStart {text rest : List Char} {t : Token} (h : Leads a text t rest)
    (ht : t = .elementStart) : text = ['<'] ∨
      ∃ c s, text = '<' :: c :: s ∧ a.opensElement c = true ∧ (c ≠ '!' ∧ c ≠ '?') := by
  cases h with
  | root hc hm s => exact Or.inr ⟨_, s, rfl, hc, hm⟩
  | truncated => exact Or.inl rfl
  | item _ hm => rcases hm with h | h | h <;> cases h.symm.trans ht
  | inner hi => rw [ht] at hi; cases hi
  | _ => cases ht

/-- What `<!` starts is a comment, a declaration or a section. -/
theorem leads_of_scanDeclaration {ending : Ending} {s : List Char} {r : Scanned}
    (h : scanDeclaration a ending s = .ok r) : Leads a ('<' :: '!' :: s) r.token r.rest := by
  unfold scanDeclaration at h
  split at h
  · cases h
  · rename_i s
    cases hc : scanComment s with
    | error e =>
      rw [hc] at h
      cases h
    | ok rest =>
      rw [hc] at h
      obtain rfl := Except.ok.inj h
      obtain ⟨w, hw, hs⟩ := scanComment_eq_ok_iff.1 hc
      rw [hs]
      exact .item (.comment hw) (Or.inr (Or.inl rfl)) rest
  · obtain rfl := Except.ok.inj h
    exact .inner rfl _ _
  · rename_i c s _ _
    -- The keyword is taken off the front, whatever ends it.
    have hkeyword : ∀ {rest : List Char}, s.dropWhile a.spellsKeyword = rest →
        Leads a ('<' :: '!' :: c :: s) (.declaration (c :: s.takeWhile a.spellsKeyword)) rest := by
      rintro _ rfl
      have hd := Leads.declaration (a := a) (c :: s.takeWhile a.spellsKeyword)
        (s.dropWhile a.spellsKeyword)
      rwa [List.cons_append, List.takeWhile_append_dropWhile] at hd
    split at h
    · dsimp only at h
      split at h
      · cases h
      · rename_i hs
        split at h
        · split at h
          · obtain rfl := Except.ok.inj h
            exact hkeyword hs
          · cases h
        · split at h
          · cases h
          · obtain rfl := Except.ok.inj h
            exact hkeyword hs
      · rename_i hs
        split at h
        · obtain rfl := Except.ok.inj h
          exact hkeyword hs
        · cases h
    · cases h

/-- **A token is found where the text leads with it.** -/
theorem leads_of_scan (ha : a.Separates) {ending : Ending} {text : List Char} {r : Scanned}
    (h : scan a ending text = .ok r) : Leads a text r.token r.rest := by
  unfold scan at h
  split at h
  · cases h
  · split at h
    · obtain rfl := Except.ok.inj h
      exact .truncated
    · cases h
  · exact leads_of_scanDeclaration h
  · rename_i s
    cases hi : scanInstruction a s with
    | error e =>
      rw [hi] at h
      cases h
    | ok x =>
      obtain ⟨target, rest⟩ := x
      obtain ⟨u, hn, hx, hu, rfl⟩ := (scanInstruction_eq_ok_iff ha).1 hi
      rw [hi] at h
      obtain rfl := Except.ok.inj h
      dsimp only
      split
      · rename_i hxml
        subst hxml
        have hl := Leads.xmlDeclaration (a := a) hu rest
        simpa using hl
      · rename_i hxml
        have hw : a.dialect.IsInstruction ("<?".toList ++ target ++ u ++ "?>".toList) :=
          ⟨target, u, hn, by simpa using fun h => hxml (hx h), hu, rfl⟩
        have hl := Leads.item (.instruction hw) (Or.inr (Or.inr rfl)) rest
        simpa using hl
  · rename_i c s hb hq
    split at h
    · rename_i hc
      obtain rfl := Except.ok.inj h
      exact .root hc ⟨hb, hq⟩ s
    · cases h
  · rename_i s
    cases hp : scanPercent a s with
    | error e =>
      rw [hp] at h
      cases h
    | ok x =>
      rw [hp] at h
      obtain rfl := Except.ok.inj h
      obtain ⟨isReference, rest⟩ := x
      cases isReference <;> exact .inner rfl _ _
  case h_10 => exact .inner (isInner_of_scanBrackets h) _ _
  case h_12 => exact .inner (isInner_of_scanParen h) _ _
  case h_14 => exact .inner (isInner_of_scanKeyword h) _ _
  case h_15 c s _ _ _ _ _ _ _ _ _ _ _ _ _ =>
    split at h
    · rename_i hc
      obtain rfl := Except.ok.inj h
      exact .item (.blank hc) (Or.inl rfl) s
    · split at h
      · exact .inner (isInner_of_scanLiteral h) _ _
      · exact .inner (isInner_of_scanWord h) _ _
  all_goals
    obtain rfl := Except.ok.inj h
    exact .inner rfl _ _

/-- **A blank, a comment or an instruction is scanned**, whatever stands behind it. -/
theorem exists_scan_of_isMiscItem (ha : a.Separates) (ending : Ending) {w : List Char}
    (hw : a.dialect.IsMiscItem w) (s : List Char) :
    ∃ t : Token, t.IsMisc ∧ scan a ending (w ++ s) = .ok ⟨t, s, false⟩ := by
  cases hw with
  | @blank c hc =>
    refine ⟨.space, Or.inl rfl, ?_⟩
    have hc : c = ' ' ∨ c = '\t' ∨ c = '\n' ∨ c = '\r' := by simpa [isSpace, or_assoc] using hc
    rcases hc with rfl | rfl | rfl | rfl <;> rfl
  | @comment w hw =>
    obtain ⟨u, -, rfl⟩ := id hw
    have hscan : scanComment ('-' :: (u ++ "-->".toList) ++ s) = .ok s :=
      scanComment_eq_ok_iff.2 ⟨_, hw, rfl⟩
    refine ⟨.comment, Or.inr (Or.inl rfl), ?_⟩
    change scanDeclaration a ending ('-' :: ('-' :: (u ++ "-->".toList) ++ s)) = _
    rw [scanDeclaration, hscan]
    rfl
  | @instruction w hw =>
    obtain ⟨target, u, hn, hx, hu, rfl⟩ := hw
    have hxml : target ≠ ['x', 'm', 'l'] := by
      rintro rfl
      exact absurd hx (by decide)
    have hscan : scanInstruction a (target ++ (u ++ '?' :: '>' :: s)) = .ok (target, s) :=
      (scanInstruction_eq_ok_iff ha).2 ⟨u, hn, by simp [hx], hu, rfl⟩
    refine ⟨.instruction, Or.inr (Or.inr rfl), ?_⟩
    have hs : "<?".toList ++ target ++ u ++ "?>".toList ++ s =
        '<' :: '?' :: (target ++ (u ++ '?' :: '>' :: s)) := by simp
    rw [hs, scan, hscan]
    simp only [Except.map, if_neg hxml]

/-! ## Before the root element -/

/-- The prolog is read from token to token. -/
theorem readProlog_of_scan {ending : Ending} {stage : Stage} {text : List Char} {scanned : Scanned}
    (hs : scan a ending text = .ok scanned) :
    readProlog a ending stage d text =
      if scanned.token = .elementStart ∧ stage.allowsRoot = true then .ok (d, text)
      else
        match stage.next a d scanned.token text with
        | .error f => .error f
        | .ok (stage, d) =>
          readProlog a (if scanned.isLast then .complete else ending) stage d scanned.rest := by
  have hne : text ≠ [] := by
    rintro rfl
    cases hs
  rw [readProlog, if_neg hne]
  split
  · rename_i h
    rw [hs] at h
    cases h
  · rename_i scanned' h
    obtain rfl := Except.ok.inj (hs.symm.trans h)
    rfl

/-- A blank, a comment or an instruction leaves the stage and the declarations as they are. -/
theorem Stage.next_opening_of_isMisc {t : Token} (ht : t.IsMisc) (here : List Char) :
    Stage.opening.next a d t here = .ok (.opening, d) := by
  rcases ht with rfl | rfl | rfl <;> rfl

/-- A token that cannot stand before the root element where there is no document type. -/
def Token.IsMisplaced (t : Token) : Prop :=
  t.isInner = true ∨ t = .xmlDeclaration ∨
    ∃ keyword, t = .declaration keyword ∧ keyword ≠ "DOCTYPE".toList

theorem Stage.next_opening_of_isMisplaced {t : Token} (ht : t.IsMisplaced) (here : List Char) :
    ∃ f, Stage.opening.next a d t here = .error (.fault f) := by
  rcases ht with ht | rfl | ⟨keyword, rfl, hk⟩
  · cases t <;> first | exact ⟨_, rfl⟩ | cases ht
  · exact ⟨_, rfl⟩
  · have hk : String.ofList keyword ≠ "DOCTYPE" := by
      intro h
      rw [← h, String.toList_ofList] at hk
      exact hk rfl
    exact ⟨_, by rw [next, if_neg (by simp)]; exact if_neg hk⟩

/-- Reading goes on behind a blank, a comment or an instruction. -/
theorem readProlog_opening_item (ha : a.Separates) (ending : Ending) {w : List Char}
    (hw : a.dialect.IsMiscItem w) (s : List Char) :
    readProlog a ending .opening d (w ++ s) = readProlog a ending .opening d s := by
  obtain ⟨t, ht, hs⟩ := exists_scan_of_isMiscItem ha ending hw s
  have hroot : ¬ (t = .elementStart ∧ Stage.opening.allowsRoot = true) := by
    rcases ht with rfl | rfl | rfl <;> simp
  rw [readProlog_of_scan hs, if_neg hroot, Stage.next_opening_of_isMisc ht]
  rfl

/-- A misplaced token is a fault. -/
theorem readProlog_opening_of_isMisplaced {ending : Ending} {text : List Char} {scanned : Scanned}
    (hs : scan a ending text = .ok scanned) (ht : scanned.token.IsMisplaced) :
    ∃ f, readProlog a ending .opening d text = .error (.fault f) := by
  obtain ⟨f, hf⟩ := Stage.next_opening_of_isMisplaced (a := a) (d := d) ht text
  have hroot : ¬ (scanned.token = .elementStart ∧ Stage.opening.allowsRoot = true) := by
    rintro ⟨h, -⟩
    rw [h] at ht
    simp [Token.IsMisplaced, Token.isInner] at ht
  exact ⟨f, by rw [readProlog_of_scan hs, if_neg hroot, hf]⟩

/-- **What stands before the root element is passed over.** -/
theorem readProlog_opening_of_isMisc (ha : a.Separates) (ending : Ending) {before : List Char}
    (h : a.dialect.IsMisc before) (s : List Char) :
    readProlog a ending .opening d (before ++ s) = readProlog a ending .opening d s := by
  induction h with
  | nil => rfl
  | cons hw _ ih => rw [List.append_assoc, readProlog_opening_item ha ending hw, ih]

/-- **The prolog without a document type** cannot be read, or there are only blanks, comments and
instructions up to the tag of the root element. -/
theorem readProlog_opening_cases (ha : a.Separates) {text : List Char}
    (hd : ¬ "<!DOCTYPE".toList <:+: text) :
    (∃ f, readProlog a .complete .opening d text = .error (.fault f)) ∨
      ∃ before c s, a.dialect.IsMisc before ∧ text = before ++ '<' :: c :: s ∧ (c ≠ '!' ∧ c ≠ '?') ∧
        readProlog a .complete .opening d text = .ok (d, '<' :: c :: s) := by
  -- The text gets shorter with each token.
  induction hn : text.length using Nat.strong_induction_on generalizing text with
  | _ n ih =>
    subst hn
    cases hs : scan a .complete text with
    | error halt =>
      left
      rw [readProlog]
      split
      · exact ⟨_, rfl⟩
      · split <;> simp_all
    | ok scanned =>
      obtain ⟨t, rest, isLast⟩ := scanned
      have hlt := length_scan_lt hs
      have hl : Leads a text t rest := leads_of_scan ha hs
      cases hl with
      | @item w _ hw ht =>
        -- What stands behind the item holds no document type either.
        rw [readProlog_opening_item ha _ hw]
        rcases ih _ hlt (fun h => hd (h.trans (List.suffix_append w rest).isInfix)) rfl with
          hf | ⟨before, c, s, hb, rfl, hc, hr⟩
        · exact Or.inl hf
        · exact Or.inr ⟨w ++ before, c, s, .cons hw hb, by simp, hc, hr⟩
      | declaration keyword =>
        refine Or.inl (readProlog_opening_of_isMisplaced hs (Or.inr (Or.inr ⟨keyword, rfl, ?_⟩)))
        rintro rfl
        exact hd ⟨[], rest, by simp⟩
      | xmlDeclaration => exact Or.inl (readProlog_opening_of_isMisplaced hs (Or.inr (Or.inl rfl)))
      | @root c hc hm s =>
        exact Or.inr ⟨[], c, s, .nil, rfl, hm, by rw [readProlog_of_scan hs, if_pos ⟨rfl, rfl⟩]⟩
      | truncated => cases hs
      | inner ht => exact Or.inl (readProlog_opening_of_isMisplaced hs (Or.inl ht))

/-! ## After the root element -/

/-- Reading goes on behind a blank, a comment or an instruction. -/
theorem readEpilog_item (ha : a.Separates) {w : List Char} (hw : a.dialect.IsMiscItem w)
    (s : List Char) : readEpilog a .complete (w ++ s) = readEpilog a .complete s := by
  obtain ⟨t, ht, hs⟩ := exists_scan_of_isMiscItem ha .complete hw s
  have hne : w ++ s ≠ [] := by
    intro h
    rw [h] at hs
    cases hs
  rw [readEpilog, if_neg hne]
  split
  · -- A last carriage return is a blank that nothing follows.
    rename_i hr
    have hlt : s.length < (w ++ s).length := length_scan_lt hs
    rw [hr.1] at hlt
    obtain rfl : s = [] := List.length_eq_zero_iff.1 (Nat.lt_one_iff.1 hlt)
    rw [readEpilog, if_pos rfl, if_pos rfl]
  · split
    · rename_i h
      rw [hs] at h
      cases h
    · rename_i scanned h
      obtain rfl := Except.ok.inj (hs.symm.trans h)
      rcases ht with rfl | rfl | rfl <;> rfl

/-- **The epilog is read** if there are only blanks, comments and instructions. -/
theorem readEpilog_eq_ok_iff (ha : a.Separates) {text : List Char} :
    readEpilog a .complete text = .ok () ↔ a.dialect.IsMisc text := by
  -- Each of the three tokens adds its item to the rest.
  have hitem : ∀ {text : List Char} {scanned : Scanned}, scan a .complete text = .ok scanned →
      scanned.token.IsMisc → a.dialect.IsMisc scanned.rest → a.dialect.IsMisc text := by
    intro text scanned hs ht hrest
    obtain ⟨w, hw, hw'⟩ := (leads_of_scan ha hs).exists_item ht
    rw [hw']
    exact .cons hw hrest
  constructor
  · intro h
    fun_induction readEpilog a .complete text with
    | case1 => exact .nil
    | case2 => cases h
    | case3 _ _ hr =>
      rw [hr.1]
      exact .cons (.blank (by decide)) .nil
    | case4 => cases h
    | case5 text _ _ scanned hs ht ih => exact hitem hs (Or.inl ht) (ih h)
    | case6 text _ _ scanned hs ht ih => exact hitem hs (Or.inr (Or.inl ht)) (ih h)
    | case7 text _ _ scanned hs ht ih => exact hitem hs (Or.inr (Or.inr ht)) (ih h)
    | case8 => cases h
  · intro h
    induction h with
    | nil => rw [readEpilog, if_pos rfl, if_pos rfl]
    | cons hw _ ih => rw [readEpilog_item ha hw, ih]

end FxmlWiring.Markup.Prolog
