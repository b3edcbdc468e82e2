import FxmlWiring.Proofs.Markup.ContentRun
import FxmlWiring.Proofs.Markup.NameClass

/-! # Content that is well formed

Where nothing is declared, the reader of content takes just what the grammar calls content. What it
reads up to the end of the root element closes the open elements one after another
(`ReadsTo.exists_closes`), and content of the grammar is read (`Dialect.IsContent.exists_readsTo`).
-/

namespace FxmlWiring.Markup

open Text

/-- The dialect of documents without declarations in an alphabet. -/
def Alphabet.plain (a : Alphabet) : Dialect :=
  ⟨a.IsName, FourthEdition.Resolves⟩

variable {a : Alphabet} {d : Declarations}

/-! ## References -/

/-- A number refers to a character if it is that of a legal one. -/
theorem characterOf?_isSome_iff (code : Nat) :
    (Reference.characterOf? code).isSome = true ↔ ∃ c, isLegal c = true ∧ c.toNat = code := by
  rw [Reference.characterOf?]
  constructor
  · intro h
    split at h
    · rename_i hc
      refine ⟨Char.ofNat code, hc.2, ?_⟩
      rw [Char.ofNat, dif_pos hc.1]
      exact UInt32.toNat_ofNatLT
    · cases h
  · rintro ⟨c, hc, rfl⟩
    rw [if_pos ⟨c.valid, by rwa [Char.ofNat_toNat]⟩]
    rfl

/-- **A reference without declarations** stands for a character if it resolves. -/
theorem meaning?_isSome_iff (r : Reference) :
    r.meaning?.isSome = true ↔ FourthEdition.Resolves r := by
  cases r with
  | character code => exact characterOf?_isSome_iff code
  | entity name =>
    change (Reference.predefined? name).isSome = true ↔ _
    rw [Reference.predefined?, List.lookup_isSome_iff]
    simp [FourthEdition.Resolves]

/-! ## Values -/

/-- Nothing is declared that a reference could be made to, and every reference has to be to
something declared. -/
structure Declarations.IsPlain (d : Declarations) : Prop where
  entities : d.entities = []
  isStrict : d.isStrict = true

/-- The references in a value stand for something. -/
def Expands (d : Declarations) (a : Alphabet) (v : List Char) : Prop :=
  ∃ t, expandValue d a [] v = .ok t

theorem expands_nil : Expands d a [] :=
  ⟨[], by rw [expandValue]⟩

/-- A map does not fail. -/
theorem exists_map_eq_ok_iff {ε α β : Type} {x : Except ε α} {f : α → β} :
    (∃ y, x.map f = .ok y) ↔ ∃ t, x = .ok t := by
  cases x <;> simp [Except.map]

/-- The line feed of a paired line break does not matter. -/
theorem expands_skipPairedBreak_iff (c : Char) (s : List Char) :
    Expands d a (skipPairedBreak a c s) ↔ Expands d a s := by
  unfold skipPairedBreak
  split
  · rename_i r
    split
    · -- By itself, the line feed is a blank.
      rw [Expands, Expands, expandValue, if_neg (by decide), if_neg (by decide),
        if_pos (by decide), skipPairedBreak_of_ne (by decide), exists_map_eq_ok_iff]
    · rfl
  · rfl

/-- A character that is no sign of values does not matter. -/
theorem expands_cons_iff {c : Char} (hm : c ≠ '<' ∧ c ≠ '&') (s : List Char) :
    Expands d a (c :: s) ↔ Expands d a s := by
  rw [Expands, expandValue, if_neg hm.2, if_neg hm.1]
  split
  · rw [exists_map_eq_ok_iff]
    exact expands_skipPairedBreak_iff c s
  · rw [exists_map_eq_ok_iff, Expands]

/-- A reference that stands for nothing is a fault. -/
theorem expandValue_unresolved (hd : d.IsPlain) {s rest : List Char} {r : Reference}
    (hs : Reference.scan a s = .ok (r, rest)) (hm : r.meaning? = none) :
    ∃ f, expandValue d a [] ('&' :: s) = .error f := by
  have hn : d.declares = fun _ => false := by
    funext name
    simp [Declarations.declares, hd.entities]
  have hstrict := hd.isStrict
  rw [expandValue, if_pos rfl]
  cases r with
  | character code =>
    change Reference.characterOf? code = none at hm
    split <;> simp_all
  | entity name =>
    change Reference.predefined? name = none at hm
    split <;> simp_all

/-- A reference in a value has to resolve. -/
theorem expands_reference_iff (ha : a.Separates) (hd : d.IsPlain) {w : List Char} {r : Reference}
    (hw : a.dialect.Spells w r) (s : List Char) :
    Expands d a (w ++ s) ↔ FourthEdition.Resolves r ∧ Expands d a s := by
  obtain ⟨t, rfl⟩ : ∃ t, w = '&' :: t := by cases hw <;> exact ⟨_, rfl⟩
  have hscan : Reference.scan a (t ++ s) = .ok (r, s) :=
    (Reference.scan_eq_ok_iff ha).2 ⟨_, hw, rfl⟩
  rw [← meaning?_isSome_iff, List.cons_append]
  cases hm : r.meaning? with
  | none =>
    obtain ⟨f, hf⟩ := expandValue_unresolved hd hscan hm
    simp [Expands, hf]
  | some c => simp [Expands, expandValue_reference d [] hscan hm, exists_map_eq_ok_iff]

/-- How references are spelled does not depend on which ones may be made. -/
theorem spells_plain_iff {w : List Char} {r : Reference} :
    a.plain.Spells w r ↔ a.dialect.Spells w r := by
  have hn : ∀ n, a.plain.isName n ↔ a.dialect.isName n := fun _ => Iff.rfl
  exact ⟨.mono fun n => (hn n).1, .mono fun n => (hn n).2⟩

/-- **A value is expanded** if its references resolve. -/
theorem isValue_plain_iff (ha : a.Separates) (hd : d.IsPlain) {q : Char} {v : List Char} :
    a.plain.IsValue q v ↔ a.dialect.IsValue q v ∧ Expands d a v := by
  -- Along the value: what is expanded in front leaves what is to be expanded behind.
  constructor
  · intro h
    induction h with
    | nil => exact ⟨.nil, expands_nil⟩
    | character hc hq hm _ ih =>
      exact ⟨.character hc hq hm ih.1, (expands_cons_iff hm _).2 ih.2⟩
    | reference hw _ ih =>
      obtain ⟨r, hr, hres⟩ := hw
      have hr := spells_plain_iff.1 hr
      exact ⟨.reference ⟨r, hr, trivial⟩ ih.1, (expands_reference_iff ha hd hr _).2 ⟨hres, ih.2⟩⟩
  · rintro ⟨h, he⟩
    induction h with
    | nil => exact .nil
    | character hc hq hm _ ih => exact .character hc hq hm (ih ((expands_cons_iff hm _).1 he))
    | reference hw _ ih =>
      obtain ⟨r, hr, -⟩ := hw
      obtain ⟨hres, he⟩ := (expands_reference_iff ha hd hr _).1 he
      exact .reference ⟨r, spells_plain_iff.2 hr, hres⟩ (ih he)

/-! ## Attributes and tags -/

/-- A row of attributes is one of the grammar if the values are expanded. -/
theorem areAttributes_plain_iff (ha : a.Separates) (hd : d.IsPlain)
    {xs : List (List Char × List Char)} {t : List Char} :
    a.plain.AreAttributes xs t ↔ a.dialect.AreAttributes xs t ∧ ∀ x ∈ xs, Expands d a x.2 := by
  constructor
  · intro h
    induction h with
    | nil => exact ⟨.nil, by simp⟩
    | cons hb hne hn hbefore hafter hq hv _ ih =>
      obtain ⟨hv, he⟩ := (isValue_plain_iff ha hd).1 hv
      exact ⟨.cons hb hne hn hbefore hafter hq hv ih.1, List.forall_mem_cons.2 ⟨he, ih.2⟩⟩
  · rintro ⟨h, he⟩
    induction h with
    | nil => exact .nil
    | cons hb hne hn hbefore hafter hq hv _ ih =>
      obtain ⟨he, hes⟩ := List.forall_mem_cons.1 he
      exact .cons hb hne hn hbefore hafter hq ((isValue_plain_iff ha hd).2 ⟨hv, he⟩) (ih hes)

/-- **The attributes of a tag are read** if their names are different, and new, and their values are
expanded. -/
theorem exists_readAttributes_iff {tagAt element : List Char} {seen : List (List Char)}
    {ws : List WrittenAttribute} :
    (∃ as, readAttributes d a [] tagAt element seen ws = .ok as) ↔
      (ws.map (·.name)).Nodup ∧ (∀ w ∈ ws, w.name ∉ seen) ∧ ∀ w ∈ ws, Expands d a w.value := by
  induction ws generalizing seen with
  | nil => simp [readAttributes]
  | cons w ws ih =>
    rw [List.map_cons, List.nodup_cons, List.forall_mem_cons, List.forall_mem_cons, readAttributes]
    by_cases hw : w.name ∈ seen
    · rw [if_pos (by rwa [List.contains_iff_mem])]
      simp [hw]
    · rw [if_neg (by rwa [List.contains_iff_mem])]
      have hread : (∃ t, readValue d a [] (d.isTokens element w.name) w.value = .ok t) ↔
          Expands d a w.value := exists_map_eq_ok_iff
      cases hv : readValue d a [] (d.isTokens element w.name) w.value with
      | error f =>
        have he : ¬ Expands d a w.value := by simp [← hread, hv]
        obtain ⟨cause, left⟩ := f
        cases left <;> simp [he]
      | ok v =>
        have he : Expands d a w.value := by simp [← hread, hv]
        dsimp only
        rw [exists_map_eq_ok_iff, ih]
        -- The names to come are new to those before the tag, and to this one.
        simp only [List.mem_cons, not_or, List.mem_map, not_exists, not_and]
        constructor
        · rintro ⟨hn, hs, hx⟩
          exact ⟨⟨fun v hv => (hs v hv).1, hn⟩, ⟨hw, fun v hv => (hs v hv).2⟩, he, hx⟩
        · rintro ⟨⟨hnew, hn⟩, ⟨-, hother⟩, -, hx⟩
          exact ⟨hn, fun v hv => ⟨hnew v hv, hother v hv⟩, hx⟩

/-- The attributes of a tag can be read if their names are different and their values are
expanded. -/
theorem exists_attributes?_iff {element : List Char} {xs : List (List Char × List Char)} :
    (∃ as, attributes? d a [] element xs = some as) ↔
      (xs.map Prod.fst).Nodup ∧ ∀ x ∈ xs, Expands d a x.2 := by
  have h := @exists_readAttributes_iff a d [] element []
    (xs.map fun x => ⟨x.1, [], x.2, []⟩)
  have hsome : (∃ as, attributes? d a [] element xs = some as) ↔
      ∃ as, readAttributes d a [] [] element [] (xs.map fun x => ⟨x.1, [], x.2, []⟩) = .ok as := by
    rw [attributes?]
    cases readAttributes d a [] [] element [] (xs.map fun x => ⟨x.1, [], x.2, []⟩) <;>
      simp [Except.toOption]
  rw [hsome, h]
  simp only [List.map_map, Function.comp_def, List.forall_mem_map, List.not_mem_nil,
    not_false_eq_true, implies_true, true_and]

/-- **A start tag of the grammar** is a tag whose attributes can be read. -/
theorem isStartTag_plain_iff (ha : a.Separates) (hd : d.IsPlain) {isEmpty : Bool}
    {n w : List Char} :
    a.plain.IsStartTag isEmpty n w ↔
      ∃ xs as, a.dialect.IsTag isEmpty n xs w ∧ attributes? d a [] n xs = some as := by
  constructor
  · rintro ⟨xs, ⟨t, b, hn, ht, hb, rfl⟩, hxs⟩
    obtain ⟨ht, he⟩ := (areAttributes_plain_iff ha hd).1 ht
    obtain ⟨as, has⟩ := exists_attributes?_iff.2 ⟨hxs, he⟩
    exact ⟨xs, as, ⟨t, b, hn, ht, hb, rfl⟩, has⟩
  · rintro ⟨xs, as, ⟨t, b, hn, ht, hb, rfl⟩, has⟩
    obtain ⟨hxs, he⟩ := exists_attributes?_iff.1 ⟨as, has⟩
    exact ⟨xs, ⟨t, b, hn, (areAttributes_plain_iff ha hd).2 ⟨ht, he⟩, hb, rfl⟩, hxs⟩

/-! ## What reading content takes -/

/-- An empty text is character data. -/
theorem IsCharacterData.nil : IsCharacterData [] :=
  ⟨.nil, ⟨List.not_mem_nil, List.not_mem_nil⟩, by simp⟩

section Character

variable {c : Char} {s t : List Char} (hc : isLegal c = true) (hm : c ≠ '<' ∧ c ≠ '&')
  (hr : ¬ [']', ']', '>'] <+: c :: (s ++ t))
include hc hm hr

/-- A character in front of character data, unless the end of a `CDATA` section starts with it. -/
theorem IsCharacterData.cons (h : IsCharacterData s) : IsCharacterData (c :: s) := by
  refine ⟨AreLegal.cons_iff.2 ⟨hc, h.areLegal⟩, ?_, ?_⟩
  · exact ⟨List.not_mem_cons_of_ne_of_not_mem hm.1.symm h.noMarkup.1,
      List.not_mem_cons_of_ne_of_not_mem hm.2.symm h.noMarkup.2⟩
  · rw [List.infix_cons_iff]
    rintro (hp | hi)
    · exact hr (hp.trans (List.prefix_append (c :: s) t))
    · exact h.noClosing hi

/-- A character in front of content, unless the end of a `CDATA` section starts with it. -/
theorem Dialect.IsContent.cons {g : Dialect} (h : g.IsContent s) : g.IsContent (c :: s) := by
  -- The character goes to the character data that comes first.
  cases h with
  | data hs => exact .data (hs.cons hc hm hr)
  | item hs hw ht => exact .item (hs.cons hc hm (by rwa [List.append_assoc] at hr)) hw ht
  | empty hs hw ht => exact .empty (hs.cons hc hm (by rwa [List.append_assoc] at hr)) hw ht
  | element hs hw hu hv ht =>
    exact .element (hs.cons hc hm (by rwa [List.append_assoc] at hr)) hw hu hv ht

end Character

/-- Content and end tags that close the open elements, the innermost first. -/
inductive Closes (g : Dialect) : List (List Char) → List Char → Prop
  | nil : Closes g [] []
  | cons {name u v w : List Char} {names : List (List Char)} (hu : g.IsContent u)
      (hv : g.IsEndTag name v) (hw : Closes g names w) :
      Closes g (name :: names) (u ++ (v ++ w))

namespace Closes

variable {g : Dialect} {name w u : List Char} {names : List (List Char)}

/-- An item in front belongs to the innermost element. -/
theorem item (hw : g.IsItem w) (h : Closes g (name :: names) u) :
    Closes g (name :: names) (w ++ u) := by
  cases h with
  | cons hu hv ht =>
    rw [← List.append_assoc]
    exact .cons (.item .nil hw hu) hv ht

/-- An element that its own tag closes belongs to the innermost element. -/
theorem empty {n : List Char} (hw : g.IsStartTag true n w) (h : Closes g (name :: names) u) :
    Closes g (name :: names) (w ++ u) := by
  cases h with
  | cons hu hv ht =>
    rw [← List.append_assoc]
    exact .cons (.empty .nil hw hu) hv ht

/-- A start tag belongs to the element around it, with the content up to its end tag. -/
theorem startTag {n : List Char} (hw : g.IsStartTag false n w)
    (h : Closes g (n :: name :: names) u) : Closes g (name :: names) (w ++ u) := by
  cases h with
  | @cons _ u₁ v₁ _ _ hu hv ht =>
    cases ht with
    | @cons _ u₂ v₂ t _ hu' hv' ht' =>
      have hs : w ++ (u₁ ++ (v₁ ++ (u₂ ++ (v₂ ++ t)))) =
          [] ++ (w ++ (u₁ ++ (v₁ ++ u₂))) ++ (v₂ ++ t) := by simp
      rw [hs]
      exact .cons (.element .nil hw hu hv hu') hv' ht'

/-- A character in front is character data of the innermost element. -/
theorem character {c : Char} (hc : isLegal c = true) (hm : c ≠ '<' ∧ c ≠ '&')
    (hr : ¬ [']', ']', '>'] <+: c :: u) (h : Closes g (name :: names) u) :
    Closes g (name :: names) (c :: u) := by
  cases h with
  | cons hu hv ht =>
    rw [← List.cons_append]
    exact .cons (hu.cons hc hm hr) hv ht

end Closes

section Runs

variable {stack : List OpenElement} {nodes out : List Node} {text rest : List Char}

/-- **A reference adds nothing to content** if it resolves, and cannot be made otherwise. -/
theorem adds?_eq_some_iff (hd : d.IsPlain) {r : Reference} {added : List Node} :
    r.adds? d [] = some added ↔ FourthEdition.Resolves r ∧ added = [] := by
  have hsome : r.adds? d [] = if r.meaning?.isSome then some [] else none := by
    cases r with
    | character code => rfl
    | entity name =>
      rw [Reference.adds?]
      simp only [List.lookup_nil, hd.isStrict, Bool.or_true, if_true]
      rfl
  rw [hsome, ← meaning?_isSome_iff]
  split
  · rename_i hm
    exact ⟨fun h => ⟨hm, (Option.some.inj h).symm⟩, fun h => by rw [h.2]⟩
  · rename_i hm
    constructor
    · intro h
      cases h
    · rintro ⟨hres, -⟩
      exact absurd hres hm

/-- What is ignored in content is an item, or a character of character data. -/
theorem Starts.ignorable_cases (h : Starts a text .ignorable rest) :
    (∃ w, a.plain.IsItem w ∧ text = w ++ rest) ∨
      ∃ c, isLegal c = true ∧ (c ≠ '<' ∧ c ≠ '&') ∧ ¬ [']', ']', '>'] <+: c :: rest ∧
        text = c :: rest := by
  cases h with
  | comment hw => exact Or.inl ⟨_, .comment hw, rfl⟩
  | cdata hw => exact Or.inl ⟨_, .cdata hw, rfl⟩
  | instruction hw => exact Or.inl ⟨_, .instruction hw, rfl⟩
  | character hc hm hr => exact Or.inr ⟨_, hc, hm, hr, rfl⟩

/-- **What is read up to the end of the root element** closes the elements that are open. -/
theorem ReadsTo.exists_closes (ha : a.Separates) (hd : d.IsPlain)
    (h : ReadsTo d a [] stack nodes text out rest) (hs : stack ≠ []) :
    ∃ u, text = u ++ rest ∧ Closes a.plain (stack.map (·.name)) u := by
  -- The induction is on the run, backwards from the end of the root element: each token is put in
  -- front of what closes the elements that are open behind it.
  induction h with
  | @last stack nodes out text rest l hst hn hl =>
    cases hn with
    | ignorable => cases hl
    | reference => cases hl
    | emptyTag => exact absurd rfl hs
    | endTag e =>
      cases hst with
      | @endTag _ w hw =>
        have hw : a.plain.IsEndTag e.name w := hw
        exact ⟨w, rfl, by simpa using Closes.cons (.data .nil) hw .nil⟩
  | @step stack stack' nodes nodes' out text text' rest l hst hn hl h ih =>
    cases hn with
    | ignorable =>
      obtain ⟨u, rfl, hu⟩ := ih hs
      obtain ⟨e, stack, rfl⟩ := List.exists_cons_of_ne_nil hs
      rcases hst.ignorable_cases with ⟨w, hw, rfl⟩ | ⟨c, hc, hm, hr, rfl⟩
      · exact ⟨w ++ u, by simp, hu.item hw⟩
      · refine ⟨c :: u, rfl, hu.character hc hm ?_⟩
        exact fun hp => hr (hp.trans (List.prefix_append (c :: u) rest))
    | @reference r added hr =>
      obtain ⟨u, rfl, hu⟩ := ih hs
      obtain ⟨e, stack, rfl⟩ := List.exists_cons_of_ne_nil hs
      cases hst with
      | @reference w _ hw =>
        have hres := ((adds?_eq_some_iff hd).1 hr).1
        have hw : a.plain.IsItem w := .reference ⟨r, spells_plain_iff.2 hw, hres⟩
        exact ⟨w ++ u, by simp, hu.item hw⟩
    | emptyTag has =>
      obtain ⟨u, rfl, hu⟩ := ih hs
      obtain ⟨e, stack, rfl⟩ := List.exists_cons_of_ne_nil hs
      cases hst with
      | @startTag _ _ w _ hw =>
        have hw := (isStartTag_plain_iff ha hd).2 ⟨_, _, hw, has⟩
        exact ⟨w ++ u, by simp, hu.empty hw⟩
    | startTag has =>
      obtain ⟨u, rfl, hu⟩ := ih (List.cons_ne_nil _ _)
      obtain ⟨e, stack, rfl⟩ := List.exists_cons_of_ne_nil hs
      cases hst with
      | @startTag _ _ w _ hw =>
        have hw := (isStartTag_plain_iff ha hd).2 ⟨_, _, hw, has⟩
        exact ⟨w ++ u, by simp, hu.startTag hw⟩
    | endTag e =>
      have hne : stack' ≠ [] := fun h => hl ⟨rfl, h⟩
      obtain ⟨u, rfl, hu⟩ := ih hne
      cases hst with
      | @endTag _ w hw =>
        have hw : a.plain.IsEndTag e.name w := hw
        exact ⟨w ++ u, by simp, Closes.cons (.data .nil) hw hu⟩

/-- **A root element that is read is an element** of the grammar, if the text starts with a tag. -/
theorem ReadsTo.exists_element (ha : a.Separates) (hd : d.IsPlain) {c : Char} {s : List Char}
    (h : ReadsTo d a [] [] nodes ('<' :: c :: s) out rest) (hc : c ≠ '!' ∧ c ≠ '?') :
    ∃ root, '<' :: c :: s = root ++ rest ∧ a.plain.IsElement root := by
  generalize ht : '<' :: c :: s = text at h
  cases h with
  | @last _ _ _ _ _ l hst hn hl =>
    cases hn with
    | ignorable => cases hl
    | reference => cases hl
    | emptyTag has =>
      cases hst with
      | @startTag _ _ w _ hw =>
        exact ⟨w, rfl, .empty ((isStartTag_plain_iff ha hd).2 ⟨_, _, hw, has⟩)⟩
  | @step _ stack' _ nodes' _ _ text' _ l hst hn hl h =>
    cases hn with
    | ignorable =>
      -- Comments, sections and instructions start with another character.
      exfalso
      cases hst with
      | comment hw =>
        obtain ⟨u, -, rfl⟩ := hw
        exact hc.1 (List.cons.inj (List.cons.inj ht).2).1
      | cdata hw =>
        obtain ⟨u, -, rfl⟩ := hw
        exact hc.1 (List.cons.inj (List.cons.inj ht).2).1
      | instruction hw =>
        obtain ⟨target, u, -, -, -, rfl⟩ := hw
        exact hc.2 (List.cons.inj (List.cons.inj ht).2).1
      | character _ hm => exact hm.1 (List.cons.inj ht).1.symm
    | reference =>
      exfalso
      cases hst with
      | @reference w r hw =>
        obtain ⟨t, rfl⟩ : ∃ t, w = '&' :: t := by cases hw <;> exact ⟨_, rfl⟩
        exact absurd (List.cons.inj ht).1 (by decide)
    | emptyTag => exact absurd ⟨rfl, rfl⟩ hl
    | startTag has =>
      obtain ⟨u, rfl, hu⟩ := h.exists_closes ha hd (List.cons_ne_nil _ _)
      cases hst with
      | @startTag _ _ w _ hw =>
        have hw := (isStartTag_plain_iff ha hd).2 ⟨_, _, hw, has⟩
        cases hu with
        | @cons _ u v _ _ hu hv hw' =>
          cases hw'
          exact ⟨w ++ (u ++ v), by simp, .tags hw hu hv⟩

/-! ## What content is read -/

/-- Reading goes on behind character data that markup follows. -/
theorem ReadsTo.data {s : List Char} (hs : IsCharacterData s) {c : Char} {t : List Char}
    (hc : c = '<' ∨ c = '&') (h : ReadsTo d a [] stack nodes (c :: t) out rest) :
    ReadsTo d a [] stack nodes (s ++ c :: t) out rest := by
  induction s with
  | nil => exact h
  | cons x s ih =>
    obtain ⟨hx, hl⟩ := AreLegal.cons_iff.1 hs.areLegal
    obtain ⟨hlt, hamp⟩ := hs.noMarkup
    rw [List.mem_cons, not_or] at hlt hamp
    have hs' : IsCharacterData s :=
      ⟨hl, ⟨hlt.2, hamp.2⟩, fun h => hs.noClosing (h.trans (List.suffix_cons x s).isInfix)⟩
    -- Markup is no part of the end of a section, which would lie in the data.
    have hclose : ¬ [']', ']', '>'] <+: x :: (s ++ c :: t) := by
      rintro ⟨u, hu⟩
      match s, hu with
      | [], hu =>
        obtain rfl : ']' = c := (List.cons.inj (List.cons.inj hu).2).1
        simp at hc
      | [y], hu =>
        obtain rfl : '>' = c := (List.cons.inj (List.cons.inj (List.cons.inj hu).2).2).1
        simp at hc
      | y :: z :: s, hu =>
        simp only [List.cons_append, List.cons.injEq] at hu
        obtain ⟨rfl, rfl, rfl, -⟩ := hu
        exact hs.noClosing ⟨[], s, rfl⟩
    exact .step (.character hx ⟨Ne.symm hlt.1, Ne.symm hamp.1⟩ hclose) (.ignorable _ _)
      (fun h => nomatch h.1) (ih hs')

/-- Reading goes on behind an item. -/
theorem ReadsTo.item (hd : d.IsPlain) {w : List Char} (hw : a.plain.IsItem w)
    (h : ReadsTo d a [] stack nodes text out rest) :
    ReadsTo d a [] stack nodes (w ++ text) out rest := by
  cases hw with
  | comment hw => exact .step (.comment hw text) (.ignorable _ _) (fun h => nomatch h.1) h
  | instruction hw => exact .step (.instruction hw text) (.ignorable _ _) (fun h => nomatch h.1) h
  | cdata hw => exact .step (.cdata hw text) (.ignorable _ _) (fun h => nomatch h.1) h
  | reference hw =>
    obtain ⟨r, hr, hres⟩ := hw
    exact .step (.reference (spells_plain_iff.1 hr) text)
      (.reference ((adds?_eq_some_iff hd).2 ⟨hres, rfl⟩) _ _) (fun h => nomatch h.1) h

/-- An item starts with a sign of markup. -/
theorem Dialect.IsItem.exists_cons {g : Dialect} {w : List Char} (h : g.IsItem w) :
    ∃ c t, w = c :: t ∧ (c = '<' ∨ c = '&') := by
  cases h with
  | comment h =>
    obtain ⟨u, -, rfl⟩ := h
    exact ⟨_, _, rfl, Or.inl rfl⟩
  | instruction h =>
    obtain ⟨target, u, -, -, -, rfl⟩ := h
    exact ⟨_, _, rfl, Or.inl rfl⟩
  | cdata h =>
    obtain ⟨u, -, rfl⟩ := h
    exact ⟨_, _, rfl, Or.inl rfl⟩
  | reference h =>
    obtain ⟨r, hr, -⟩ := h
    cases hr <;> exact ⟨_, _, rfl, Or.inr rfl⟩

/-- A start tag starts with its sign. -/
theorem Dialect.IsStartTag.exists_cons {g : Dialect} {isEmpty : Bool} {n w : List Char}
    (h : g.IsStartTag isEmpty n w) : ∃ t, w = '<' :: t := by
  obtain ⟨xs, ⟨t, b, -, -, -, rfl⟩, -⟩ := h
  exact ⟨_, rfl⟩

/-- An end tag starts with its signs. -/
theorem Dialect.IsEndTag.exists_cons {g : Dialect} {n v : List Char} (h : g.IsEndTag n v) :
    ∃ t, v = '<' :: t := by
  obtain ⟨b, -, -, rfl⟩ := h
  exact ⟨_, rfl⟩

/-- An element starts with a tag. -/
theorem Dialect.IsElement.exists_cons {g : Dialect} {w : List Char} (h : g.IsElement w) :
    ∃ n s, g.isName n ∧ w = '<' :: (n ++ s) := by
  cases h with
  | empty hw =>
    obtain ⟨xs, ⟨t, b, hn, -, -, rfl⟩, -⟩ := hw
    exact ⟨_, _, hn, rfl⟩
  | @tags _ _ u v hw =>
    obtain ⟨xs, ⟨t, b, hn, -, -, rfl⟩, -⟩ := hw
    exact ⟨_, t ++ (b ++ tagEnd false) ++ (u ++ v), hn, by simp⟩

/-- **Content is read**: reading goes on behind it, with more nodes. -/
theorem Dialect.IsContent.exists_readsTo (ha : a.Separates) (hd : d.IsPlain) {u : List Char}
    (hu : a.plain.IsContent u) (stack : List OpenElement) (nodes : List Node) (t : List Char)
    (hs : stack ≠ []) : ∃ nodes', ∀ out rest, ReadsTo d a [] stack nodes' ('<' :: t) out rest →
      ReadsTo d a [] stack nodes (u ++ '<' :: t) out rest := by
  -- The nodes that content adds do not depend on what stands behind it, so they come first.
  induction hu generalizing stack nodes t with
  | data hsd => exact ⟨nodes, fun out rest h => h.data hsd (Or.inl rfl)⟩
  | @item s w u hsd hw hu ih =>
    obtain ⟨nodes', h'⟩ := ih stack nodes t hs
    refine ⟨nodes', fun out rest h => ?_⟩
    have hitem := (h' out rest h).item hd hw
    obtain ⟨c, w, rfl, hc⟩ := hw.exists_cons
    simpa using hitem.data hsd hc
  | @empty s n w u hsd hw hu ih =>
    obtain ⟨xs, as, htag, has⟩ := (isStartTag_plain_iff ha hd).1 hw
    obtain ⟨nodes', h'⟩ := ih stack (.element (.ofList n) as [] :: nodes) t hs
    refine ⟨nodes', fun out rest h => ?_⟩
    have hempty := ReadsTo.step (.startTag htag _) (.emptyTag has stack nodes)
      (fun h => hs h.2) (h' out rest h)
    obtain ⟨w, rfl⟩ := hw.exists_cons
    simpa using hempty.data hsd (Or.inl rfl)
  | @element s n w u v u' hsd hw hu hv hu' ih ih' =>
    obtain ⟨xs, as, htag, has⟩ := (isStartTag_plain_iff ha hd).1 hw
    have hend : a.dialect.IsEndTag n v := hv
    obtain ⟨v, rfl⟩ := hv.exists_cons
    obtain ⟨inner, hinner⟩ := ih (⟨n, as, nodes⟩ :: stack) [] (v ++ (u' ++ '<' :: t))
      (List.cons_ne_nil _ _)
    obtain ⟨nodes', h'⟩ := ih' stack (.element (.ofList n) as inner.reverse :: nodes) t hs
    refine ⟨nodes', fun out rest h => ?_⟩
    -- From the inside out: the end tag, the content before it, the start tag.
    have hclose := hinner out rest
      (.step (.endTag hend _) (.endTag ⟨n, as, nodes⟩ stack inner) (fun h => hs h.2) (h' out rest h))
    have hopen := ReadsTo.step (.startTag htag _) (.startTag has stack nodes)
      (fun h => nomatch h.1) hclose
    obtain ⟨w, rfl⟩ := hw.exists_cons
    simpa using hopen.data hsd (Or.inl rfl)

/-- **A root element is read.** -/
theorem Dialect.IsElement.exists_readsTo (ha : a.Separates) (hd : d.IsPlain) {root : List Char}
    (hr : a.plain.IsElement root) (rest : List Char) :
    ∃ x, ReadsTo d a [] [] [] (root ++ rest) [x] rest := by
  cases hr with
  | @empty n w hw =>
    obtain ⟨xs, as, htag, has⟩ := (isStartTag_plain_iff ha hd).1 hw
    exact ⟨_, .last (.startTag htag rest) (.emptyTag has [] []) rfl⟩
  | @tags n w u v hw hu hv =>
    obtain ⟨xs, as, htag, has⟩ := (isStartTag_plain_iff ha hd).1 hw
    have hend : a.dialect.IsEndTag n v := hv
    obtain ⟨v, rfl⟩ := hv.exists_cons
    obtain ⟨inner, hinner⟩ := hu.exists_readsTo ha hd [⟨n, as, []⟩] [] (v ++ rest)
      (List.cons_ne_nil _ _)
    have hclose := hinner _ rest (.last (.endTag hend rest) (.endTag ⟨n, as, []⟩ [] inner) rfl)
    have hopen := ReadsTo.step (.startTag htag _) (.startTag has [] [])
      (fun h => nomatch h.1) hclose
    exact ⟨_, by simpa using hopen⟩

end Runs

end FxmlWiring.Markup
