import FxmlWiring.Proofs.Markup.Lexeme

/-! # Runs over content

Reading content goes from token to token until the root element is closed. `ReadsTo` is that run,
said with what the grammar finds at the front of the text and with what each token does to the open
elements (`Next`). The reader takes a text exactly if there is such a run
(`readContent_eq_ok_iff`), however the bytes of the document end. -/

namespace FxmlWiring.Markup

open Text

variable {a : Alphabet} {d : Declarations} {closed : Entities}

/-! ## One token -/

/-- The nodes that a reference adds to content, if it may be made there. -/
def Reference.adds? (d : Declarations) (closed : Entities) : Reference → Option (List Node)
  | .character code => if (characterOf? code).isSome then some [] else none
  | .entity name =>
    if (predefined? name).isSome then some []
    else
      match closed.lookup name with
      | some (.internal inner) =>
        match readContent d .internal .complete .entity (closed.without name) [] [] inner with
        | .ok (added, _) => some added
        | .error _ => none
      | some .external => some []
      | some .unparsed => none
      | none => if d.declares name || d.isStrict then none else some []

/-- The attributes of a tag as they are read, if they can be: their places in the text do not
matter. -/
def attributes? (d : Declarations) (a : Alphabet) (closed : Entities) (element : List Char)
    (xs : List (List Char × List Char)) : Option (List Attribute) :=
  (readAttributes d a closed [] element [] (xs.map fun x => ⟨x.1, [], x.2, []⟩)).toOption

/-- Whether an element ends with the token. -/
def Lexeme.endsElement : Lexeme → Bool
  | .startTag _ _ isEmpty => isEmpty
  | .endTag _ => true
  | .reference _ | .ignorable | .declaration => false

/-- What a token makes of the open elements and of the nodes read at the current level. -/
inductive Next (d : Declarations) (a : Alphabet) (closed : Entities) :
    List OpenElement → List Node → Lexeme → List OpenElement → List Node → Prop
  | ignorable (stack : List OpenElement) (nodes : List Node) :
      Next d a closed stack nodes .ignorable stack nodes
  | reference {r : Reference} {added : List Node} (h : r.adds? d closed = some added)
      (stack : List OpenElement) (nodes : List Node) :
      Next d a closed stack nodes (.reference r) stack (added ++ nodes)
  | emptyTag {name : List Char} {xs : List (List Char × List Char)} {as : List Attribute}
      (h : attributes? d a closed name xs = some as) (stack : List OpenElement)
      (nodes : List Node) : Next d a closed stack nodes (.startTag name xs true) stack
        (.element (.ofList name) as [] :: nodes)
  | startTag {name : List Char} {xs : List (List Char × List Char)} {as : List Attribute}
      (h : attributes? d a closed name xs = some as) (stack : List OpenElement)
      (nodes : List Node) : Next d a closed stack nodes (.startTag name xs false)
        (⟨name, as, nodes⟩ :: stack) []
  | endTag (e : OpenElement) (stack : List OpenElement) (nodes : List Node) :
      Next d a closed (e :: stack) nodes (.endTag e.name) stack
        (.element (.ofList e.name) e.attributes nodes.reverse :: e.before)

/-- Reading from a text on, with the open elements and the nodes read so far, ends with the root
element: what has been read then, and the rest of the text. -/
inductive ReadsTo (d : Declarations) (a : Alphabet) (closed : Entities) :
    List OpenElement → List Node → List Char → List Node → List Char → Prop
  | last {stack : List OpenElement} {nodes out : List Node} {text rest : List Char} {l : Lexeme}
      (hs : Starts a text l rest) (hn : Next d a closed stack nodes l [] out)
      (hl : l.endsElement = true) : ReadsTo d a closed stack nodes text out rest
  | step {stack stack' : List OpenElement} {nodes nodes' out : List Node}
      {text text' rest : List Char} {l : Lexeme} (hs : Starts a text l text')
      (hn : Next d a closed stack nodes l stack' nodes') (hl : ¬ (l.endsElement = true ∧ stack' = []))
      (h : ReadsTo d a closed stack' nodes' text' out rest) :
      ReadsTo d a closed stack nodes text out rest

/-- The values of a tag do not depend on where they stand. -/
theorem readAttributes_congr {tagAt tagAt' element : List Char} {seen : List (List Char)}
    {ws ws' : List WrittenAttribute} (hw : ws.map (·.entry) = ws'.map (·.entry))
    {as : List Attribute} (h : readAttributes d a closed tagAt element seen ws = .ok as) :
    readAttributes d a closed tagAt' element seen ws' = .ok as := by
  -- The names seen so far go along, and the faults tell where a tag stands.
  induction ws generalizing seen ws' as with
  | nil =>
    obtain rfl := List.map_eq_nil_iff.1 hw.symm
    exact h
  | cons w ws ih =>
    cases ws' with
    | nil => cases hw
    | cons w' ws' =>
      obtain ⟨hx, hw⟩ := List.cons.inj hw
      obtain ⟨hname, hvalue⟩ := Prod.mk.inj hx
      rw [readAttributes] at h ⊢
      rw [← hname, ← hvalue]
      split at h
      · cases h
      · rename_i hseen
        rw [if_neg hseen]
        split at h
        · cases h
        · cases h
        · cases hr : readAttributes d a closed tagAt element (w.name :: seen) ws with
          | error f =>
            rw [hr] at h
            cases h
          | ok as =>
            rwa [ih hw hr, ← hr]

/-- The attributes of a tag are read if they can be. -/
theorem attributes?_eq_some_iff {tagAt element : List Char} {ws : List WrittenAttribute}
    {as : List Attribute} :
    attributes? d a closed element (ws.map (·.entry)) = some as ↔
      readAttributes d a closed tagAt element [] ws = .ok as := by
  have hw : ((ws.map (·.entry)).map fun x => (⟨x.1, [], x.2, []⟩ : WrittenAttribute)).map
      (·.entry) = ws.map (·.entry) := by
    simp [WrittenAttribute.entry]
  have hsome : attributes? d a closed element (ws.map (·.entry)) = some as ↔
      readAttributes d a closed [] element []
        ((ws.map (·.entry)).map fun x => ⟨x.1, [], x.2, []⟩) = .ok as := by
    rw [attributes?]
    cases readAttributes d a closed [] element []
        ((ws.map (·.entry)).map fun x => ⟨x.1, [], x.2, []⟩) <;> simp [Except.toOption]
  rw [hsome]
  exact ⟨readAttributes_congr hw, readAttributes_congr hw.symm⟩

/-- A reference is read if it may be made. -/
theorem readContent_adds {ending : Ending} {place : Place} {stack : List OpenElement}
    {nodes added : List Node} {text rest : List Char} (he : endOfContent? ending text = none)
    {r : Reference} (h : scanContent a ending text = .ok (.reference r, rest))
    (hr : r.adds? d closed = some added) :
    readContent d a ending place closed stack nodes text =
      readContent d a ending place closed stack (added ++ nodes) rest := by
  rw [readContent]
  simp only [he]
  cases r with
  | character code =>
    have hc : (Reference.characterOf? code).isSome = true ∧ added = [] := by
      rw [Reference.adds?] at hr
      split at hr
      · rename_i hc
        exact ⟨hc, (Option.some.inj hr).symm⟩
      · cases hr
    split <;> simp_all
    split <;> simp_all
  | entity name =>
    rw [Reference.adds?] at hr
    split
    case h_5 hscan =>
      obtain ⟨ht, rfl⟩ := Prod.mk.inj (Except.ok.inj (h.symm.trans hscan))
      obtain rfl : name = _ := Reference.entity.inj (ContentToken.reference.inj ht)
      split at hr
      · rename_i hp
        obtain rfl := Option.some.inj hr
        exact if_pos hp
      · rename_i hp
        rw [if_neg hp]
        -- What the entity is declared as decides what is added.
        split at hr
        · rename_i inner hl
          split at hr
          · rename_i hinner
            obtain rfl := Option.some.inj hr
            split <;> simp_all
          · cases hr
        · obtain rfl := Option.some.inj hr
          split <;> simp_all
        · cases hr
        · split at hr
          · cases hr
          · obtain rfl := Option.some.inj hr
            split <;> simp_all
    all_goals simp_all

/-- **The reader takes one token**, and goes on unless the root element ends with it. -/
theorem Next.readContent_eq {ending : Ending} {stack stack' : List OpenElement}
    {nodes nodes' : List Node} {text rest : List Char} {t : ContentToken}
    (h : Next d a closed stack nodes t.lexeme stack' nodes')
    (he : endOfContent? ending text = none) (ht : scanContent a ending text = .ok (t, rest)) :
    readContent d a ending .document closed stack nodes text =
      if t.lexeme.endsElement = true ∧ stack' = [] then .ok (nodes', rest)
      else readContent d a ending .document closed stack' nodes' rest := by
  -- One equation of the reader for each kind of token.
  cases t with
  | startTag tag =>
    obtain ⟨n, ws, isEmpty⟩ := tag
    cases isEmpty with
    | true =>
      cases h with
      | emptyTag has =>
        rw [readContent_emptyTag he ht rfl (attributes?_eq_some_iff.1 has), readOn]
        simp [ContentToken.lexeme, Lexeme.endsElement]
    | false =>
      cases h with
      | startTag has =>
        rw [readContent_startTag he ht rfl (attributes?_eq_some_iff.1 has)]
        simp [ContentToken.lexeme, Lexeme.endsElement]
  | endTag name nameAt =>
    cases h with
    | endTag e =>
      rw [readContent_endTag he ht, readOn]
      simp [ContentToken.lexeme, Lexeme.endsElement]
  | reference r =>
    cases h with
    | reference hr =>
      rw [readContent_adds he ht hr]
      simp [ContentToken.lexeme, Lexeme.endsElement]
  | ignorable =>
    cases h with
    | ignorable =>
      rw [readContent_ignorable he ht]
      simp [ContentToken.lexeme, Lexeme.endsElement]
  | declaration => cases h

/-- **Where the reader succeeds, the first token can be taken.** -/
theorem exists_next_of_readContent {ending : Ending} {stack : List OpenElement}
    {nodes : List Node} {text : List Char} {x : List Node × List Char}
    (h : readContent d a ending .document closed stack nodes text = .ok x) :
    endOfContent? ending text = none ∧ ∃ t rest stack' nodes',
      scanContent a ending text = .ok (t, rest) ∧
        Next d a closed stack nodes t.lexeme stack' nodes' := by
  rw [readContent] at h
  split at h
  · -- Where content ends, the root element is missing.
    split at h
    · rename_i hplace
      cases hplace
    · cases h
    · cases h
  · rename_i he
    refine ⟨he, ?_⟩
    split at h
    · cases h
    · rename_i hs
      exact ⟨_, _, _, _, hs, .ignorable _ _⟩
    · cases h
    · rename_i code rest hs
      split at h
      · cases h
      · rename_i c hc
        have hadds : (Reference.character code).adds? d closed = some [] := by
          simp [Reference.adds?, hc]
        exact ⟨_, _, _, _, hs, .reference hadds _ _⟩
    · rename_i name rest hs
      -- The reader and `adds?` look at the same places, one after another.
      have hadds : ∃ added, (Reference.entity name).adds? d closed = some added := by
        rw [Reference.adds?]
        split at h
        · rename_i hp
          exact ⟨[], if_pos hp⟩
        · rename_i hp
          rw [if_neg hp]
          split at h
          · rename_i inner hl
            split at h
            · cases h
            · rename_i hinner
              simp [hl, hinner]
          · rename_i hl
            simp [hl]
          · cases h
          · rename_i hl
            split at h
            · cases h
            · split at h
              · cases h
              · rename_i hdecl hstrict
                simp [hl, hdecl, hstrict]
      obtain ⟨added, hadds⟩ := hadds
      exact ⟨_, _, _, _, hs, .reference hadds _ _⟩
    · rename_i tag rest hs
      split at h
      · cases h
      · rename_i as has
        obtain ⟨n, ws, isEmpty⟩ := tag
        have has := attributes?_eq_some_iff.2 has
        cases isEmpty with
        | true => exact ⟨_, _, _, _, hs, .emptyTag has _ _⟩
        | false => exact ⟨_, _, _, _, hs, .startTag has _ _⟩
    · rename_i name nameAt rest hs
      split at h
      · cases h
      · split at h
        · rename_i e stack hname
          subst hname
          exact ⟨_, _, _, _, hs, .endTag e stack nodes⟩
        · cases h

/-! ## Whole runs -/

/-- What stands at the front of a text is a part of it. -/
theorem Starts.exists_append {text rest : List Char} {l : Lexeme} (h : Starts a text l rest) :
    ∃ w, text = w ++ rest := by
  cases h with
  | @character c => exact ⟨[c], rfl⟩
  | _ => exact ⟨_, rfl⟩

/-- Only markup ends an element. -/
theorem Starts.lt_mem {text rest : List Char} {l : Lexeme} (h : Starts a text l rest)
    (hl : l.endsElement = true) : '<' ∈ text := by
  cases h with
  | startTag hw =>
    obtain ⟨s, b, -, -, -, rfl⟩ := hw
    exact List.mem_cons_self
  | endTag hw =>
    obtain ⟨b, -, -, rfl⟩ := hw
    exact List.mem_cons_self
  | _ => cases hl

/-- Markup is still to come where a run goes on. -/
theorem ReadsTo.lt_mem {stack : List OpenElement} {nodes out : List Node} {text rest : List Char}
    (h : ReadsTo d a closed stack nodes text out rest) : '<' ∈ text := by
  induction h with
  | last hs _ hl => exact hs.lt_mem hl
  | step hs _ _ _ ih =>
    obtain ⟨w, rfl⟩ := hs.exists_append
    exact List.mem_append_right w ih

/-- What stands at the front stands there if more text follows, unless a character is close to the
end of the text: it could start the end of a `CDATA` section then. -/
theorem Starts.append {text rest : List Char} {l : Lexeme} (h : Starts a text l rest)
    (hlt : '<' ∈ rest ∨ l.endsElement = true) (more : List Char) :
    Starts a (text ++ more) l (rest ++ more) := by
  cases h with
  | startTag hw => simpa using Starts.startTag hw (rest ++ more)
  | endTag hw => simpa using Starts.endTag hw (rest ++ more)
  | reference hw => simpa using Starts.reference hw (rest ++ more)
  | comment hw => simpa using Starts.comment hw (rest ++ more)
  | cdata hw => simpa using Starts.cdata hw (rest ++ more)
  | instruction hw => simpa using Starts.instruction hw (rest ++ more)
  | declaration hn hs => simpa using Starts.declaration hn hs (rest ++ more)
  | @character c _ hc hm hr =>
    refine .character hc hm ?_
    rintro ⟨t, ht⟩
    have hlt := hlt.resolve_right Bool.false_ne_true
    -- Two characters of the text would be brackets, or one of them a sign of markup.
    rcases rest with _ | ⟨x, _ | ⟨y, s⟩⟩
    · cases hlt
    · obtain rfl := List.mem_singleton.1 hlt
      cases (List.cons.inj (List.cons.inj ht).2).1
    · obtain ⟨hc, hs⟩ := List.cons.inj ht
      obtain ⟨hx, hs⟩ := List.cons.inj hs
      obtain ⟨hy, -⟩ := List.cons.inj hs
      exact hr ⟨s, by rw [← hc, ← hx, ← hy]; rfl⟩

/-- **A run over a text is one over a longer text**, and leaves what is added. -/
theorem ReadsTo.append {stack : List OpenElement} {nodes out : List Node} {text rest : List Char}
    (h : ReadsTo d a closed stack nodes text out rest) (more : List Char) :
    ReadsTo d a closed stack nodes (text ++ more) out (rest ++ more) := by
  -- A run that goes on has markup before it, so no token is cut off by the end of the text.
  induction h with
  | last hs hn hl => exact .last (hs.append (Or.inr hl) more) hn hl
  | step hs hn hl h ih => exact .step (hs.append (Or.inl h.lt_mem) more) hn hl ih

/-- **The reader takes a text if there is a run over it.** -/
theorem readContent_eq_ok_iff (ha : a.Separates) (hu : ∀ c, 0 < a.units c) {ending : Ending}
    {stack : List OpenElement} {nodes out : List Node} {text rest : List Char} :
    readContent d a ending .document closed stack nodes text = .ok (out, rest) ↔
      ReadsTo d a closed stack nodes text out rest := by
  constructor
  · -- The rest of the text gets shorter with each token.
    induction hn : text.length using Nat.strong_induction_on generalizing stack nodes text with
    | _ n ih =>
      subst hn
      intro h
      obtain ⟨he, t, rest', stack', nodes', hs, hnext⟩ := exists_next_of_readContent h
      rw [hnext.readContent_eq he hs] at h
      have hstarts := starts_of_scanContent ha hu hs
      split at h
      · rename_i hl
        obtain ⟨rfl, rfl⟩ := Prod.mk.inj (Except.ok.inj h)
        obtain ⟨hl, rfl⟩ := hl
        exact .last hstarts hnext hl
      · rename_i hl
        exact .step hstarts hnext hl (ih _ (length_scanContent_lt hs) rfl h)
  · intro h
    have hend : ∀ {text : List Char}, '<' ∈ text → endOfContent? ending text = none :=
      endOfContent?_eq_none
    induction h with
    | last hs hn hl =>
      obtain ⟨t, ht, rfl⟩ := hs.exists_scanContent ha hu ending
      rw [hn.readContent_eq (hend (hs.lt_mem hl)) ht, if_pos ⟨hl, rfl⟩]
    | step hs hn hl h ih =>
      obtain ⟨t, ht, rfl⟩ := hs.exists_scanContent ha hu ending
      rw [hn.readContent_eq (hend (ReadsTo.step hs hn hl h).lt_mem) ht, if_neg hl, ih]

end FxmlWiring.Markup
