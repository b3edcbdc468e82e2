import FxmlWiring.Markup.Prolog.Read

/-! # Elements declared in the prolog

A token **completes** the declaration of an element if the declaration is made with it. Only such a
token changes which elements are declared, and it stops the reader if its element is declared
already (`Stage.next_of_completed`, `Stage.keeps_next`). So reading the prolog stops in this way
exactly if a **run** of tokens gets to the second declaration of an element
(`readProlog_eq_repeatedElement_iff`). -/

namespace FxmlWiring.Markup.Prolog

/-! ## One token -/

/-- The element whose declaration is complete with the token. -/
def Stage.completed? (stage : Stage) (t : Token) : Option (List Char) :=
  match stage, t with
  | .elementModel element, .name word none =>
    if String.ofList word ∈ ["EMPTY", "ANY"] then some element else none
  | .mixedStart element, .closeParen none => some element
  | .mixedStart element, .closeParen (some '*') => some element
  | .mixedNext element, .closeParen (some '*') => some element
  | .memberNext element _ [], .closeParen _ => some element
  | _, _ => none

/-- The step declares no element, and does not stop at a repeated one. -/
structure Step.Keeps (d : Declarations) (s : Step) : Prop where
  ne_repeated : s ≠ .error .repeatedElement
  elements : ∀ stage d', s = .ok (stage, d') → d'.elements = d.elements

variable {a : Alphabet} {d d' : Declarations} {stage : Stage} {t : Token} {here : List Char}

/-- A fault is no step to anywhere. -/
@[simp] theorem Step.keeps_fault (f : Fault) : Step.Keeps d (.error (.fault f)) where
  ne_repeated h := by cases h
  elements _ _ h := by cases h

/-- A step with other declarations of the same elements. -/
@[simp] theorem Step.keeps_ok (h : d'.elements = d.elements) : Step.Keeps d (.ok (stage, d')) where
  ne_repeated h := by cases h
  elements _ _ h' := by
    cases h'
    exact h

/-- A token that cannot stand where it does is a fault. -/
@[simp] theorem Step.keeps_unexpected : Step.Keeps d (unexpected t here) :=
  Step.keeps_fault _

/-! ## Steps that declare something else -/

/-- Declaring an entity declares no element. -/
@[simp] theorem elements_declare (name : List Char) (e : Entity) :
    (d.declare name e).elements = d.elements := by
  unfold Declarations.declare
  split <;> rfl

/-- Declaring an attribute declares no element. -/
@[simp] theorem elements_declareAttribute (element name : List Char) (isTokens : Bool) :
    (d.declareAttribute element name isTokens).elements = d.elements := by
  unfold Declarations.declareAttribute
  split <;> rfl

/-- Naming something outside the document declares no element. -/
@[simp] theorem elements_opened : d.opened.elements = d.elements := by
  rw [Declarations.opened]

/-- The use of a parameter entity declares no element. -/
@[simp] theorem elements_skipParameter : d.skipParameter.elements = d.elements := by
  rw [Declarations.skipParameter]

@[simp] theorem keeps_publicIdStep {value valueEnd : List Char} (h : d'.elements = d.elements) :
    Step.Keeps d (publicIdStep value valueEnd stage d') := by
  unfold publicIdStep
  split <;> simp [h]

@[simp] theorem keeps_entityStep {entity : Declared} {value valueEnd : List Char} {isCut : Bool} :
    Step.Keeps d (entityStep a d entity value valueEnd isCut) := by
  unfold entityStep
  split
  · split
    · simp
    · split
      · simp
      · split <;> simp
  · simp

@[simp] theorem keeps_defaultStep {element name : List Char} {isTokens : Bool}
    {value valueEnd : List Char} {isCut : Bool} :
    Step.Keeps d (defaultStep a d element name isTokens value valueEnd isCut here) := by
  unfold defaultStep
  dsimp only
  split
  · split
    · simp
    · simp
    · split <;> simp
  · simp

/-! ## From stage to stage -/

namespace Stage

theorem keeps_nextInSubset : Step.Keeps d (nextInSubset d t here) := by
  unfold nextInSubset
  split <;> try simp
  split <;> simp

theorem keeps_nextInDoctype : Step.Keeps d (nextInDoctype d stage t here) := by
  unfold nextInDoctype
  split <;> try simp
  split <;> simp

theorem keeps_nextInEntity : Step.Keeps d (nextInEntity a d stage t here) := by
  unfold nextInEntity
  split <;> try simp
  all_goals split <;> simp

theorem keeps_nextInNotation : Step.Keeps d (nextInNotation d stage t here) := by
  unfold nextInNotation
  split <;> try simp
  split <;> simp

theorem keeps_nextInAttributes : Step.Keeps d (nextInAttributes a d stage t here) := by
  unfold nextInAttributes
  split <;> try simp
  · split
    · simp
    · split
      · simp
      · split <;> simp
  · split <;> simp

/-- A declaration of an element that is not complete yet declares nothing. -/
theorem keeps_nextInElement (h : stage.completed? t = none) :
    Step.Keeps d (nextInElement d stage t here) := by
  unfold nextInElement
  split <;> try simp
  all_goals
    simp only [completed?] at h
    first
      | exact absurd h (Option.some_ne_none _)
      | (split <;> simp_all)

/-- A token that completes no declaration of an element declares none. -/
theorem keeps_next (h : stage.completed? t = none) : Step.Keeps d (stage.next a d t here) := by
  unfold next
  split
  · simp
  · split
    · split <;> try simp
      split <;> simp
    · split <;> simp
    · exact keeps_nextInSubset
    -- The stages inside a declaration; only those of an element need the hypothesis.
    all_goals first
      | exact keeps_nextInDoctype
      | exact keeps_nextInEntity
      | exact keeps_nextInNotation
      | exact keeps_nextInAttributes
      | exact keeps_nextInElement h
      | (split <;> simp)

/-- A token that completes the declaration of an element makes it. -/
theorem next_of_completed {element : List Char} (h : stage.completed? t = some element) :
    stage.next a d t here = elementStep d element := by
  unfold completed? at h
  split at h
  · split at h
    · rename_i hw
      cases h
      simp [next, nextInElement, hw]
    · cases h
  all_goals first
    | cases h; rfl
    | cases h

end Stage

/-! ## Runs of tokens -/

/-- Where reading the prolog stands: between two tokens. -/
structure Config where
  ending : Ending
  stage : Stage
  declarations : Declarations
  text : List Char

/-- Where reading the prolog of a document starts. -/
def Config.opening (ending : Ending) (standalone : Bool) (text : List Char) : Config :=
  ⟨ending, .opening, { standalone }, text⟩

/-- The next token is read, and it is not the start of the root element. -/
inductive Config.Reads (a : Alphabet) (c : Config) : Config → Prop
  | intro {scanned : Scanned} {stage : Stage} {d : Declarations}
      (hs : scan a c.ending c.text = .ok scanned)
      (hr : ¬ (scanned.token = .elementStart ∧ c.stage.allowsRoot = true))
      (hn : c.stage.next a c.declarations scanned.token c.text = .ok (stage, d)) :
      c.Reads a ⟨if scanned.isLast then .complete else c.ending, stage, d, scanned.rest⟩

/-- The next token completes the declaration of the element. -/
def Config.Completes (a : Alphabet) (c : Config) (element : List Char) : Prop :=
  ∃ scanned, scan a c.ending c.text = .ok scanned ∧
    c.stage.completed? scanned.token = some element

/-- Tokens are read one after another, and complete the declarations of the elements. -/
inductive Run (a : Alphabet) : Config → List (List Char) → Config → Prop
  | refl (c : Config) : Run a c [] c
  | skip {c c' c'' : Config} {elements : List (List Char)} (hr : c.Reads a c')
      (hc : ∀ e, ¬ c.Completes a e) (h : Run a c' elements c'') : Run a c elements c''
  | complete {c c' c'' : Config} {e : List Char} {elements : List (List Char)} (hr : c.Reads a c')
      (hc : c.Completes a e) (h : Run a c' elements c'') : Run a c (e :: elements) c''

/-- Reading gets to a token that completes the declaration of an element for the second time. -/
def Config.Repeats (a : Alphabet) (c : Config) : Prop :=
  ∃ elements c' e, Run a c elements c' ∧ c'.Completes a e ∧
    (e ∈ elements ∨ e ∈ c.declarations.elements)

variable {c c' : Config}

/-- There is one next token. -/
theorem Config.Reads.unique {c'' : Config} (h : c.Reads a c') (h' : c.Reads a c'') : c'' = c' := by
  obtain ⟨hs, -, hn⟩ := h
  obtain ⟨hs', -, hn'⟩ := h'
  obtain rfl := Except.ok.inj (hs.symm.trans hs')
  obtain ⟨rfl, rfl⟩ := Prod.mk.inj (Except.ok.inj (hn.symm.trans hn'))
  rfl

/-- The next token completes one declaration. -/
theorem Config.Completes.unique {e e' : List Char} (h : c.Completes a e)
    (h' : c.Completes a e') : e' = e := by
  obtain ⟨scanned, hs, hc⟩ := h
  obtain ⟨scanned', hs', hc'⟩ := h'
  obtain rfl := Except.ok.inj (hs.symm.trans hs')
  exact Option.some.inj (hc'.symm.trans hc)

/-- **The elements declared after a token**: those before, and one more if the token completes its
declaration and it was not declared before. -/
theorem Config.Reads.elements (h : c.Reads a c') :
    (∀ e, ¬ c.Completes a e) ∧ c'.declarations.elements = c.declarations.elements ∨
      ∃ e, c.Completes a e ∧ e ∉ c.declarations.elements ∧
        c'.declarations.elements = e :: c.declarations.elements := by
  obtain ⟨hs, -, hn⟩ := h
  rename_i scanned stage d
  cases hc : c.stage.completed? scanned.token with
  | none =>
    refine Or.inl ⟨?_, (Stage.keeps_next hc).elements stage d hn⟩
    rintro e ⟨scanned', hs', hc'⟩
    obtain rfl := Except.ok.inj (hs.symm.trans hs')
    rw [hc] at hc'
    cases hc'
  | some e =>
    refine Or.inr ⟨e, ⟨scanned, hs, hc⟩, ?_⟩
    rw [Stage.next_of_completed hc, elementStep] at hn
    split at hn
    · cases hn
    · rename_i he
      obtain ⟨-, rfl⟩ := Prod.mk.inj (Except.ok.inj hn)
      exact ⟨he, rfl⟩

/-- Where no token is read, an element is repeated only by the very next one. -/
theorem Config.repeats_of_stuck (h : ∀ c', ¬ c.Reads a c') :
    c.Repeats a ↔ ∃ e, c.Completes a e ∧ e ∈ c.declarations.elements := by
  constructor
  · rintro ⟨elements, c', e, hr, hc, he⟩
    cases hr with
    | refl => exact ⟨e, hc, by simpa using he⟩
    | skip hr => exact absurd hr (h _)
    | complete hr => exact absurd hr (h _)
  · rintro ⟨e, hc, he⟩
    exact ⟨[], c, e, .refl c, hc, Or.inr he⟩

/-- Where a token is read, an element is repeated later if it is at all. -/
theorem Config.repeats_of_reads (h : c.Reads a c') : c.Repeats a ↔ c'.Repeats a := by
  have he := h.elements
  constructor
  · rintro ⟨elements, c'', e, hr, hc, hm⟩
    cases hr with
    | refl =>
      -- The token at hand declares an element, so it does not repeat one.
      rcases he with ⟨hne, -⟩ | ⟨e', hc', hn, -⟩
      · exact absurd hc (hne e)
      · rw [hc'.unique hc] at hm
        simp [hn] at hm
    | skip hr hne hrun =>
      -- The same elements are declared after the token.
      obtain rfl := h.unique hr
      rcases he with ⟨-, he⟩ | ⟨e', hc', -⟩
      · exact ⟨elements, c'', e, hrun, hc, by rwa [he]⟩
      · exact absurd hc' (hne e')
    | @complete _ _ _ e₀ elements hr hc₀ hrun =>
      -- What the run declares first is declared already after the token.
      obtain rfl := h.unique hr
      rcases he with ⟨hne, -⟩ | ⟨e', hc', -, he⟩
      · exact absurd hc₀ (hne e₀)
      · obtain rfl := hc'.unique hc₀
        refine ⟨elements, c'', e, hrun, hc, ?_⟩
        rw [he, List.mem_cons]
        rw [List.mem_cons, or_assoc, or_left_comm] at hm
        exact hm
  · rintro ⟨elements, c'', e, hr, hc, hm⟩
    rcases he with ⟨hne, he⟩ | ⟨e', hc', -, he⟩
    · exact ⟨elements, c'', e, .skip h hne hr, hc, by rwa [he] at hm⟩
    · refine ⟨e' :: elements, c'', e, .complete h hc' hr, hc, ?_⟩
      rw [he, List.mem_cons] at hm
      rw [List.mem_cons, or_assoc, or_left_comm]
      exact hm

/-- A token that completes a declaration does not start the root element. -/
theorem not_root_of_completed {e : List Char} (h : stage.completed? t = some e) :
    ¬ (t = .elementStart ∧ stage.allowsRoot = true) := by
  rintro ⟨rfl, -⟩
  unfold Stage.completed? at h
  split at h <;> simp_all

/-- Nothing is repeated where no token can be scanned. -/
theorem Config.not_repeats_of_halt {halt : Halt} (h : scan a c.ending c.text = .error halt) :
    ¬ c.Repeats a := by
  rw [Config.repeats_of_stuck]
  · rintro ⟨e, ⟨scanned, hs, -⟩, -⟩
    rw [h] at hs
    cases hs
  · rintro c' ⟨hs, -, -⟩
    rw [h] at hs
    cases hs

/-- Nothing is repeated where the root element starts. -/
theorem Config.not_repeats_of_root {scanned : Scanned} (h : scan a c.ending c.text = .ok scanned)
    (hr : scanned.token = .elementStart ∧ c.stage.allowsRoot = true) : ¬ c.Repeats a := by
  rw [Config.repeats_of_stuck]
  · rintro ⟨e, ⟨scanned', hs, hc⟩, -⟩
    obtain rfl := Except.ok.inj (h.symm.trans hs)
    exact not_root_of_completed hc hr
  · rintro c' ⟨hs, hr', -⟩
    obtain rfl := Except.ok.inj (h.symm.trans hs)
    exact hr' hr

/-- Where a token leads nowhere, an element is repeated if that is the reason. -/
theorem Config.repeats_of_failure {scanned : Scanned} {f : Failure}
    (h : scan a c.ending c.text = .ok scanned)
    (hf : c.stage.next a c.declarations scanned.token c.text = .error f) :
    c.Repeats a ↔ f = .repeatedElement := by
  rw [Config.repeats_of_stuck]
  · constructor
    · rintro ⟨e, ⟨scanned', hs, hc⟩, he⟩
      obtain rfl := Except.ok.inj (h.symm.trans hs)
      rw [Stage.next_of_completed hc, elementStep, if_pos he] at hf
      exact (Except.error.inj hf).symm
    · rintro rfl
      cases hc : c.stage.completed? scanned.token with
      | none => exact absurd hf (Stage.keeps_next hc).ne_repeated
      | some e =>
        refine ⟨e, ⟨scanned, h, hc⟩, ?_⟩
        rw [Stage.next_of_completed hc, elementStep] at hf
        split at hf
        · assumption
        · cases hf
  · rintro c' ⟨hs, -, hn⟩
    obtain rfl := Except.ok.inj (h.symm.trans hs)
    rw [hf] at hn
    cases hn

/-- **Reading the prolog stops at a repeated element exactly if a run gets to one.** -/
theorem readProlog_eq_repeatedElement_iff (c : Config) :
    readProlog a c.ending c.stage c.declarations c.text = .error .repeatedElement ↔
      c.Repeats a := by
  obtain ⟨ending, stage, d, text⟩ := c
  dsimp only
  -- The induction follows the reader from token to token.
  fun_induction readProlog a ending stage d text with
  | case1 ending stage d =>
    have hn := Config.not_repeats_of_halt (c := ⟨ending, stage, d, []⟩) (a := a) rfl
    simpa using hn
  | case2 ending stage d text _ halt hs =>
    have hn := Config.not_repeats_of_halt (c := ⟨ending, stage, d, text⟩) hs
    simpa using hn
  | case3 ending stage d text _ scanned hs hr =>
    have hn := Config.not_repeats_of_root (c := ⟨ending, stage, d, text⟩) hs hr
    simpa using hn
  | case4 ending stage d text _ scanned hs hr f hf =>
    rw [Config.repeats_of_failure (c := ⟨ending, stage, d, text⟩) hs hf, Except.error.injEq]
  | case5 ending stage d text _ scanned hs hr stage' d' hn ih =>
    rw [dite_eq_ite] at ih
    rw [ih]
    exact (Config.repeats_of_reads (c := ⟨ending, stage, d, text⟩) (.intro hs hr hn)).symm

end FxmlWiring.Markup.Prolog
