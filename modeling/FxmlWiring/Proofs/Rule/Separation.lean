import FxmlWiring.Controller
import FxmlWiring.Proofs.Rule.Layout

/-! # What separates the words of a declaration

A declaration can lose blanks and line breaks until two of its words meet that a rule wants
separated, or until nothing is left of its type arguments. `Requirement.separated` and
`Requirement.enclosing` list these words.

One character is taken out at a time. A language `Closes` over the gap if what is left is a word of
it again or if such words meet at the gap, and the parts of a declaration are put together as in
`IgnoresLayout`. Main statement: `Rule.standsIn_of_layout`. -/

namespace FxmlWiring

open Text

namespace Declaration

/-! ## Words without layout -/

/-- What separates words in one text or another: blanks, and what may break a line. -/
def isLayout (c : Char) : Bool :=
  isBlank c || Controller.Comment.isBreak c

theorem isLayout_of_isBlank {c : Char} (h : isBlank c = true) : isLayout c = true := by
  rw [isLayout, h, Bool.true_or]

/-- The word holds no blanks and no line breaks. -/
def IsSolid (w : String) : Prop :=
  ∀ c ∈ w.toList, isLayout c = false

instance : DecidablePred IsSolid :=
  fun w => inferInstanceAs (Decidable (∀ c ∈ w.toList, isLayout c = false))

theorem IsSolid.not_mem {w : String} (hw : IsSolid w) {c : Char} (hc : isLayout c = true) :
    c ∉ w.toList := by
  intro h
  rw [hw c h] at hc
  cases hc

/-! ## Words that meet -/

/-- The two words of one of the pairs meet between the two texts. -/
def Meets (K : List (String × String)) (a b : List Char) : Prop :=
  ∃ k ∈ K, k.1.toList <:+ a ∧ k.2.toList <+: b

/-- The character is all that separates two words: a blank those of a pair of `K`, any character
those of a pair of `E`. -/
def Separates (K E : List (String × String)) (c : Char) (a b : List Char) : Prop :=
  isBlank c = true ∧ Meets K a b ∨ Meets E a b

variable {K E : List (String × String)} {L M : Language Char}

theorem Meets.mono {a b x y : List Char} (h : Meets K a b) (ha : a <:+ x) (hb : b <+: y) :
    Meets K x y := by
  obtain ⟨k, hk, hka, hkb⟩ := h
  exact ⟨k, hk, hka.trans ha, hkb.trans hb⟩

theorem Separates.mono {a b x y : List Char} {c : Char} (h : Separates K E c a b) (ha : a <:+ x)
    (hb : b <+: y) : Separates K E c x y :=
  h.imp (And.imp_right fun h => h.mono ha hb) fun h => h.mono ha hb

/-! ## Closing the gap -/

/-- If a blank or a line break is taken out of a word of the language, a word of the language is
left, or the character was all that separated two words. -/
def Closes (K E : List (String × String)) (L : Language Char) : Prop :=
  ∀ a c b, isLayout c = true → a ++ c :: b ∈ L → a ++ b ∈ L ∨ Separates K E c a b

/-- A character of a text that is cut in two is on one side of the cut. -/
theorem exists_of_append_eq {u v a b : List Char} {c : Char} (h : u ++ v = a ++ c :: b) :
    (∃ a', a = u ++ a' ∧ v = a' ++ c :: b) ∨ ∃ b', u = a ++ c :: b' ∧ b = b' ++ v := by
  rcases List.append_eq_append_iff.1 h with ⟨a', rfl, hv⟩ | ⟨c', rfl, hv⟩
  · exact Or.inl ⟨a', rfl, hv⟩
  · cases c' with
    | nil => exact Or.inl ⟨[], by simp, hv.symm⟩
    | cons d b' =>
      obtain ⟨rfl, rfl⟩ := List.cons.inj hv
      exact Or.inr ⟨b', rfl, rfl⟩

theorem mem_append_cons {a b : List Char} (c : Char) {d : Char} (h : d ∈ a ++ b) :
    d ∈ a ++ c :: b := by
  rw [List.mem_append] at h ⊢
  exact h.imp_right (List.mem_cons_of_mem c)

theorem Closes.add (hL : Closes K E L) (hM : Closes K E M) : Closes K E (L + M) := by
  intro a c b hc h
  rw [Language.mem_add] at h ⊢
  rcases h with h | h
  · exact (hL a c b hc h).imp_left Or.inl
  · exact (hM a c b hc h).imp_left Or.inr

/-- A gap behind a front of the declaration. -/
theorem mul_or_separates {u a b : List Char} {c : Char} (hu : u ∈ L)
    (h : a ++ b ∈ M ∨ Separates K E c a b) :
    u ++ a ++ b ∈ L * M ∨ Separates K E c (u ++ a) b := by
  refine h.imp (fun h => ?_) fun h => h.mono (List.suffix_append u a) List.prefix_rfl
  rw [List.append_assoc]
  exact ⟨u, hu, a ++ b, h, rfl⟩

theorem Closes.exactly_mul {w : String} (hw : IsSolid w) (hM : Closes K E M) :
    Closes K E (exactly w * M) := by
  rintro a c b hc ⟨_, rfl, m, hm, h⟩
  rcases exists_of_append_eq h with ⟨a', rfl, rfl⟩ | ⟨b', hb, -⟩
  · exact mul_or_separates rfl (hM a' c b hc hm)
  · exact absurd (by rw [hb]; simp) (hw.not_mem hc)

theorem closes_exactly {w : String} (hw : IsSolid w) : Closes K E (exactly w) := by
  intro a c b hc h
  exact absurd (by rw [← mem_exactly.1 h]; simp) (hw.not_mem hc)

theorem Closes.blanks_mul (hM : Closes K E M) : Closes K E (blanks * M) := by
  rintro a c b hc ⟨g, hg, m, hm, h⟩
  rcases exists_of_append_eq h with ⟨a', rfl, rfl⟩ | ⟨b', rfl, rfl⟩
  · exact mul_or_separates hg (hM a' c b hc hm)
  · have hab : a ++ b' ∈ blanks :=
      mem_blanks_iff.2 fun d hd => mem_blanks_iff.1 hg d (mem_append_cons c hd)
    exact Or.inl ⟨a ++ b', hab, m, hm, List.append_assoc a b' m⟩

/-- What stands between a word and the rest, and may be shorter but not missing: where one character
is all of it, this separates the word and the rest. -/
theorem Closes.between_mul {u : String} {P : Language Char} (hu : IsSolid u)
    (hP : ∀ a c b, a ++ c :: b ∈ P → a ++ b ≠ [] → a ++ b ∈ P) (hM : Closes K E M)
    (hm : ∀ c, isLayout c = true → [c] ∈ P → ∀ m ∈ M, Separates K E c u.toList m) :
    Closes K E (exactly u * (P * M)) := by
  rintro a c b hc ⟨_, rfl, _, ⟨g, hg, m, hmM, rfl⟩, h⟩
  rcases exists_of_append_eq h with ⟨a', rfl, hgm⟩ | ⟨b', hb, -⟩
  · rcases exists_of_append_eq hgm with ⟨a'', rfl, rfl⟩ | ⟨b', rfl, rfl⟩
    · exact mul_or_separates rfl (mul_or_separates hg (hM a'' c b hc hmM))
    · by_cases hn : a' ++ b' = []
      · obtain ⟨rfl, rfl⟩ := List.append_eq_nil_iff.1 hn
        rw [List.append_nil, List.nil_append]
        exact Or.inr (hm c hc hg m hmM)
      · exact Or.inl ⟨u.toList, rfl, _, ⟨a' ++ b', hP a' c b' hg hn, m, hmM, rfl⟩, by simp⟩
  · exact absurd (by rw [hb]; simp) (hu.not_mem hc)

/-! ## Parts of declarations -/

/-- Every word of the language begins with one of the words. -/
def BeginsWith (vs : List String) (M : Language Char) : Prop :=
  ∀ m ∈ M, ∃ v ∈ vs, v.toList <+: m

theorem beginsWith_exactly_mul (w : String) (M : Language Char) :
    BeginsWith [w] (exactly w * M) := by
  rintro _ ⟨_, rfl, m, -, rfl⟩
  exact ⟨w, List.mem_singleton_self w, List.prefix_append _ m⟩

theorem BeginsWith.access_mul {v : String} (h : BeginsWith [v] M) :
    BeginsWith ["private", "protected", v] (access * M) := by
  have hmono {w : String} (hw : w ∈ ["private", "protected", v]) {N : Language Char}
      (hN : BeginsWith [w] N) : BeginsWith ["private", "protected", v] N := by
    intro m hm
    obtain ⟨_, hu, hp⟩ := hN m hm
    exact ⟨w, hw, List.mem_singleton.1 hu ▸ hp⟩
  rw [Declaration.access_mul]
  intro m hm
  rw [Language.mem_add, Language.mem_add] at hm
  rcases hm with (hm | hm) | hm
  · exact hmono (by simp) h m hm
  · exact hmono (by simp) (beginsWith_exactly_mul "private" _) m hm
  · exact hmono (by simp) (beginsWith_exactly_mul "protected" _) m hm

/-- A gap separates a word from the words with which the rest begins. -/
theorem Closes.gap_mul {u : String} (hu : IsSolid u) (hM : Closes K E M) {vs : List String}
    (hb : BeginsWith vs M) (hk : ∀ v ∈ vs, (u, v) ∈ K) : Closes K E (exactly u * (gap * M)) := by
  refine between_mul hu (fun a c b h hn => ?_) hM fun c _ hc m hm => Or.inl ?_
  · rw [mem_gap_iff] at h ⊢
    exact ⟨hn, fun d hd => h.2 d (mem_append_cons c hd)⟩
  · obtain ⟨v, hv, hp⟩ := hb m hm
    have hcb : isBlank c = true := (mem_gap_iff.1 hc).2 c (List.mem_singleton_self c)
    exact ⟨hcb, (u, v), hk v hv, List.suffix_rfl, hp⟩

/-- The pairs of words that are separated in front of a word, behind an annotation or `public`. -/
def opening (binding word : String) : List (String × String) :=
  [(binding, "private"), (binding, "protected"), (binding, word), ("private", word),
    ("protected", word), ("public", word)]

/-- An annotation and an access word before what begins with a word. -/
theorem Closes.annotated_mul {b v : String} (hb : IsSolid b) (hM : Closes K E M)
    (hv : BeginsWith [v] M) (hk : opening b v ⊆ K) :
    Closes K E (exactly b * (gap * (access * M))) := by
  have haccess : Closes K E (access * M) := by
    rw [Declaration.access_mul]
    have hword {w : String} (hw : IsSolid w) (hwv : (w, v) ∈ opening b v) :
        Closes K E (exactly w * (gap * M)) :=
      hM.gap_mul hw hv fun u hu => List.mem_singleton.1 hu ▸ hk hwv
    exact (hM.add (hword (by decide) (by simp [opening]))).add
      (hword (by decide) (by simp [opening]))
  refine haccess.gap_mul hb hv.access_mul fun u hu => hk ?_
  simp only [List.mem_cons, List.not_mem_nil, or_false] at hu
  rcases hu with rfl | rfl | rfl <;> simp [opening]

/-- `public` before what begins with a word. -/
theorem Closes.public_mul {b v : String} (hM : Closes K E M) (hv : BeginsWith [v] M)
    (hk : opening b v ⊆ K) : Closes K E (exactly "public" * (gap * M)) :=
  hM.gap_mul (by decide) hv fun u hu => List.mem_singleton.1 hu ▸ hk (by simp [opening])

/-- Type arguments keep their brackets apart. -/
theorem Closes.arguments_mul (hM : Closes K E (exactly ">" * M)) (he : ("<", ">") ∈ E) :
    Closes K E (blanks * (exactly "<" * (filler * (exactly ">" * M)))) := by
  refine (between_mul (by decide) (fun _ _ _ _ hn => hn) hM ?_).blanks_mul
  rintro c - - _ ⟨_, rfl, m, -, rfl⟩
  exact Or.inr ⟨("<", ">"), he, List.suffix_rfl, List.prefix_append _ m⟩

/-! ## Closing the gap in a text -/

/-- What stands in a text stands there without one blank or line break, unless this separates two
words. -/
theorem Closes.occurs (hL : Closes K E L) {x y : List Char} {c : Char} (hc : isLayout c = true)
    (h : ∃ w ∈ L, w <:+: x ++ c :: y) : (∃ w ∈ L, w <:+: x ++ y) ∨ Separates K E c x y := by
  obtain ⟨w, hw, l, r, he⟩ := h
  rw [List.append_assoc] at he
  rcases exists_of_append_eq he with ⟨a, rfl, hwr⟩ | ⟨b, rfl, rfl⟩
  · rcases exists_of_append_eq hwr with ⟨a', rfl, rfl⟩ | ⟨b, rfl, rfl⟩
    · exact Or.inl ⟨w, hw, l, a' ++ y, by simp⟩
    · refine (hL a c b hc hw).imp (fun h => ⟨a ++ b, h, l, r, by simp⟩) fun h => ?_
      exact h.mono (List.suffix_append l a) (List.prefix_append b r)
  · exact Or.inl ⟨w, hw, x ++ b, r, by simp⟩

/-- Both words of every pair are free of layout. -/
def AreSolid (K : List (String × String)) : Prop :=
  ∀ k ∈ K, IsSolid k.1 ∧ IsSolid k.2

/-- Words that meet on the far side of layout are empty there, so they meet without it. -/
theorem Meets.of_layout (hK : AreSolid K) {x g y : List Char} (hg : ∀ c ∈ g, isLayout c = true)
    (h : Meets K x (g ++ y)) : Meets K x y := by
  cases g with
  | nil => exact h
  | cons c g =>
    obtain ⟨k, hk, hx, hp⟩ := h
    refine ⟨k, hk, hx, ?_⟩
    cases hv : k.2.toList with
    | nil => exact List.nil_prefix
    | cons d v =>
      rw [hv, List.cons_append, List.cons_prefix_cons] at hp
      have hd : isLayout d = true := hp.1 ▸ hg c List.mem_cons_self
      exact absurd (by rw [hv]; exact List.mem_cons_self) ((hK k hk).2.not_mem hd)

/-- No layout is beside a place where words meet, unless they are empty. -/
theorem Meets.not_layout (hE : AreSolid E) (hne : ∀ k ∈ E, k.1 ≠ "" ∧ k.2 ≠ "")
    {x y : List Char} (h : Meets E x y) :
    (∀ c ∈ x.getLast?, isLayout c = false) ∧ ∀ c ∈ y.head?, isLayout c = false := by
  obtain ⟨k, hk, ⟨l, rfl⟩, ⟨r, rfl⟩⟩ := h
  have hn {v : String} (hv : v ≠ "") : v.toList ≠ [] := fun h => hv (String.toList_eq_nil_iff.1 h)
  constructor
  · intro c hc
    rw [List.getLast?_append_of_ne_nil _ (hn (hne k hk).1)] at hc
    exact (hE k hk).1 c (List.mem_of_getLast? hc)
  · intro c hc
    rw [List.head?_append_of_ne_nil _ (hn (hne k hk).2)] at hc
    exact (hE k hk).2 c (List.mem_of_head? hc)

/-- What stands in a text stands there without the layout at one place, unless words meet. -/
theorem Closes.occurs_of_layout (hL : Closes K E L) (hK : AreSolid K) (hE : AreSolid E)
    {x g y : List Char} (hg : ∀ c ∈ g, isLayout c = true) (h : ∃ w ∈ L, w <:+: x ++ (g ++ y)) :
    (∃ w ∈ L, w <:+: x ++ y) ∨ Meets K x y ∨ Meets E x y := by
  induction g with
  | nil => exact Or.inl h
  | cons c g ih =>
    rw [List.forall_mem_cons] at hg
    rcases hL.occurs hg.1 h with h | ⟨-, h⟩ | h
    · exact ih hg.2 h
    · exact Or.inr (Or.inl (h.of_layout hK hg.2))
    · exact Or.inr (Or.inr (h.of_layout hE hg.2))

/-- Beside a blank only the blanks of the layout matter. -/
theorem Closes.occurs_filter (hL : Closes K E L) (hE : AreSolid E)
    (hne : ∀ k ∈ E, k.1 ≠ "" ∧ k.2 ≠ "") {x g y : List Char} (hg : ∀ c ∈ g, isLayout c = true)
    (hb : (∃ c ∈ x.getLast?, isBlank c = true) ∨ ∃ c ∈ y.head?, isBlank c = true)
    (h : ∃ w ∈ L, w <:+: x ++ (g ++ y)) : ∃ w ∈ L, w <:+: x ++ (g.filter isBlank ++ y) := by
  induction g generalizing x with
  | nil => exact h
  | cons c g ih =>
    rw [List.forall_mem_cons] at hg
    by_cases hc : isBlank c = true
    · -- The blank stays, and is beside what is left of the gap.
      rw [List.filter_cons_of_pos hc, List.cons_append, List.append_cons]
      rw [List.cons_append, List.append_cons] at h
      exact ih hg.2 (Or.inl ⟨c, by simp, hc⟩) h
    · rw [List.filter_cons_of_neg hc]
      rcases hL.occurs hg.1 h with h | ⟨h, -⟩ | h
      · exact ih hg.2 hb h
      · exact absurd h hc
      · -- Words do not meet beside a blank.
        exfalso
        obtain ⟨hx, hy⟩ := (h.of_layout hE hg.2).not_layout hE hne
        rcases hb with ⟨d, hd, hdb⟩ | ⟨d, hd, hdb⟩
        · have := hx d hd
          rw [isLayout_of_isBlank hdb] at this
          cases this
        · have := hy d hd
          rw [isLayout_of_isBlank hdb] at this
          cases this

end Declaration

/-! ## Rules -/

variable {s : Settings} {r : Requirement} {rule : Rule}

open Declaration

/-- The pairs of words that a rule of the requirement wants separated by blanks. -/
def Requirement.separated (s : Settings) : Requirement → List (String × String)
  | .field type identifier => opening s.binding type ++ [(type, identifier), (">", identifier)]
  | .handler identifier => opening s.binding "void" ++ [("void", identifier)]

/-- The pairs of words between which a rule of the requirement wants some text. -/
def Requirement.enclosing : Requirement → List (String × String)
  | .field .. => [("<", ">")]
  | .handler _ => []

/-- The values of the requirement hold no blanks and no line breaks, and its type, if it has one, is
not empty. -/
structure Requirement.Solid (s : Settings) (r : Requirement) : Prop where
  isSolid : ∀ slot v, r.value? s slot = some v → IsSolid v
  type_ne : r.value? s .type ≠ some ""

theorem Requirement.Solid.unspaced (h : r.Solid s) : r.Unspaced s := by
  refine ⟨fun slot v hv c hc => ?_, h.type_ne⟩
  have := h.isSolid slot v hv c hc
  rw [isLayout, Bool.or_eq_false_iff] at this
  exact this.1

open Rule in
/-- The declarations of a solid requirement close over gaps. -/
theorem Rule.closes_declarations (h : r.Solid s) (hr : rule ∈ r.rules) :
    Closes (r.separated s) r.enclosing (r.declarations s rule) := by
  have hb : IsSolid s.binding := h.isSolid .binding _ rfl
  have hi : IsSolid r.identifier := h.isSolid .identifier _ rfl
  cases r with
  | field type identifier =>
    have ht : IsSolid type := h.isSolid .type _ rfl
    have hopening : opening s.binding type ⊆ (Requirement.field type identifier).separated s :=
      List.subset_append_left _ _
    have hstart (M : Language Char) := beginsWith_exactly_mul type M
    have hname {w : String} (hw : IsSolid w)
        (hk : (w, identifier) ∈ (Requirement.field type identifier).separated s) :
        Closes ((Requirement.field type identifier).separated s) [("<", ">")]
          (exactly w * (gap * (exactly identifier * (blanks * exactly ";")))) :=
      ((closes_exactly (by decide)).blanks_mul.exactly_mul hi).gap_mul hw
        (beginsWith_exactly_mul _ _) (by simpa using hk)
    have hplain := hname ht (by simp [Requirement.separated])
    have hgeneric := ((hname (w := ">") (by decide) (by simp [Requirement.separated])).arguments_mul
      (by simp)).exactly_mul ht
    have hrule : rule = annotatedField ∨ rule = publicField ∨ rule = annotatedGenericField ∨
        rule = publicGenericField := by simpa [Requirement.rules, fieldRules] using hr
    rcases hrule with rfl | rfl | rfl | rfl
    all_goals simp only [Requirement.declarations, mul_assoc]
    · exact hplain.annotated_mul hb (hstart _) hopening
    · exact hplain.public_mul (hstart _) hopening
    · exact hgeneric.annotated_mul hb (hstart _) hopening
    · exact hgeneric.public_mul (hstart _) hopening
  | handler identifier =>
    have hopening : opening s.binding "void" ⊆ (Requirement.handler identifier).separated s :=
      List.subset_append_left _ _
    have hparameters : Closes ((Requirement.handler identifier).separated s) []
        (blanks * (exactly "(" * (blanks * exactly ")"))) :=
      ((closes_exactly (by decide)).blanks_mul.exactly_mul (by decide)).blanks_mul
    have hvoid := (hparameters.exactly_mul (w := identifier) hi).gap_mul (u := "void") (by decide)
      (beginsWith_exactly_mul _ _) (by simp [Requirement.separated])
    have hrule : rule = annotatedHandler ∨ rule = publicHandler := by
      simpa [Requirement.rules, handlerRules] using hr
    rcases hrule with rfl | rfl
    all_goals simp only [Requirement.declarations, mul_assoc]
    · exact hvoid.annotated_mul hb (beginsWith_exactly_mul _ _) hopening
    · exact hvoid.public_mul (beginsWith_exactly_mul _ _) hopening

theorem Declaration.areSolid_opening {b v : String} (hb : IsSolid b) (hv : IsSolid v) :
    AreSolid (opening b v) := by
  have hw : ∀ w ∈ ["private", "protected", "public"], IsSolid w := by decide
  simp only [AreSolid, opening, List.forall_mem_cons]
  exact ⟨⟨hb, hw _ (by simp)⟩, ⟨hb, hw _ (by simp)⟩, ⟨hb, hv⟩, ⟨hw _ (by simp), hv⟩,
    ⟨hw _ (by simp), hv⟩, ⟨hw _ (by simp), hv⟩, by simp⟩

/-- The words that a solid requirement wants separated hold no layout themselves. -/
theorem Requirement.Solid.areSolid_separated (h : r.Solid s) : AreSolid (r.separated s) := by
  have hb : IsSolid s.binding := h.isSolid .binding _ rfl
  have hi : IsSolid r.identifier := h.isSolid .identifier _ rfl
  cases r with
  | field type identifier =>
    have ht : IsSolid type := h.isSolid .type _ rfl
    refine List.forall_mem_append.2 ⟨areSolid_opening hb ht, ?_⟩
    simp only [List.forall_mem_cons]
    exact ⟨⟨ht, hi⟩, ⟨by decide, hi⟩, by simp⟩
  | handler identifier =>
    refine List.forall_mem_append.2 ⟨areSolid_opening hb (by decide), ?_⟩
    simp only [List.forall_mem_cons]
    exact ⟨⟨by decide, hi⟩, by simp⟩

theorem Requirement.eq_of_mem_enclosing {k : String × String} (h : k ∈ r.enclosing) :
    k = ("<", ">") := by
  cases r with
  | field => exact List.mem_singleton.1 h
  | handler => cases h

theorem Requirement.areSolid_enclosing : AreSolid r.enclosing := by
  intro k hk
  rw [eq_of_mem_enclosing hk]
  decide

theorem Requirement.enclosing_ne : ∀ k ∈ r.enclosing, k.1 ≠ "" ∧ k.2 ≠ "" := by
  intro k hk
  rw [eq_of_mem_enclosing hk]
  decide

/-- **Two words of a requirement run together**: they are to be separated, and they meet without a
blank on either side. -/
def Requirement.RunsTogether (s : Settings) (r : Requirement) (x y : List Char) : Prop :=
  (∀ c ∈ x.getLast?, isBlank c = false) ∧ (∀ c ∈ y.head?, isBlank c = false) ∧
    Meets (r.separated s ++ r.enclosing) x y

/-- **A declaration that stands in a text stands there also without the layout at one place**,
unless two words run together there. -/
theorem Rule.standsIn_of_layout (h : r.Solid s) (hr : rule ∈ r.rules) {x g y : List Char}
    (hg : ∀ c ∈ g, isLayout c = true) (hn : ¬ r.RunsTogether s x y)
    (hs : rule.StandsIn s r (.ofList (x ++ g ++ y))) : rule.StandsIn s r (.ofList (x ++ y)) := by
  have hL := Rule.closes_declarations h hr
  have hE : AreSolid r.enclosing := Requirement.areSolid_enclosing
  rw [StandsIn, String.toList_ofList, List.append_assoc] at hs
  by_cases hb : (∃ c ∈ x.getLast?, isBlank c = true) ∨ ∃ c ∈ y.head?, isBlank c = true
  · -- The blanks of the gap join the one beside it.
    have hf := hL.occurs_filter hE Requirement.enclosing_ne hg hb hs
    rw [← standsIn_iff_of_squeeze h.unspaced hr (a := .ofList (x ++ g.filter isBlank ++ y))]
    · rwa [StandsIn, String.toList_ofList, List.append_assoc]
    · rw [String.toList_ofList, String.toList_ofList]
      exact squeeze_insert_blanks (fun c hc => (List.mem_filter.1 hc).2) hb
  · rw [StandsIn, String.toList_ofList]
    refine (hL.occurs_of_layout h.areSolid_separated hE hg hs).resolve_right fun hm => ?_
    push Not at hb
    refine hn ⟨by simpa using hb.1, by simpa using hb.2, ?_⟩
    rcases hm with ⟨k, hk, hm⟩ | ⟨k, hk, hm⟩
    · exact ⟨k, List.mem_append_left _ hk, hm⟩
    · exact ⟨k, List.mem_append_right _ hk, hm⟩

end FxmlWiring
