import FxmlWiring.Proofs.Markup.FaultPlace
import FxmlWiring.Proofs.Markup.Source
import FxmlWiring.Proofs.Markup.Surroundings

/-! # Documents that stay below the limit on amplification

An account is **balanced** if replacement texts have not made more bytes than the document has. It
is tolerated then. Where no entity is declared, only predefined references are replaced, each by
one character, so an account that is balanced stays so: a document without a document type never
gets to the limit (`Source.limit?_eq_none_of_not_infix`). -/

namespace FxmlWiring.Markup

open Text

/-! ## Rounding -/

/-- Rounding does not make a number more than twice as large. -/
theorem round24_le (n : Nat) : round24 n ≤ 2 * n := by
  unfold round24
  dsimp only
  generalize 1 <<< (n.log2 - 23) = unit
  have hn := Nat.div_add_mod' n unit
  split
  · -- The remainder is half a unit at least.
    rename_i hr
    have hr : unit ≤ 2 * (n % unit) := by omega
    rw [Nat.add_mul, Nat.one_mul]
    omega
  · omega

/-- Rounding leaves half of a number at least. -/
theorem le_round24 (n : Nat) : n ≤ 2 * round24 n := by
  rcases Nat.eq_zero_or_pos n with rfl | hpos
  · exact Nat.zero_le _
  have hpower := Nat.one_shiftLeft (n.log2 - 23)
  have hunit : 0 < 1 <<< (n.log2 - 23) := hpower ▸ Nat.pow_pos (by decide)
  have hle : 1 <<< (n.log2 - 23) ≤ n := by
    rw [hpower]
    exact (Nat.pow_le_pow_right (by decide) (Nat.sub_le _ _)).trans (Nat.log2_self_le hpos.ne')
  unfold round24
  dsimp only
  generalize 1 <<< (n.log2 - 23) = unit at *
  have hn := Nat.div_add_mod' n unit
  have hr := Nat.mod_lt n hunit
  have hq : unit ≤ n / unit * unit := Nat.le_mul_of_pos_left unit (Nat.div_pos hle hunit)
  split
  · rw [Nat.add_mul, Nat.one_mul]
    omega
  · omega

/-! ## Accounts -/

namespace Account

variable {x y z : Account}

/-- Replacement texts have not made more bytes than the document has, even if they make some more
without any from the document. -/
def IsBalanced (x : Account) (spare : Nat) : Prop :=
  x.expanded + spare ≤ x.direct

/-- A balanced account is tolerated. -/
theorem IsBalanced.isTolerated {spare : Nat} (h : x.IsBalanced spare) : x.isTolerated = true := by
  have hx : x.expanded + spare ≤ x.direct := h
  have hout : x.output = x.direct + x.expanded := rfl
  have ho := round24_le x.output
  have hd := le_round24 x.direct
  rw [Account.isTolerated, Bool.or_eq_true, decide_eq_true_eq, decide_eq_true_eq]
  omega

/-- From one account to another one, replacement texts make no more than so many bytes. -/
structure Spends (x : Account) (bytes : Nat) (y : Account) : Prop where
  expanded : y.expanded ≤ x.expanded + bytes
  direct : x.direct ≤ y.direct

theorem Spends.refl (x : Account) : x.Spends 0 x :=
  ⟨Nat.le_refl _, Nat.le_refl _⟩

theorem Spends.trans {m n : Nat} (h : x.Spends m y) (h' : y.Spends n z) : x.Spends (m + n) z :=
  ⟨by have := h.expanded; have := h'.expanded; omega, h.direct.trans h'.direct⟩

theorem Spends.mono {m n : Nat} (h : x.Spends m y) (hmn : m ≤ n) : x.Spends n y :=
  ⟨h.expanded.trans (Nat.add_le_add_left hmn _), h.direct⟩

/-- What is spent is taken from what can be spared. -/
theorem IsBalanced.of_spends {m n : Nat} (h : x.IsBalanced (m + n)) (hs : x.Spends m y) :
    y.IsBalanced n := by
  have hx : x.expanded + (m + n) ≤ x.direct := h
  have he := hs.expanded
  have hd := hs.direct
  change y.expanded + n ≤ y.direct
  omega

theorem IsBalanced.mono {m n : Nat} (h : x.IsBalanced n) (hmn : m ≤ n) : x.IsBalanced m :=
  (Nat.add_le_add_left hmn _).trans h

/-- The character of a predefined entity is spent. -/
theorem spends_add_entity (x : Account) (bytes : Nat) : x.Spends bytes (x.add .entity bytes) :=
  ⟨Nat.le_refl _, Nat.le_refl _⟩

/-- Bytes of the document are put into an account that is balanced. -/
theorem charge_document {spare : Nat} (h : x.IsBalanced spare) (bytes : Nat) (text : List Char) :
    x.charge (some .document) bytes text = .ok (x.add .document bytes) := by
  have hadd : (x.add .document bytes).IsBalanced spare :=
    Nat.le_trans h (Nat.le_add_right x.direct bytes)
  exact if_pos hadd.isTolerated

/-- Something outside replacement texts is put into an account that is balanced, or is in it. -/
theorem exists_charge {spare : Nat} {place : Option Place} (hp : place ≠ some .entity)
    (h : x.IsBalanced spare) (bytes : Nat) (text : List Char) :
    ∃ y, x.charge place bytes text = .ok y ∧ x.Spends 0 y := by
  match place with
  | none => exact ⟨x, rfl, .refl x⟩
  | some .document => exact ⟨_, charge_document h bytes text, Nat.le_refl _, Nat.le_add_right _ _⟩
  | some .entity => exact absurd rfl hp

end Account

/-- The account is kept without getting to the limit, and this holds then. -/
abbrev Balances {α : Type} (P : α → Prop) (r : Except Interruption α) : Prop :=
  Gives (· = .fault) P r

/-- What is spent later is spent from the start on. -/
theorem Balances.spends {x y : Account} {r : Except Interruption Account} {l m n : Nat}
    (h : Balances (y.Spends m) r) (hs : x.Spends l y) (hn : l + m ≤ n) :
    Balances (x.Spends n) r :=
  h.mono (fun _ h => h) fun _ hz => (hs.trans hz).mono hn

variable {d : Declarations} {a : Alphabet} {place : Option Place} {tagAt : List Char} {x : Account}

/-- Something outside replacement texts does not spend anything. -/
theorem balances_charge {α : Type} {P : α → Prop} {spare bytes : Nat} {text : List Char}
    {f : Account → Except Interruption α} (hp : place ≠ some .entity) (hx : x.IsBalanced spare)
    (hf : ∀ y, x.Spends 0 y → y.IsBalanced spare → Balances P (f y)) :
    Balances P (x.charge place bytes text >>= f) := by
  obtain ⟨y, hy, hs⟩ := Account.exists_charge hp hx bytes text
  rw [hy]
  exact hf y hs (Account.IsBalanced.of_spends (by rwa [Nat.zero_add]) hs)

/-! ## Attribute values -/

/-- **A value spends no more than it has characters** where no entity is declared. -/
theorem meterValue_balances (hp : place ≠ some .entity) {closed : Entities} (hc : closed = [])
    {s : List Char} (hx : x.IsBalanced s.length) :
    Balances (x.Spends s.length) (meterValue d a place tagAt closed s x) := by
  fun_induction meterValue d a place tagAt closed s x with
  | case1 => exact .refl _
  | case2 | case4 | case6 => rfl
  | case3 a place closed x s r rest h ih ihp ihe =>
    have hlt := Reference.length_scan_lt h
    refine balances_charge hp hx fun y hs hy => ?_
    have hrest : Balances (x.Spends ('&' :: s).length) (meterValue d a place tagAt closed rest y) :=
      (ih y hp hc (hy.mono (by simp; omega))).spends hs (by simp; omega)
    cases r with
    | character code =>
      dsimp only
      split
      · exact hrest
      · rfl
    | entity name =>
      subst hc
      dsimp only
      split
      · -- One character for the four of the reference at least.
        have hone := y.spends_add_entity 1
        refine ((ihp y hp rfl ?_).spends (hs.trans hone) ?_)
        · exact Account.IsBalanced.of_spends (hy.mono (by simp; omega)) hone
        · simp
          omega
      · split
        · rename_i hl
          cases hl
        · rfl
        · split
          · rfl
          · exact hrest
  | case5 a place closed x c s _ _ _ rest bytes ih =>
    have hle : rest.length ≤ s.length := length_skipPairedBreak_le a c s
    refine balances_charge hp hx fun y hs hy => ?_
    exact (ih y hp hc (hy.mono (by simp; omega))).spends hs (by simp; omega)
  | case7 a place closed x c s _ _ _ rest _ ih =>
    have hle : rest.length ≤ s.length := length_dropWhile_le isPlainInValue s
    refine balances_charge hp hx fun y hs hy => ?_
    exact (ih y hp hc (hy.mono (by simp; omega))).spends hs (by simp; omega)

theorem meterAttribute_balances (hp : place ≠ some .entity) {w : WrittenAttribute}
    (hx : x.IsBalanced w.value.length) :
    Balances (x.Spends w.value.length) (meterAttribute d a place tagAt [] w x) := by
  unfold meterAttribute
  split
  · exact (Account.Spends.refl x).mono (Nat.zero_le _)
  · exact meterValue_balances hp rfl hx

/-- The characters of the values of a tag. -/
def valueLength (ws : List WrittenAttribute) : Nat :=
  (ws.flatMap (·.value)).length

/-- The values of a tag spend no more than they have characters. -/
theorem meterAttributes_balances (hp : place ≠ some .entity) {seen : List (List Char)}
    {ws : List WrittenAttribute} (hx : x.IsBalanced (valueLength ws)) :
    Balances (x.Spends (valueLength ws)) (meterAttributes d a place tagAt [] seen ws x) := by
  induction ws generalizing seen x with
  | nil => exact .refl x
  | cons w ws ih =>
    have hsum : valueLength (w :: ws) = w.value.length + valueLength ws := by
      rw [valueLength, List.flatMap_cons, List.length_append, valueLength]
    rw [meterAttributes]
    split
    · rfl
    · refine (meterAttribute_balances hp (hx.mono (by omega))).bind fun y hs => ?_
      exact (ih (Account.IsBalanced.of_spends (hsum ▸ hx) hs)).spends hs (by omega)

/-! ## Content -/

/-- Every character takes a byte. -/
structure Alphabet.TakesBytes (a : Alphabet) : Prop where
  units_pos : ∀ c, 0 < a.units c
  unitSize_pos : 0 < a.unitSize

theorem Alphabet.takesBytes_utf8 : utf8.TakesBytes :=
  ⟨units_utf8_pos, by decide⟩

theorem Alphabet.takesBytes_utf16 : utf16.TakesBytes :=
  ⟨units_utf16_pos, by decide⟩

theorem Source.Family.takesBytes (family : Family) : family.alphabet.TakesBytes := by
  cases family with
  | utf8 => exact Alphabet.takesBytes_utf8
  | utf16 => exact Alphabet.takesBytes_utf16

/-- A text has as many bytes as characters at least. -/
theorem Alphabet.TakesBytes.length_le_size (ha : a.TakesBytes) (s : List Char) :
    s.length ≤ a.size s := by
  induction s with
  | nil => exact Nat.zero_le _
  | cons c s ih =>
    have hc : 0 < a.unitSize * a.units c := Nat.mul_pos ha.unitSize_pos (ha.units_pos c)
    rw [Alphabet.size_cons, List.length_cons]
    omega

/-- What stands before the rest of a text has as many bytes as characters at least. -/
theorem Alphabet.TakesBytes.le_sizeTo (ha : a.TakesBytes) (text rest : List Char) :
    text.length - rest.length ≤ a.sizeTo text rest := by
  have h := ha.length_le_size (text.take (text.length - rest.length))
  rwa [List.length_take_of_le (Nat.sub_le _ _)] at h

/-- The values of attributes are a part of what is written. -/
theorem Dialect.AreAttributes.length_values_le {g : Dialect} {xs : List (List Char × List Char)}
    {s : List Char} (h : g.AreAttributes xs s) : (xs.flatMap (·.2)).length ≤ s.length := by
  induction h with
  | nil => exact Nat.le_refl 0
  | cons _ _ _ _ _ _ _ _ ih =>
    simp only [List.flatMap_cons, List.length_append, List.length_cons]
    omega

/-- The values of a tag have fewer characters than the tag has bytes. -/
theorem valueLength_le_sizeTo (ha : a.Separates) (hb : a.TakesBytes) {ending : Ending}
    {text rest : List Char} {tag : StartTag}
    (h : scanContent a ending text = .ok (.startTag tag, rest)) :
    valueLength tag.attributes ≤ a.sizeTo text rest := by
  have hs := starts_of_scanContent ha hb.units_pos h
  generalize hl : ContentToken.lexeme (.startTag tag) = l at hs
  cases hs with
  | @startTag isEmpty name w xs hw =>
    obtain ⟨-, rfl, -⟩ := Lexeme.startTag.inj hl
    obtain ⟨t, b, -, ht, -, rfl⟩ := hw
    have hle := ht.length_values_le
    rw [List.flatMap_map] at hle
    refine le_trans ?_ (hb.le_sizeTo _ _)
    simp only [List.length_cons, List.length_append]
    exact hle.trans (by omega)
  | _ => cases hl

/-- A `CDATA` section spends nothing. -/
theorem meterCdata_balances {ending : Ending} {text : List Char} (hx : x.IsBalanced 0) :
    Balances (x.Spends 0) (meterCdata a ending .document text x) := by
  fun_induction meterCdata a ending .document text x with
  | case1 | case3 | case4 => rfl
  | case2 x s =>
    rw [Account.charge_document hx]
    exact ⟨Nat.le_refl _, Nat.le_add_right _ _⟩
  | case5 x c s _ _ _ rest ih =>
    exact balances_charge (by simp) hx fun y hs hy => (ih y hy).spends hs (Nat.le_refl _)

theorem meterSection_balances {ending : Ending} {text : List Char} (hx : x.IsBalanced 0) :
    Balances (x.Spends 0) (meterSection a ending .document text x) := by
  unfold meterSection
  split
  · split
    · exact .refl x
    · exact balances_charge (by simp) hx fun y hs hy =>
        (meterCdata_balances hy).spends hs (Nat.le_refl _)
  · exact .refl x

theorem meterMarkup_balances {ending : Ending} {text rest : List Char} (hx : x.IsBalanced 0) :
    Balances (x.Spends 0) (meterMarkup a ending .document text rest x) := by
  unfold meterMarkup
  split
  · exact meterSection_balances hx
  · rw [Account.charge_document hx]
    exact ⟨Nat.le_refl _, Nat.le_add_right _ _⟩

theorem meterEnd_balances {ending : Ending} {text : List Char} (hx : x.IsBalanced 0) :
    Balances (x.Spends 0) (meterEnd a ending .document text x) := by
  unfold meterEnd
  split
  · exact .refl x
  · rw [Account.charge_document hx]
    exact ⟨Nat.le_refl _, Nat.le_add_right _ _⟩

/-- Bytes of the document can be spared. -/
theorem Account.IsBalanced.add_document {spare : Nat} (hx : x.IsBalanced spare) (bytes : Nat) :
    (x.add .document bytes).IsBalanced (spare + bytes) := by
  have hx : x.expanded + spare ≤ x.direct := hx
  change x.expanded + (spare + bytes) ≤ x.direct + bytes
  omega

/-- What spends nothing keeps a balance. -/
theorem Account.IsBalanced.of_spends_nothing {y : Account} (hx : x.IsBalanced 0)
    (hs : x.Spends 0 y) : y.IsBalanced 0 :=
  of_spends (m := 0) hx hs

/-- **Content of a document stays balanced** where no entity is declared. -/
theorem meterContent_balances (ha : a.Separates) (hb : a.TakesBytes) {ending : Ending}
    {place : Place} (hp : place = .document) {closed : Entities} (hc : closed = [])
    {stack : List (List Char)} {text : List Char} (hx : x.IsBalanced 0) :
    Balances (·.1.IsBalanced 0) (meterContent d a ending place closed stack text x) := by
  have hdocument : some Place.document ≠ some .entity := by simp
  fun_induction meterContent d a ending place closed stack text x with
  | case1 a ending place closed stack text x =>
    subst hp
    refine (meterEnd_balances hx).bind fun y hs => ?_
    rw [if_neg fun h => nomatch h.1]
    exact rfl
  | case2 a ending place closed stack text x =>
    subst hp
    exact Gives.bind (meterSection_balances hx) fun _ _ => rfl
  | case3 a ending place closed stack text x _ rest _ _ ih =>
    subst hp
    exact (meterMarkup_balances hx).bind fun y hs => ih y ha hb rfl hc (hx.of_spends_nothing hs)
  | case4 => rfl
  | case5 a ending place closed stack text x _ _ _ _ rest _ ih =>
    subst hp
    exact balances_charge hdocument hx fun y hs hy => ih y ha hb rfl hc hy
  | case6 =>
    subst hp
    exact balances_charge hdocument hx fun y hs hy => rfl
  | case7 a ending place closed stack text x _ r rest h ih ihp =>
    subst hp hc
    have hlt := length_scanContent_lt h
    have hle := hb.le_sizeTo text rest
    rw [Account.charge_document hx]
    have hy := hx.add_document (a.sizeTo text rest)
    have hrest := ih (x.add .document (a.sizeTo text rest)) ha hb rfl rfl (hy.mono (Nat.zero_le _))
    cases r with
    | character code =>
      dsimp only [bind, Except.bind]
      split
      · exact hrest
      · rfl
    | entity name =>
      dsimp only [bind, Except.bind]
      split
      · -- The reference has more bytes than the character.
        refine ihp _ ha hb rfl rfl ?_
        exact Account.IsBalanced.of_spends (hy.mono (by omega)) (Account.spends_add_entity _ 1)
      · split
        · rename_i hl
          cases hl
        · exact hrest
        · rfl
        · split
          · rfl
          · exact hrest
  | case8 a ending place closed stack text x _ tag rest h ih ihs =>
    subst hp hc
    have hle := valueLength_le_sizeTo ha hb h
    have hagain : (if tag.isEmpty then none else some Place.document) ≠ some .entity := by
      split <;> simp
    rw [Account.charge_document hx]
    have hy := hx.add_document (a.sizeTo text rest)
    refine (meterAttributes_balances hagain (hy.mono (by omega))).bind fun z hs => ?_
    have hz : z.IsBalanced 0 := Account.IsBalanced.of_spends (hy.mono (by omega)) hs
    split
    · split
      · exact hz
      · exact ih z ha hb rfl rfl hz
    · exact ihs z ha hb rfl rfl hz
  | case9 a ending place closed stack text x _ name nameAt rest h ih =>
    subst hp
    refine balances_charge hdocument hx fun y hs hy => ?_
    cases stack with
    | nil => rfl
    | cons element stack =>
      dsimp only
      split
      · split
        · exact hy
        · exact ih y stack ha hb rfl hc hy
      · rfl

/-! ## Around the root element -/

namespace Prolog

theorem skipBlanks_suffix (ending : Ending) (s : List Char) : skipBlanks ending s <:+ s := by
  unfold skipBlanks
  split
  · rename_i h
    exact List.singleton_suffix_iff_getLast?_eq_some.2 h.2.1
  · exact List.dropWhile_suffix isSpace

theorem Scanned.tokenEnd_suffix (scanned : Scanned) (ending : Ending) :
    scanned.tokenEnd ending <:+ scanned.rest := by
  unfold tokenEnd
  split
  · exact skipBlanks_suffix ending scanned.rest
  · exact List.suffix_rfl

/-- Without a document type, a token before the root element leaves everything as it is, or is out
of place. -/
theorem Stage.eq_of_next_opening {d' : Declarations} {stage : Stage} {text rest : List Char}
    {t : Token} (h : Leads a text t rest) (hd : ¬ "<!DOCTYPE".toList <:+: text)
    (hn : Stage.opening.next a d t text = .ok (stage, d')) :
    stage = .opening ∧ d' = d ∧ rest <:+ text := by
  have hmisplaced : ¬ t.IsMisplaced := by
    intro ht
    obtain ⟨f, hf⟩ := Stage.next_opening_of_isMisplaced (a := a) (d := d) ht text
    cases hf.symm.trans hn
  cases h with
  | item hw ht =>
    obtain ⟨rfl, rfl⟩ := Prod.mk.inj (Except.ok.inj
      ((Stage.next_opening_of_isMisc ht _).symm.trans hn))
    exact ⟨rfl, rfl, List.suffix_append _ _⟩
  | declaration keyword rest =>
    refine absurd (Or.inr (Or.inr ⟨keyword, rfl, ?_⟩)) hmisplaced
    rintro rfl
    exact hd ⟨[], rest, by simp⟩
  | xmlDeclaration => exact absurd (Or.inr (Or.inl rfl)) hmisplaced
  | root | truncated => cases hn
  | inner ht => exact absurd (Or.inl ht) hmisplaced

/-- **What stands before the root element makes no bytes** without a document type. -/
theorem meterProlog_balances (ha : a.Separates) {ending : Ending} {stage : Stage}
    (hstage : stage = .opening) {text : List Char} (hd : ¬ "<!DOCTYPE".toList <:+: text)
    (hx : x.IsBalanced 0) :
    Balances (fun (d', y, _) => d' = d ∧ y.IsBalanced 0) (meterProlog a ending stage d text x) := by
  fun_induction meterProlog a ending stage d text x with
  | case1 | case2 => rfl
  | case3 => exact ⟨rfl, hx⟩
  | case4 ending stage d text x _ scanned hs _ ih =>
    subst hstage
    simp only [dite_eq_ite] at ih
    refine balances_charge (by simp) hx fun y _ hy => ?_
    dsimp only [meterDefault, bind, Except.bind]
    split
    · rfl
    · rename_i stage' d' hn
      obtain ⟨rfl, rfl, hrest⟩ := Stage.eq_of_next_opening (leads_of_scan ha hs) hd hn
      -- The stage is the first one still, and what is left holds no document type either.
      have hend := (scanned.tokenEnd_suffix ending).trans hrest
      exact ih y _ _ rfl (fun h => hd (h.trans hend.isInfix)) hy

/-- What stands after the root element makes no bytes. -/
theorem meterEpilog_balances {ending : Ending} {text : List Char} (hx : x.IsBalanced 0) :
    Balances (fun _ => True) (meterEpilog a ending text x) := by
  fun_induction meterEpilog a ending text x with
  | case1 => trivial
  | case2 =>
    rw [Account.charge_document hx]
    trivial
  | case3 | case4 => rfl
  | case5 text x _ _ scanned _ _ ih =>
    refine balances_charge (by simp) hx fun y _ hy => ?_
    split
    · exact ih y hy
    · exact ih y hy
    · exact ih y hy
    · rfl

end Prolog

/-! ## Documents -/

namespace Source

variable {s : Source} {standalone : Bool}

/-- The limit is not reached if nothing makes bytes up to the root element, and no entity is
declared. -/
theorem limit?_eq_none_of_balances (ha : s.alphabet.Separates) (hb : s.alphabet.TakesBytes)
    (h : Balances (fun (d, x, _) => d.entities = [] ∧ x.IsBalanced 0)
      (Prolog.meterProlog s.alphabet s.ending .opening { standalone } s.body
        ⟨s.alphabet.sizeTo s.shown s.body, 0⟩)) : s.limit? standalone = none := by
  have hm : Balances (fun _ => True) (s.meter standalone) := by
    refine h.bind fun (d, x, text) ⟨hd, hx⟩ => ?_
    refine (meterContent_balances ha hb rfl hd hx).bind fun (y, rest) hy => ?_
    exact Prolog.meterEpilog_balances hy
  rw [limit?]
  cases hs : s.meter standalone with
  | error i =>
    obtain rfl := hm.of_error hs
    rfl
  | ok x => rfl

/-- **A document without a document type does not reach the limit.** -/
theorem limit?_eq_none_of_not_infix (ha : s.alphabet.Separates) (hb : s.alphabet.TakesBytes)
    (hd : ¬ "<!DOCTYPE".toList <:+: s.body) : s.limit? standalone = none := by
  refine limit?_eq_none_of_balances ha hb ?_
  refine (Prolog.meterProlog_balances ha rfl hd (Nat.zero_le _)).mono (fun _ h => h) ?_
  rintro ⟨d, x, text⟩ ⟨rfl, hx⟩
  exact ⟨rfl, hx⟩

end Source

end FxmlWiring.Markup
