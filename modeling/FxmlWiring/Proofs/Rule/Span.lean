import FxmlWiring.Proofs.Rule.Declaration
import FxmlWiring.Proofs.Text.Span

/-! # Which declaration a search finds

A search tries the places of a text from left to right, and at each place the fronts of every piece
from the longest to the shortest. So it finds a leftmost declaration. Where this declaration ends is
plain for a generic field: its type arguments are any text, so the bracket that closes them is the
last one in the whole text behind which the declaration can end (`ReachesLast`). What is behind that
bracket has one end only, and a later bracket gives a later end (`KeepsOrder`). Main statement:
`Rule.find?_is_leftmost`. -/

namespace FxmlWiring

open Text

namespace Piece

variable {ps qs : List Piece} {s t rest : List Char}

/-! ## What the pieces leave of a text -/

/-- A word of the pieces stands at the front of the text, and the rest is behind it. -/
def Leaves (ps : List Piece) (s rest : List Char) : Prop :=
  ∃ u, s = u ++ rest ∧ AreWords ps u

theorem Leaves.isSuffix (h : Leaves ps s rest) : rest <:+ s := by
  obtain ⟨u, rfl, -⟩ := h
  exact List.suffix_append u rest

/-- Pieces fit wherever they leave anything. -/
theorem Leaves.isSome (h : Leaves ps s rest) : (fit ps s).isSome := by
  obtain ⟨u, rfl, hu⟩ := h
  exact isSome_fit hu rest

theorem leaves_cons_iff {q : Piece} :
    Leaves (q :: ps) s rest ↔ ∃ u v, s = u ++ v ∧ q.IsWord u ∧ Leaves ps v rest := by
  constructor
  · rintro ⟨_, rfl, u, w, rfl, hu, hw⟩
    exact ⟨u, w ++ rest, List.append_assoc u w rest, hu, w, rfl, hw⟩
  · rintro ⟨u, _, rfl, hu, w, rfl, hw⟩
    exact ⟨u ++ w, (List.append_assoc u w rest).symm, u, w, rfl, hu, hw⟩

theorem leaves_append_iff :
    Leaves (ps ++ qs) s rest ↔ ∃ v, Leaves ps s v ∧ Leaves qs v rest := by
  constructor
  · rintro ⟨w, rfl, hw⟩
    obtain ⟨u, v, rfl, hu, hv⟩ := (areWords_append ps qs w).1 hw
    exact ⟨v ++ rest, ⟨u, List.append_assoc u v rest, hu⟩, v, rfl, hv⟩
  · rintro ⟨_, ⟨u, rfl, hu⟩, v, rfl, hv⟩
    exact ⟨u ++ v, (List.append_assoc u v rest).symm, (areWords_append ps qs _).2
      ⟨u, v, rfl, hu, hv⟩⟩

/-! ## Words that end in the order in which they begin -/

/-- In every text, a word of the pieces that begins later ends no earlier. In particular there is
one end for each beginning. -/
def KeepsOrder (ps : List Piece) : Prop :=
  ∀ ⦃s t rest rest' : List Char⦄, t <:+ s → Leaves ps s rest → Leaves ps t rest' → rest' <:+ rest

theorem KeepsOrder.append (hp : KeepsOrder ps) (hq : KeepsOrder qs) : KeepsOrder (ps ++ qs) := by
  intro s t rest rest' ht hs ht'
  obtain ⟨v, hv, hr⟩ := leaves_append_iff.1 hs
  obtain ⟨v', hv', hr'⟩ := leaves_append_iff.1 ht'
  exact hq (hp ht hv hv') hr hr'

/-- Words that are one text which begins solid, with blanks in front of it, end in order. -/
theorem keepsOrder_of_blanks {c : Char} {w : List Char} (hc : isBlank c = false)
    (h : ∀ u, AreWords ps u → ∃ g, u = g ++ c :: w ∧ ∀ d ∈ g, isBlank d = true) :
    KeepsOrder ps := by
  -- Without its leading blanks, a text with such a word at its front is `c :: w` and the rest.
  have hdrop {s rest : List Char} (hs : Leaves ps s rest) :
      s.dropWhile isBlank = c :: w ++ rest := by
    obtain ⟨u, rfl, hu⟩ := hs
    obtain ⟨g, rfl, hg⟩ := h u hu
    rw [List.append_assoc]
    exact dropWhile_append hg (stopsAt_cons.2 hc)
  intro s t rest rest' ht hs ht'
  have hle := (dropWhile_isSuffix (p := isBlank) ht).length_le
  rw [hdrop hs, hdrop ht', List.length_append, List.length_append] at hle
  exact List.suffix_of_suffix_length_le (ht'.isSuffix.trans ht) hs.isSuffix (by omega)

/-- A text that begins solid, behind optional blanks. -/
theorem keepsOrder_optionalGap {c : Char} (hc : isBlank c = false) (w : List Char) :
    KeepsOrder [optionalGap, literal (c :: w)] := by
  refine keepsOrder_of_blanks (w := w) hc ?_
  rintro _ ⟨g, _, rfl, hg, _, _, rfl, rfl, rfl⟩
  exact ⟨g, by rw [List.append_nil], hg⟩

/-- A name behind a gap, then a text that begins solid behind optional blanks. The name may be any
text, blanks too. -/
theorem keepsOrder_name (name : List Char) {c : Char} (hc : isBlank c = false) (w : List Char) :
    KeepsOrder [gap, literal name, optionalGap, literal (c :: w)] := by
  obtain ⟨b, hb, hblank⟩ := exists_append_dropWhile isBlank name
  have hstop : StopsAt isBlank (name.dropWhile isBlank) := stopsAt_dropWhile name
  cases hd : name.dropWhile isBlank with
  | nil =>
    -- A blank name, and all that is in front of the text is blank.
    rw [hd, List.append_nil] at hb
    refine keepsOrder_of_blanks (w := w) hc ?_
    rintro _ ⟨g, _, rfl, ⟨-, hg⟩, _, _, rfl, rfl, g', _, rfl, hg', _, _, rfl, rfl, rfl⟩
    refine ⟨g ++ (b ++ g'), by simp [hb], ?_⟩
    simp only [List.mem_append]
    rintro d (h | h | h)
    · exact hg d h
    · exact hblank d h
    · exact hg' d h
  | cons d name' =>
    -- The name has a first character that is not blank, so its place is settled by the gap.
    rw [hd, stopsAt_cons] at hstop
    rw [hd] at hb
    have hname : KeepsOrder [gap, literal name] := by
      refine keepsOrder_of_blanks (w := name') hstop ?_
      rintro _ ⟨g, _, rfl, ⟨-, hg⟩, _, _, rfl, rfl, rfl⟩
      refine ⟨g ++ b, by simp [← hb], ?_⟩
      simp only [List.mem_append]
      rintro e (h | h)
      · exact hg e h
      · exact hblank e h
    exact hname.append (keepsOrder_optionalGap hc w)

/-! ## Pieces that reach as far as any word -/

/-- Wherever in a text the pieces fit, no word of them in this text ends further right than what
they take. -/
def ReachesLast (ps : List Piece) : Prop :=
  ∀ ⦃z s t rest rest' : List Char⦄, s <:+ z → t <:+ z → fit ps s = some rest →
    Leaves ps t rest' → rest.length ≤ rest'.length

/-- A filler goes on to the last place from which the pieces behind it fit. -/
theorem KeepsOrder.reachesLast (h : KeepsOrder ps) : ReachesLast (filler :: ps) := by
  intro z s t rest rest' hs ht hf hl
  obtain ⟨u, v, rfl, -, -, hv, hmax⟩ := exists_of_longestSome hf
  obtain ⟨u', v', rfl, hne, hl'⟩ := leaves_cons_iff.1 hl
  have hvz : v <:+ z := (List.suffix_append u v).trans hs
  have hvz' : v' <:+ z := (List.suffix_append u' v').trans ht
  -- The pieces behind the filler fit at `v'`, so `v` is not before it.
  have hle : v.length ≤ v'.length := by
    by_contra hlt
    obtain ⟨x, rfl⟩ := List.suffix_of_suffix_length_le hvz' hvz (by omega)
    have hux := hmax (u ++ x) v' (List.append_assoc u x v').symm (by simp) hl'.isSome
    rw [List.length_append] at hux hlt
    omega
  exact (h (List.suffix_of_suffix_length_le hvz hvz' hle) hl' (exists_of_fit hv)).length_le

/-- Whatever stands in front of the pieces, what it takes does not matter. -/
theorem ReachesLast.append_left (h : ReachesLast ps) (qs : List Piece) :
    ReachesLast (qs ++ ps) := by
  induction qs with
  | nil => exact h
  | cons q qs ih =>
    intro z s t rest rest' hs ht hf hl
    obtain ⟨u, v, rfl, -, hv⟩ := exists_of_fit_cons hf
    obtain ⟨u', v', rfl, -, hl'⟩ := leaves_cons_iff.1 hl
    exact ih ((List.suffix_append u v).trans hs) ((List.suffix_append u' v').trans ht) hv hl'

/-! ## The first place -/

/-- A word of the pieces stands in the text from the one offset up to the other. -/
def StandsAt (ps : List Piece) (s : List Char) (start stop : Nat) : Prop :=
  ∃ before word after, s = before ++ (word ++ after) ∧ start = before.length ∧
    stop = start + word.length ∧ AreWords ps word

/-- A search finds nothing exactly if no word stands anywhere. -/
theorem find?_eq_none_iff :
    find? ps 0 s = none ↔ ∀ start stop, ¬ StandsAt ps s start stop := by
  rw [← Option.not_isSome_iff_eq_none, isSome_find?_iff, not_exists]
  constructor
  · rintro h _ _ ⟨before, word, after, he, rfl, rfl, hw⟩
    exact h word ⟨hw, before, after, by rw [he, List.append_assoc]⟩
  · rintro h word ⟨hw, before, after, he⟩
    exact h _ _ ⟨before, word, after, by rw [← he, List.append_assoc], rfl, rfl, hw⟩

/-- A search answers with the first place at which the pieces fit, and with what they take there. -/
theorem exists_of_find? {offset start stop : Nat} (h : find? ps offset s = some (start, stop)) :
    ∃ a v rest, s = a ++ v ∧ fit ps v = some rest ∧ start = offset + a.length ∧
      stop + rest.length = start + v.length ∧
      ∀ b t, s = b ++ t → (fit ps t).isSome → a.length ≤ b.length := by
  induction s generalizing offset with
  | nil =>
    rw [find?] at h
    split at h
    · rename_i rest hf
      obtain ⟨rfl, rfl⟩ := Prod.mk.inj (Option.some.inj h)
      obtain ⟨u, hu, -⟩ := exists_of_fit hf
      obtain ⟨rfl, rfl⟩ := List.append_eq_nil_iff.1 hu.symm
      exact ⟨[], [], [], rfl, hf, rfl, rfl, fun b t _ _ => Nat.zero_le b.length⟩
    · cases h
  | cons c s ih =>
    rw [find?] at h
    split at h
    · rename_i rest hf
      obtain ⟨rfl, rfl⟩ := Prod.mk.inj (Option.some.inj h)
      obtain ⟨u, hu, -⟩ := exists_of_fit hf
      refine ⟨[], c :: s, rest, rfl, hf, rfl, ?_, fun b t _ _ => Nat.zero_le b.length⟩
      rw [hu, List.length_append]
      omega
    · -- The pieces do not fit at `c`, so the first place is in `s`.
      rename_i hf
      obtain ⟨a, v, rest, rfl, hv, rfl, hstop, hfirst⟩ := ih h
      refine ⟨c :: a, v, rest, rfl, hv, by rw [List.length_cons]; omega, hstop, ?_⟩
      intro b t hb ht
      cases b with
      | nil =>
        rw [List.nil_append] at hb
        rw [← hb, hf] at ht
        cases ht
      | cons d b => exact Nat.succ_le_succ (hfirst b t (List.cons.inj hb).2 ht)

/-- **A search finds a leftmost word.** -/
theorem standsAt_of_find? {start stop : Nat} (h : find? ps 0 s = some (start, stop)) :
    StandsAt ps s start stop ∧ ∀ start' stop', StandsAt ps s start' stop' → start ≤ start' := by
  obtain ⟨a, v, rest, rfl, hf, rfl, hstop, hfirst⟩ := exists_of_find? h
  obtain ⟨u, rfl, hu⟩ := exists_of_fit hf
  rw [Nat.zero_add, List.length_append] at hstop
  rw [Nat.zero_add]
  refine ⟨⟨a, u, rest, rfl, rfl, by omega, hu⟩, ?_⟩
  rintro _ _ ⟨before, word, after, he, rfl, rfl, hw⟩
  exact hfirst before (word ++ after) he (isSome_fit hw after)

/-- What reaches last is not exceeded by any word in the text. -/
theorem ReachesLast.stop_le (hr : ReachesLast ps) {start stop start' stop' : Nat}
    (h : find? ps 0 s = some (start, stop)) (h' : StandsAt ps s start' stop') : stop' ≤ stop := by
  obtain ⟨a, v, rest, rfl, hf, rfl, hstop, -⟩ := exists_of_find? h
  obtain ⟨before, word, after, he, rfl, rfl, hw⟩ := h'
  -- Both words are compared by what is left of the text behind them.
  have hle : rest.length ≤ after.length :=
    hr (List.suffix_append a v) (he ▸ List.suffix_append before (word ++ after)) hf ⟨word, rfl, hw⟩
  have hlen := congrArg List.length he
  simp only [List.length_append] at hlen
  omega

end Piece

/-! ## Rules -/

namespace Rule

variable {s : Settings} {r : Requirement} {rule : Rule}

/-- A declaration that the rule accepts stands in the text from the one offset up to the other. -/
def DeclaredAt (rule : Rule) (s : Settings) (r : Requirement) (source : String)
    (start stop : Nat) : Prop :=
  ∃ before word after, source.toList = before ++ word ++ after ∧ start = before.length ∧
    stop = start + word.length ∧ word ∈ r.declarations s rule

/-- The rules whose declarations hold type arguments. -/
def genericRules : List Rule :=
  [annotatedGenericField, publicGenericField]

/-- A generic rule reaches as far as any of its declarations. -/
theorem reachesLast_of_mem_genericRules (hr : rule ∈ r.rules) (hg : rule ∈ genericRules)
    {ps : List Piece} (hp : rule.pieces s r = .ok ps) : Piece.ReachesLast ps := by
  cases r with
  | handler identifier =>
    have hn : ∀ rule ∈ genericRules, rule ∉ handlerRules := by decide
    exact absurd hr (hn rule hg)
  | field type identifier =>
    -- Behind the filler stand the closing bracket and the end of a field declaration.
    have hclose : Piece.KeepsOrder [.optionalGap, .literal ['>']] :=
      Piece.keepsOrder_optionalGap (by decide) []
    have hend : Piece.KeepsOrder
        [.gap, .literal identifier.toList, .optionalGap, .literal [';']] :=
      Piece.keepsOrder_name identifier.toList (by decide) []
    have hlast := (hclose.append hend).reachesLast
    have hg : rule = annotatedGenericField ∨ rule = publicGenericField := by
      simpa [genericRules] using hg
    rcases hg with rfl | rfl
    · obtain rfl := Except.ok.inj hp
      exact hlast.append_left [.literal s.binding.toList, .gap, .access, .literal type.toList,
        .optionalGap, .literal ['<'], .optionalGap]
    · obtain rfl := Except.ok.inj hp
      exact hlast.append_left [.literal "public".toList, .gap, .literal type.toList,
        .optionalGap, .literal ['<'], .optionalGap]

/-- **A search finds the leftmost declaration.** It finds nothing exactly if no declaration that the
rule accepts stands in the text. Otherwise a declaration stands where the search says, and none
begins further left. For the generic rules no declaration in the text ends further right either, no
matter where it begins; in particular none with the same beginning does. -/
theorem find?_is_leftmost (hr : rule ∈ r.rules) (source : String) :
    ∃ span, rule.find? s r source = .ok span ∧
      (span = none ↔ ∀ start stop, ¬ rule.DeclaredAt s r source start stop) ∧
      ∀ start stop, span = some (start, stop) →
        rule.DeclaredAt s r source start stop ∧
        (∀ start' stop', rule.DeclaredAt s r source start' stop' → start ≤ start') ∧
        (rule ∈ genericRules →
          ∀ start' stop', rule.DeclaredAt s r source start' stop' → stop' ≤ stop) := by
  obtain ⟨ps, hp, hl⟩ := exists_pieces s hr
  have hat {start stop : Nat} :
      rule.DeclaredAt s r source start stop ↔ Piece.StandsAt ps source.toList start stop := by
    simp only [DeclaredAt, Piece.StandsAt, ← hl, ← Piece.areWords_iff_mem_prod, List.append_assoc]
  refine ⟨Piece.find? ps 0 source.toList, by rw [find?, hp]; rfl, ?_, fun start stop hs => ?_⟩
  · simp only [hat]
    exact Piece.find?_eq_none_iff
  · simp only [hat]
    obtain ⟨hstands, hleft⟩ := Piece.standsAt_of_find? hs
    refine ⟨hstands, hleft, fun hg start' stop' h => ?_⟩
    exact (reachesLast_of_mem_genericRules hr hg hp).stop_le hs h

/-- Two lists of one name: the search takes them for one declaration, from the first type to the
last semicolon. -/
def twoLists : String :=
  "int a;\npublic List<A> xs; public List<B> xs ;"

theorem twoLists_are_found_as_one :
    publicGenericField ∈ (Requirement.field "List" "xs").rules ∧
      publicGenericField.DeclaredAt .standard (.field "List" "xs") twoLists 7 45 ∧
      ∀ start stop,
        publicGenericField.DeclaredAt .standard (.field "List" "xs") twoLists start stop →
          7 ≤ start ∧ stop ≤ 45 := by
  have hr : publicGenericField ∈ (Requirement.field "List" "xs").rules := by decide
  have hs : publicGenericField.find? .standard (.field "List" "xs") twoLists =
      .ok (some (7, 45)) := by decide +kernel
  obtain ⟨span, hf, -, h⟩ := find?_is_leftmost (s := .standard) hr twoLists
  obtain rfl : some (7, 45) = span := Except.ok.inj (hs.symm.trans hf)
  obtain ⟨hd, hleft, hright⟩ := h 7 45 rfl
  exact ⟨hr, hd, fun start stop hd' =>
    ⟨hleft start stop hd', hright (by decide) start stop hd'⟩⟩

end Rule

end FxmlWiring
