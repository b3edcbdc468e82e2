import FxmlWiring.Proofs.Markup.Content
import FxmlWiring.Proofs.Markup.Grammar

/-! # What scans recognize

A scan finds a token exactly if the text starts with the token as the grammar spells it, whatever
stands behind (`Reference.scan_eq_ok_iff`, `scanInstruction_eq_ok_iff` and so on). The alphabet of
the document says which words are names; whether a reference stands for something is not looked at
yet. -/

namespace FxmlWiring.Markup

open Text

/-- The dialect of the scans: names are those of the alphabet, and every reference may be made. -/
def Alphabet.dialect (a : Alphabet) : Dialect :=
  ⟨a.IsName, fun _ => True⟩

variable {a : Alphabet}

/-! ## Names -/

/-- What is scanned as a name is one. -/
theorem isName_of_scanName {s n rest : List Char} (h : scanName a s = .ok (n, rest)) :
    a.IsName n ∧ s = n ++ rest := by
  refine ⟨?_, (append_of_scanName h).symm⟩
  unfold scanName at h
  split at h
  · cases h
  · rename_i c s
    split at h
    · rename_i hc
      obtain ⟨rfl, -⟩ := Prod.mk.inj (Except.ok.inj h)
      exact ⟨c, _, rfl, hc, fun d hd => List.mem_takeWhile_imp hd⟩
    · cases h

/-! ## Comments, instructions and `CDATA` sections -/

/-- Nothing is illegal in an empty text. -/
theorem AreLegal.nil : AreLegal [] :=
  List.forall_mem_nil _

/-- A character is legal, and so is the rest of the text. -/
theorem AreLegal.cons_iff {c : Char} {s : List Char} :
    AreLegal (c :: s) ↔ isLegal c = true ∧ AreLegal s :=
  List.forall_mem_cons

/-- **The text of a comment** is found up to the first `-->`. -/
theorem scanCommentText_eq_ok_iff {s rest : List Char} :
    scanCommentText s = .ok rest ↔ ∃ u, IsCommentText u ∧ s = u ++ '-' :: '-' :: '>' :: rest := by
  constructor
  · intro h
    fun_induction scanCommentText s with
    | case1 => cases h
    | case2 s =>
      obtain rfl := Except.ok.inj h
      exact ⟨[], ⟨.nil, by simp, by simp⟩, rfl⟩
    | case3 => cases h
    | case4 => cases h
    | case5 c s _ _ hhyphens hc ih =>
      obtain ⟨u, hu, rfl⟩ := ih h
      refine ⟨c :: u, ⟨AreLegal.cons_iff.2 ⟨hc, hu.areLegal⟩, fun hd => ?_, fun hl => ?_⟩, rfl⟩
      · -- Another hyphen behind this one would have been seen.
        rcases List.infix_cons_iff.1 hd with ⟨t, ht⟩ | hd
        · obtain ⟨rfl, rfl⟩ := List.cons.inj ht
          exact hhyphens _ rfl rfl
        · exact hu.noHyphens hd
      · cases u with
        | nil =>
          obtain rfl : c = '-' := Option.some.inj hl
          exact hhyphens _ rfl rfl
        | cons d u => exact hu.noLastHyphen (by rwa [List.getLast?_cons_cons] at hl)
    | case6 => cases h
  · rintro ⟨u, hu, rfl⟩
    exact scanCommentText_append hu.areLegal hu.noHyphens hu.noLastHyphen rest

/-- A comment follows `<!-`. -/
theorem scanComment_eq_ok_iff {s rest : List Char} :
    scanComment s = .ok rest ↔ ∃ w, IsComment w ∧ '<' :: '!' :: '-' :: s = w ++ rest := by
  have hw : ∀ u, "<!--".toList ++ u ++ "-->".toList ++ rest =
      '<' :: '!' :: '-' :: '-' :: (u ++ '-' :: '-' :: '>' :: rest) := by simp
  constructor
  · intro h
    unfold scanComment at h
    split at h
    · cases h
    · obtain ⟨u, hu, rfl⟩ := scanCommentText_eq_ok_iff.1 h
      exact ⟨_, ⟨u, hu, rfl⟩, (hw u).symm⟩
    · cases h
  · rintro ⟨w, ⟨u, hu, rfl⟩, hs⟩
    rw [hw] at hs
    obtain rfl : s = '-' :: (u ++ '-' :: '-' :: '>' :: rest) := by simpa using hs
    exact scanCommentText_eq_ok_iff.2 ⟨u, hu, rfl⟩

/-- The text of an instruction is found up to the first `?>`. -/
theorem scanInstructionText_eq_ok_iff {s rest : List Char} :
    scanInstructionText s = .ok rest ↔
      ∃ u, AreLegal u ∧ ¬ ['?', '>'] <:+: u ∧ s = u ++ '?' :: '>' :: rest := by
  constructor
  · intro h
    fun_induction scanInstructionText s with
    | case1 => cases h
    | case2 s =>
      obtain rfl := Except.ok.inj h
      exact ⟨[], .nil, by simp, rfl⟩
    | case3 c s hclosing hc ih =>
      obtain ⟨u, hu, hq, rfl⟩ := ih h
      refine ⟨c :: u, AreLegal.cons_iff.2 ⟨hc, hu⟩, fun hd => ?_, rfl⟩
      rcases List.infix_cons_iff.1 hd with ⟨t, ht⟩ | hd
      · obtain ⟨rfl, rfl⟩ := List.cons.inj ht
        exact hclosing _ rfl rfl
      · exact hq hd
    | case4 => cases h
  · rintro ⟨u, hu, hq, rfl⟩
    induction u with
    | nil => rfl
    | cons c u ih =>
      obtain ⟨hc, hu⟩ := AreLegal.cons_iff.1 hu
      have ih := ih hu fun h => hq (h.trans (List.suffix_cons c u).isInfix)
      -- A closing that started here would lie inside the text.
      rw [List.cons_append, scanInstructionText, if_pos hc, ih]
      rintro t rfl ht
      cases u with
      | nil => cases (List.cons.inj ht).1
      | cons d u =>
        obtain rfl := (List.cons.inj ht).1
        exact hq ⟨[], u, rfl⟩

/-- **An instruction** follows `<?`: a target and a text up to the first `?>`. In lower case the
name of the XML declaration is a target, too. -/
theorem scanInstruction_eq_ok_iff (ha : a.Separates) {s target rest : List Char} :
    scanInstruction a s = .ok (target, rest) ↔ ∃ u, a.IsName target ∧
      (isXmlTarget target = true → target = ['x', 'm', 'l']) ∧ IsInstructionText u ∧
      s = target ++ (u ++ '?' :: '>' :: rest) := by
  constructor
  · intro h
    unfold scanInstruction at h
    split at h
    · cases h
    · cases h
    · rename_i n c r hn
      obtain ⟨hname, rfl⟩ := isName_of_scanName hn
      split at h
      · cases h
      · rename_i hx
        split at h
        · rename_i hc
          cases ht : scanInstructionText r with
          | error e =>
            rw [ht] at h
            cases h
          | ok r' =>
            obtain ⟨u, hu, hq, rfl⟩ := scanInstructionText_eq_ok_iff.1 ht
            rw [ht] at h
            obtain ⟨rfl, rfl⟩ := Prod.mk.inj (Except.ok.inj h)
            refine ⟨c :: u, hname, by tauto, ⟨?_, ?_, by simpa using hc⟩, rfl⟩
            · exact AreLegal.cons_iff.2 ⟨isLegal_of_isSpace hc, hu⟩
            · rw [List.infix_cons_iff]
              rintro (⟨t, ht⟩ | hd)
              · obtain rfl : '?' = c := (List.cons.inj ht).1
                exact absurd hc (by decide)
              · exact hq hd
        · split at h
          · rename_i hc
            subst hc
            split at h
            · obtain ⟨rfl, rfl⟩ := Prod.mk.inj (Except.ok.inj h)
              exact ⟨[], hname, by tauto, ⟨.nil, by simp, by simp⟩, rfl⟩
            · cases h
            · cases h
          · cases h
  · rintro ⟨u, hname, hx, hu, rfl⟩
    -- Behind the target stands the closing, or a blank.
    cases u with
    | nil =>
      have hn := scanName_append_cons ha hname (c := '?') (by decide) ('>' :: rest)
      have hx' : ¬ ((isSpace '?' = true ∨ '?' = '?') ∧ isXmlTarget target = true ∧
          target ≠ ['x', 'm', 'l']) := fun h => h.2.2 (hx h.2.1)
      rw [List.nil_append, scanInstruction, hn]
      dsimp only
      rw [if_neg hx', if_neg (by decide), if_pos rfl]
      rfl
    | cons c u =>
      have hc : isSpace c = true := hu.startsBlank c rfl
      have hn := scanName_append_cons ha hname (Alphabet.mem_signs_of_isSpace hc)
        (u ++ '?' :: '>' :: rest)
      have ht : scanInstructionText (u ++ '?' :: '>' :: rest) = .ok rest := by
        refine scanInstructionText_eq_ok_iff.2 ⟨u, (AreLegal.cons_iff.1 hu.areLegal).2, ?_, rfl⟩
        exact fun h => hu.noClosing (h.trans (List.suffix_cons c u).isInfix)
      have hx' : ¬ ((isSpace c = true ∨ c = '?') ∧ isXmlTarget target = true ∧
          target ≠ ['x', 'm', 'l']) := fun h => h.2.2 (hx h.2.1)
      rw [List.cons_append, scanInstruction, hn]
      simp only [if_neg hx', if_pos hc, ht]
      rfl

/-- **The text of a `CDATA` section** is found up to the first `]]>`. -/
theorem readCdata_eq_ok_iff {ending : Ending} {s rest : List Char} :
    readCdata ending s = .ok rest ↔ ∃ u, IsCdataText u ∧ s = u ++ ']' :: ']' :: '>' :: rest := by
  constructor
  · intro h
    fun_induction readCdata ending s with
    | case1 => cases h
    | case2 s =>
      obtain rfl := Except.ok.inj h
      exact ⟨[], ⟨.nil, by simp⟩, rfl⟩
    | case3 => cases h
    | case4 c s hclosing _ hc ih =>
      obtain ⟨u, hu, rfl⟩ := ih h
      refine ⟨c :: u, ⟨AreLegal.cons_iff.2 ⟨hc, hu.areLegal⟩, fun hd => ?_⟩, rfl⟩
      rcases List.infix_cons_iff.1 hd with ⟨t, ht⟩ | hd
      · obtain ⟨rfl, rfl⟩ := List.cons.inj ht
        exact hclosing _ rfl rfl
      · exact hu.noClosing hd
    | case5 => cases h
  · rintro ⟨u, hu, rfl⟩
    exact readCdata_append ending hu.areLegal hu.noClosing rest

/-- The opening of a `CDATA` section is found if every character takes a code unit. -/
theorem scanCdataStart_eq_ok_iff (hu : ∀ c, 0 < a.units c) {ending : Ending} {s rest : List Char} :
    scanCdataStart a ending s = .ok rest ↔ s = "CDATA[".toList ++ rest := by
  have hexpect : ∀ w s : List Char,
      scanCdataStart.expect w s = .ok rest ↔ s = w ++ rest := by
    intro w s
    fun_induction scanCdataStart.expect w s with
    | case1 s => simp
    | case2 ws c s ih => simpa using ih
    | case3 w ws c s hc => simp [Ne.symm hc]
    | case4 => simp
  constructor
  · intro h
    unfold scanCdataStart at h
    split at h
    · cases h
    · exact (hexpect _ _).1 h
  · rintro rfl
    have hunits : ¬ ("CDATA[".toList ++ rest).foldr (a.units · + ·) ending.units < 6 := by
      have hC := hu 'C'
      have hD := hu 'D'
      have hA := hu 'A'
      have hT := hu 'T'
      have hbracket := hu '['
      change ¬ a.units 'C' + (a.units 'D' + (a.units 'A' + (a.units 'T' + (a.units 'A' +
        (a.units '[' + rest.foldr (a.units · + ·) ending.units))))) < 6
      omega
    rw [scanCdataStart, if_neg hunits]
    exact (hexpect _ _).2 rfl

/-! ## References -/

namespace Reference

/-- **A reference** follows the ampersand, up to its semicolon. -/
theorem scan_eq_ok_iff (ha : a.Separates) {s rest : List Char} {r : Reference} :
    scan a s = .ok (r, rest) ↔ ∃ w, a.dialect.Spells w r ∧ '&' :: s = w ++ rest := by
  have hnumber : ∀ {base : Nat} {isDigit : Char → Bool} {s : List Char},
      scanNumber base isDigit s = .ok (r, rest) → ∃ digits, digits ≠ [] ∧
        (∀ c ∈ digits, isDigit c = true) ∧ s = digits ++ ';' :: rest ∧
        r = .character (value base digits) := by
    intro base isDigit s h
    unfold scanNumber at h
    split at h
    · cases h
    · rename_i c s
      split at h
      · rename_i hc
        split at h
        · rename_i rest' hd
          obtain ⟨rfl, rfl⟩ := Prod.mk.inj (Except.ok.inj h)
          refine ⟨c :: s.takeWhile isDigit, List.cons_ne_nil _ _, ?_, ?_, rfl⟩
          · rw [List.forall_mem_cons]
            exact ⟨hc, fun d hd => List.mem_takeWhile_imp hd⟩
          · rw [List.cons_append, ← hd, List.takeWhile_append_dropWhile]
        · cases h
        · cases h
      · cases h
  constructor
  · intro h
    unfold scan at h
    split at h
    · obtain ⟨digits, hne, hd, rfl, rfl⟩ := hnumber h
      exact ⟨_, .hexadecimal hne hd, by simp⟩
    · obtain ⟨digits, hne, hd, rfl, rfl⟩ := hnumber h
      exact ⟨_, .decimal hne hd, by simp⟩
    · split at h
      · cases h
      · rename_i hn
        obtain ⟨hname, rfl⟩ := isName_of_scanName hn
        obtain ⟨rfl, rfl⟩ := Prod.mk.inj (Except.ok.inj h)
        exact ⟨_, .entity hname, by simp⟩
      · cases h
      · cases h
  · rintro ⟨w, hw, hs⟩
    cases hw with
    | @entity name hn =>
      obtain rfl : s = name ++ ';' :: rest := by simpa using hs
      exact scan_entity ha hn rest
    | @decimal digits hne hd =>
      obtain rfl : s = '#' :: digits ++ ';' :: rest := by simpa using hs
      exact scan_decimal hne hd rest
    | @hexadecimal digits hne hd =>
      obtain rfl : s = '#' :: 'x' :: (digits ++ ';' :: rest) := by simpa using hs
      exact scanNumber_append 16 hne hd (by decide) rest

end Reference

/-! ## Values and attributes -/

/-- No quote stands in a reference. -/
theorem not_mem_of_spells (ha : a.Separates) {q : Char} (hq : q = '"' ∨ q = '\'') {w : List Char}
    {r : Reference} (hw : a.dialect.Spells w r) : q ∉ w := by
  have hsign : q ≠ '&' ∧ q ≠ '#' ∧ q ≠ 'x' ∧ q ≠ ';' ∧ q.isDigit = false ∧
      Reference.isHexDigit q = false := by
    rcases hq with rfl | rfl <;> decide
  obtain ⟨hamp, hnum, hx, hsemi, hdec, hhex⟩ := hsign
  have hnot : ∀ {p : Char → Bool} {s : List Char}, p q = false → (∀ c ∈ s, p c = true) → q ∉ s := by
    intro p s hp hs hm
    rw [hs q hm] at hp
    cases hp
  cases hw with
  | @entity name hn =>
    have hname : q ∉ name := by
      obtain ⟨c, t, rfl, hc, ht⟩ := hn
      refine hnot (ha.not_continues q (by rcases hq with rfl | rfl <;> decide)) ?_
      exact List.forall_mem_cons.2 ⟨ha.continues_of_starts c hc, ht⟩
    simp [hamp, hname, hsemi]
  | decimal _ hd => simp [hamp, hnum, hnot hdec hd, hsemi]
  | hexadecimal _ hd => simp [hamp, hnum, hx, hnot hhex hd, hsemi]

/-- No quote stands in a value. -/
theorem not_mem_of_isValue (ha : a.Separates) {q : Char} (hq : q = '"' ∨ q = '\'') {v : List Char}
    (hv : a.dialect.IsValue q v) : q ∉ v := by
  induction hv with
  | nil => exact List.not_mem_nil
  | character _ hc _ _ ih => exact List.not_mem_cons_of_ne_of_not_mem (Ne.symm hc) ih
  | reference hw _ ih =>
    obtain ⟨r, hr, -⟩ := hw
    exact List.not_mem_append (not_mem_of_spells ha hq hr) ih

/-- **The text between quotes** is found up to the first quote. -/
theorem valueHalt?_eq_none_iff (ha : a.Separates) {q : Char} (hq : q = '"' ∨ q = '\'')
    {s : List Char} :
    valueHalt? a q s = none ↔ ∃ v rest, a.dialect.IsValue q v ∧ s = v ++ q :: rest := by
  constructor
  · intro h
    fun_induction valueHalt? a q s with
    | case1 => cases h
    | case2 s => exact ⟨[], s, .nil, rfl⟩
    | case3 => cases h
    | case4 s r rest hr hne ih =>
      obtain ⟨v, rest, hv, rfl⟩ := ih h
      obtain ⟨w, hw, hs⟩ := (Reference.scan_eq_ok_iff ha).1 hr
      exact ⟨w ++ v, rest, .reference ⟨r, hw, trivial⟩ hv, by rw [hs, List.append_assoc]⟩
    | case5 => cases h
    | case6 c s hc hamp hm ih =>
      obtain ⟨v, rest, hv, rfl⟩ := ih h
      rw [not_or] at hm
      exact ⟨c :: v, rest, .character (by simpa using hm.2) hc ⟨hm.1, hamp⟩ hv, rfl⟩
  · rintro ⟨v, rest, hv, rfl⟩
    induction hv with
    | nil => rw [List.nil_append, valueHalt?, if_pos rfl]
    | character hc hne hm _ ih => rw [List.cons_append, valueHalt?_cons hne hm.2 hm.1 hc, ih]
    | @reference w s hw _ ih =>
      obtain ⟨r, hr, -⟩ := hw
      obtain ⟨t, rfl⟩ : ∃ t, w = '&' :: t := by cases hr <;> exact ⟨_, rfl⟩
      have hscan : Reference.scan a (t ++ (s ++ q :: rest)) = .ok (r, s ++ q :: rest) :=
        (Reference.scan_eq_ok_iff ha).2 ⟨_, hr, rfl⟩
      have hne : ¬ '&' = q := by rcases hq with rfl | rfl <;> decide
      rw [List.append_assoc, List.cons_append, valueHalt?, if_neg hne, if_pos rfl]
      split
      · rename_i h
        rw [hscan] at h
        cases h
      · rename_i h
        rw [hscan] at h
        obtain ⟨-, rfl⟩ := Prod.mk.inj (Except.ok.inj h)
        exact ih

/-- **A value in quotes.** The rest starts with the closing quote. -/
theorem scanQuoted_eq_ok_iff (ha : a.Separates) {s v rest : List Char} :
    scanQuoted a s = .ok (v, rest) ↔ ∃ q t, (q = '"' ∨ q = '\'') ∧ a.dialect.IsValue q v ∧
      s = q :: (v ++ rest) ∧ rest = q :: t := by
  -- No quote of the kind stands in a value, so the value ends with the first one.
  have htake : ∀ {q : Char} {v t : List Char}, (q = '"' ∨ q = '\'') → a.dialect.IsValue q v →
      (v ++ q :: t).takeWhile (fun c => decide (c ≠ q)) = v ∧
        (v ++ q :: t).dropWhile (fun c => decide (c ≠ q)) = q :: t := by
    intro q v t hq hv
    have hmem : ∀ c ∈ v, decide (c ≠ q) = true := by
      intro c hc
      refine decide_eq_true ?_
      rintro rfl
      exact not_mem_of_isValue ha hq hv hc
    have hstop : StopsAt (fun c => decide (c ≠ q)) (q :: t) := stopsAt_cons.2 (by simp)
    exact ⟨takeWhile_append hmem hstop, dropWhile_append hmem hstop⟩
  constructor
  · intro h
    unfold scanQuoted at h
    split at h
    · cases h
    · rename_i q s
      split at h
      · rename_i hq
        split at h
        · cases h
        · rename_i hn
          obtain ⟨u, t, hu, rfl⟩ := (valueHalt?_eq_none_iff ha hq).1 hn
          obtain ⟨htk, hdr⟩ := htake (t := t) hq hu
          rw [htk, hdr] at h
          obtain ⟨rfl, rfl⟩ := Prod.mk.inj (Except.ok.inj h)
          exact ⟨q, t, hq, hu, rfl, rfl⟩
      · cases h
  · rintro ⟨q, t, hq, hv, rfl, rfl⟩
    have hn := (valueHalt?_eq_none_iff ha hq).2 ⟨v, t, hv, rfl⟩
    obtain ⟨htk, hdr⟩ := htake (t := t) hq hv
    rw [scanQuoted, if_pos hq, hn, htk, hdr]

/-- The name and the value of an attribute as it is written. -/
def WrittenAttribute.entry (w : WrittenAttribute) : List Char × List Char :=
  (w.name, w.value)

/-- Nothing but blanks stands before what is left when blanks are skipped. -/
theorem exists_of_skipSpace (s : List Char) : ∃ b, AreBlanks b ∧ s = b ++ skipSpace s := by
  obtain ⟨b, hs, hb⟩ := exists_append_dropWhile isSpace s
  exact ⟨b, hb, hs⟩

/-- Blanks are skipped up to the next other character. -/
theorem skipSpace_append {b s : List Char} (hb : AreBlanks b) (hs : StopsAt isSpace s) :
    skipSpace (b ++ s) = s :=
  dropWhile_append hb hs

/-- A name or a sign follows blanks, so a name before them has ended. -/
theorem stopsAt_blanks (ha : a.Separates) {b s : List Char} (hb : AreBlanks b)
    (hs : StopsAt a.continuesName s) : StopsAt a.continuesName (b ++ s) := by
  cases b with
  | nil => exact hs
  | cons c b =>
    have hc := Alphabet.mem_signs_of_isSpace (hb c List.mem_cons_self)
    exact stopsAt_cons.2 (ha.not_continues c hc)

/-- What is scanned as an attribute is spelled as one. -/
theorem exists_of_scanAttribute (ha : a.Separates) {s rest : List Char} {w : WrittenAttribute}
    (h : scanAttribute a s = .ok (w, rest)) : ∃ before after q, a.IsName w.name ∧
      AreBlanks before ∧ AreBlanks after ∧ (q = '"' ∨ q = '\'') ∧ a.dialect.IsValue q w.value ∧
      s = w.name ++ (before ++ '=' :: (after ++ q :: (w.value ++ q :: rest))) := by
  unfold scanAttribute at h
  split at h
  · cases h
  · cases h
  · rename_i n c r hn
    obtain ⟨hname, rfl⟩ := isName_of_scanName hn
    split at h
    · obtain ⟨before, hb, hr⟩ := exists_of_skipSpace (c :: r)
      split at h
      · cases h
      · rename_i t ht
        obtain ⟨after, haf, hs⟩ := exists_of_skipSpace t
        split at h
        · cases h
        · rename_i v u hv
          obtain ⟨q, t', hq, hval, hu, rfl⟩ := (scanQuoted_eq_ok_iff ha).1 hv
          obtain ⟨rfl, rfl⟩ := Prod.mk.inj (Except.ok.inj h)
          refine ⟨before, after, q, hname, hb, haf, hq, hval, ?_⟩
          rw [hr, ht, hs, hu]
          simp
      · cases h
    · cases h

/-- A spelled attribute is scanned. -/
theorem exists_scanAttribute (ha : a.Separates) {n v before after : List Char} {q : Char}
    (hn : a.IsName n) (hb : AreBlanks before) (haf : AreBlanks after) (hq : q = '"' ∨ q = '\'')
    (hv : a.dialect.IsValue q v) (rest : List Char) :
    ∃ w, scanAttribute a (n ++ (before ++ '=' :: (after ++ q :: (v ++ q :: rest)))) =
      .ok (w, rest) ∧ w.entry = (n, v) := by
  have hquote : isSpace q = false := by rcases hq with rfl | rfl <;> decide
  have hscan : scanName a (n ++ (before ++ '=' :: (after ++ q :: (v ++ q :: rest)))) =
      .ok (n, before ++ '=' :: (after ++ q :: (v ++ q :: rest))) :=
    scanName_append hn (stopsAt_blanks ha hb (stopsAt_cons.2 (ha.not_continues '=' (by decide))))
  have hbefore := skipSpace_append hb (s := '=' :: (after ++ q :: (v ++ q :: rest)))
    (stopsAt_cons.2 (by decide))
  have hafter := skipSpace_append haf (s := q :: (v ++ q :: rest)) (stopsAt_cons.2 hquote)
  have hvalue := (scanQuoted_eq_ok_iff ha).2 ⟨q, rest, hq, hv, rfl, rfl⟩
  -- A blank or the equals sign comes behind the name.
  obtain ⟨c, r, hcr, hc⟩ : ∃ c r, before ++ '=' :: (after ++ q :: (v ++ q :: rest)) = c :: r ∧
      (c = '=' ∨ isSpace c = true) := by
    cases before with
    | nil => exact ⟨_, _, rfl, Or.inl rfl⟩
    | cons c before => exact ⟨_, _, rfl, Or.inr (hb c List.mem_cons_self)⟩
  refine ⟨⟨n, n ++ (c :: r), v, q :: rest⟩, ?_, rfl⟩
  rw [hcr] at hscan hbefore ⊢
  rw [scanAttribute, hscan]
  simp only [if_pos hc, hbefore, hafter, hvalue]
  rfl

/-- The end of a tag is found where it stands. -/
theorem scanTagEnd?_eq_ok_iff {s rest : List Char} {isEmpty : Bool} :
    scanTagEnd? s = some (.ok (isEmpty, rest)) ↔ s = tagEnd isEmpty ++ rest := by
  constructor
  · intro h
    unfold scanTagEnd? at h
    split at h
    · obtain ⟨rfl, rfl⟩ := Prod.mk.inj (Except.ok.inj (Option.some.inj h))
      rfl
    · obtain ⟨rfl, rfl⟩ := Prod.mk.inj (Except.ok.inj (Option.some.inj h))
      rfl
    all_goals cases h
  · rintro rfl
    cases isEmpty with
    | false => rfl
    | true => rfl

/-- The end of a tag ends the attributes. -/
theorem eq_of_map_tagEnd {result : Scan Bool} {rest : List Char} {ws : List WrittenAttribute}
    {isEmpty : Bool}
    (h : (result.map fun (isEmpty, rest) => (([], isEmpty), rest)) = .ok ((ws, isEmpty), rest)) :
    ws = [] ∧ result = .ok (isEmpty, rest) := by
  cases result with
  | error e => cases h
  | ok x =>
    obtain ⟨hx, rfl⟩ := Prod.mk.inj (Except.ok.inj h)
    obtain ⟨rfl, rfl⟩ := Prod.mk.inj hx
    exact ⟨rfl, rfl⟩

/-- What is scanned behind the name of a start tag is a row of attributes and the end of the tag. -/
theorem exists_of_scanAttributes (ha : a.Separates) {ifEnds : Halt} {s rest : List Char}
    {ws : List WrittenAttribute} {isEmpty : Bool}
    (h : scanAttributes a ifEnds s = .ok ((ws, isEmpty), rest)) :
    ∃ t b, a.dialect.AreAttributes (ws.map (·.entry)) t ∧ AreBlanks b ∧
      s = t ++ (b ++ (tagEnd isEmpty ++ rest)) := by
  -- The tag ends at once (`case1`) or behind blanks (`case3`), or an attribute comes (`case6`).
  fun_induction scanAttributes a ifEnds s generalizing ws isEmpty rest with
  | case1 _ s result hs =>
    obtain ⟨rfl, rfl⟩ := eq_of_map_tagEnd h
    exact ⟨[], [], .nil, fun _ h => (List.not_mem_nil h).elim, scanTagEnd?_eq_ok_iff.1 hs⟩
  | case2 => cases h
  | case3 _ c s hc result hs hn =>
    obtain ⟨rfl, rfl⟩ := eq_of_map_tagEnd h
    obtain ⟨b, hb, hsb⟩ := exists_of_skipSpace s
    refine ⟨[], c :: b, .nil, List.forall_mem_cons.2 ⟨hc, hb⟩, ?_⟩
    rw [hsb, scanTagEnd?_eq_ok_iff.1 hs]
    rfl
  | case4 => cases h
  | case5 => cases h
  | case6 _ c s hc hs w t hw ws' isEmpty' rest' hws hn ih =>
    obtain ⟨hx, rfl⟩ := Prod.mk.inj (Except.ok.inj h)
    obtain ⟨rfl, rfl⟩ := Prod.mk.inj hx
    obtain ⟨u, b, hu, hb, rfl⟩ := ih hws
    obtain ⟨blanks, hbl, hsb⟩ := exists_of_skipSpace s
    obtain ⟨before, after, q, hname, hbefore, hafter, hq, hv, hsw⟩ := exists_of_scanAttribute ha hw
    refine ⟨_, b, .cons (List.forall_mem_cons.2 ⟨hc, hbl⟩) (List.cons_ne_nil _ _) hname hbefore
      hafter hq hv hu, hb, ?_⟩
    rw [hsb, hsw]
    simp
  | case7 => cases h

/-- A row of attributes and the end of the tag are scanned. -/
theorem exists_scanAttributes (ha : a.Separates) {xs : List (List Char × List Char)}
    {t : List Char} (ht : a.dialect.AreAttributes xs t) {b : List Char} (hb : AreBlanks b)
    (isEmpty : Bool) (rest : List Char) (ifEnds : Halt) :
    ∃ ws, scanAttributes a ifEnds (t ++ (b ++ (tagEnd isEmpty ++ rest))) =
      .ok ((ws, isEmpty), rest) ∧ ws.map (·.entry) = xs := by
  have hend : scanTagEnd? (tagEnd isEmpty ++ rest) = some (.ok (isEmpty, rest)) :=
    scanTagEnd?_eq_ok_iff.2 rfl
  have hstop : StopsAt isSpace (tagEnd isEmpty ++ rest) := by
    cases isEmpty with
    | false => exact stopsAt_cons.2 (by decide)
    | true => exact stopsAt_cons.2 (by decide)
  -- What halts a tag that breaks off is another thing behind the first attribute.
  induction ht generalizing ifEnds with
  | nil =>
    refine ⟨[], ?_, rfl⟩
    cases b with
    | nil =>
      rw [List.nil_append, List.nil_append, scanAttributes.eq_def, hend]
      rfl
    | cons c b =>
      obtain ⟨hc, hb⟩ := List.forall_mem_cons.1 hb
      rw [List.nil_append, List.cons_append, scanAttributes.eq_def, scanTagEnd?_of_isSpace hc]
      simp only [if_pos hc, skipSpace_append hb hstop, hend]
      rfl
  | @cons n v blanks before after q xs s hbl hne hn hbefore hafter hq hv _ ih =>
    -- Blanks and a name are not the end of the tag, so an attribute is scanned.
    obtain ⟨ws, hws, hxs⟩ := ih .endOfMarkup
    obtain ⟨w, hw, he⟩ := exists_scanAttribute ha hn hbefore hafter hq hv
      (s ++ (b ++ (tagEnd isEmpty ++ rest)))
    obtain ⟨c, bl, rfl⟩ := List.exists_cons_of_ne_nil hne
    obtain ⟨hc, hbl⟩ := List.forall_mem_cons.1 hbl
    refine ⟨w :: ws, ?_, by rw [List.map_cons, he, hxs]⟩
    have hskip : skipSpace (bl ++ (n ++ (before ++ '=' :: (after ++ q :: (v ++ q ::
        (s ++ (b ++ (tagEnd isEmpty ++ rest)))))))) = n ++ (before ++ '=' :: (after ++ q ::
        (v ++ q :: (s ++ (b ++ (tagEnd isEmpty ++ rest)))))) :=
      skipSpace_append hbl (stopsAt_isSpace_isName ha hn _)
    have hcons : scanAttributes a ifEnds (c :: (bl ++ (n ++ (before ++ '=' :: (after ++ q ::
        (v ++ q :: (s ++ (b ++ (tagEnd isEmpty ++ rest))))))))) =
        .ok ((w :: ws, isEmpty), rest) :=
      scanAttributes_cons hc (by rw [hskip, scanTagEnd?_isName ha hn]) (by rw [hskip, hw]) hws
    simpa using hcons

/-! ## Tags -/

/-- What is scanned as a start tag is spelled as one. -/
theorem isTag_of_scanStartTag (ha : a.Separates) {s rest : List Char} {tag : StartTag}
    (h : scanStartTag a s = .ok (tag, rest)) :
    ∃ w, a.dialect.IsTag tag.isEmpty tag.name (tag.attributes.map (·.entry)) w ∧
      '<' :: s = w ++ rest := by
  unfold scanStartTag at h
  split at h
  · cases h
  · rename_i n r hn
    obtain ⟨hname, rfl⟩ := isName_of_scanName hn
    split at h
    · cases h
    · rename_i ws isEmpty rest' hws
      obtain ⟨rfl, rfl⟩ := Prod.mk.inj (Except.ok.inj h)
      obtain ⟨t, b, ht, hb, rfl⟩ := exists_of_scanAttributes ha hws
      exact ⟨_, ⟨t, b, hname, ht, hb, rfl⟩, by simp⟩

/-- A spelled start tag is scanned. -/
theorem exists_scanStartTag (ha : a.Separates) {isEmpty : Bool} {n s w rest : List Char}
    {xs : List (List Char × List Char)} (hw : a.dialect.IsTag isEmpty n xs w)
    (hs : '<' :: s = w ++ rest) :
    ∃ tag, scanStartTag a s = .ok (tag, rest) ∧ tag.name = n ∧ tag.isEmpty = isEmpty ∧
      tag.attributes.map (·.entry) = xs := by
  obtain ⟨t, b, hn, ht, hb, rfl⟩ := hw
  obtain rfl : s = n ++ (t ++ (b ++ (tagEnd isEmpty ++ rest))) := by simpa using hs
  obtain ⟨ws, hws, hxs⟩ := exists_scanAttributes ha ht hb isEmpty rest .endOfText
  -- The name ends with a blank, or with the tag.
  have hstop : StopsAt a.continuesName (t ++ (b ++ (tagEnd isEmpty ++ rest))) := by
    cases ht with
    | nil =>
      rw [List.nil_append]
      refine stopsAt_blanks ha hb ?_
      cases isEmpty with
      | false => exact stopsAt_cons.2 (ha.not_continues '>' (by decide))
      | true => exact stopsAt_cons.2 (ha.not_continues '/' (by decide))
    | cons hbl hne =>
      -- Blanks are before the first attribute.
      obtain ⟨c, bl, rfl⟩ := List.exists_cons_of_ne_nil hne
      have hc := hbl c List.mem_cons_self
      exact stopsAt_cons.2 (ha.not_continues c (Alphabet.mem_signs_of_isSpace hc))
  refine ⟨⟨n, ws, isEmpty⟩, ?_, rfl, rfl, hxs⟩
  rw [scanStartTag, scanName_append hn hstop]
  simp only [hws]

/-- **An end tag** follows `</`. -/
theorem scanEndTag_eq_ok_iff (ha : a.Separates) {s n rest : List Char} :
    scanEndTag a s = .ok (n, rest) ↔
      ∃ w, a.dialect.IsEndTag n w ∧ '<' :: '/' :: s = w ++ rest := by
  constructor
  · intro h
    unfold scanEndTag at h
    split at h
    · cases h
    · cases h
    · rename_i name c r hn
      obtain ⟨hname, rfl⟩ := isName_of_scanName hn
      obtain ⟨b, hb, hr⟩ := exists_of_skipSpace (c :: r)
      split at h
      · rename_i rest' ht
        obtain ⟨rfl, rfl⟩ := Prod.mk.inj (Except.ok.inj h)
        exact ⟨_, ⟨b, hname, hb, rfl⟩, by rw [hr, ht]; simp⟩
      · cases h
      · cases h
  · rintro ⟨w, ⟨b, hname, hb, rfl⟩, hs⟩
    obtain rfl : s = n ++ (b ++ '>' :: rest) := by simpa using hs
    have hscan : scanName a (n ++ (b ++ '>' :: rest)) = .ok (n, b ++ '>' :: rest) :=
      scanName_append hname
        (stopsAt_blanks ha hb (stopsAt_cons.2 (ha.not_continues '>' (by decide))))
    have hskip := skipSpace_append hb (s := '>' :: rest) (stopsAt_cons.2 (by decide))
    -- The scan looks at the character behind the name before it skips blanks.
    obtain ⟨c, r, hcr⟩ : ∃ c r, b ++ '>' :: rest = c :: r := by
      cases b with
      | nil => exact ⟨_, _, rfl⟩
      | cons c b => exact ⟨_, _, rfl⟩
    rw [hcr] at hscan hskip ⊢
    rw [scanEndTag, hscan]
    simp only [hskip]

end FxmlWiring.Markup
