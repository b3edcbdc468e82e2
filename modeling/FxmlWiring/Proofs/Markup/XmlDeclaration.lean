import FxmlWiring.Markup.XmlDeclaration
import FxmlWiring.Proofs.Text.Span
import Mathlib.Logic.Basic

/-! # What an XML declaration says

The settings of a declaration as they are written, and the declarations that **say** an encoding and
whether the document stands alone. `read` reads just these (`read_sound`, `exists_read`). -/

namespace FxmlWiring.Markup.XmlDeclaration

open Text

/-! ## Settings as they are written -/

/-- Only blanks. -/
def AreBlank (s : List Char) : Prop :=
  ∀ c ∈ s, isSpace c = true

/-- A value in quotes, as it is written after blanks. -/
inductive WrittenValue (value : List Char) : List Char → Prop
  | intro {blanks : List Char} {q : Char} (hb : AreBlank blanks) (hq : q = '"' ∨ q = '\'')
      (hv : ∀ c ∈ value, isValueCharacter c = true) :
      WrittenValue value (blanks ++ q :: (value ++ [q]))

/-- A setting as it is written: blanks, its name, an equals sign between blanks, its value. -/
inductive Written (name value : List Char) : List Char → Prop
  | intro {gap blanks w : List Char} (hne : gap ≠ []) (hg : AreBlank gap) (hb : AreBlank blanks)
      (hw : WrittenValue value w) : Written name value (gap ++ (name ++ (blanks ++ '=' :: w)))

/-- The name of a setting. -/
structure IsName (name : List Char) : Prop where
  ne_nil : name ≠ []
  isNameCharacter : ∀ c ∈ name, isNameCharacter c = true

/-- No blank belongs to the name of a setting. -/
theorem isNameCharacter_of_isSpace {c : Char} (h : isSpace c = true) :
    isNameCharacter c = false := by
  simp [isNameCharacter, h]

/-- A text has only blanks if nothing is left after them. -/
theorem skipSpace_eq_nil_iff {s : List Char} : skipSpace s = [] ↔ AreBlank s :=
  List.dropWhile_eq_nil_iff

/-- Every text starts with the blanks that are skipped. -/
theorem exists_blanks (s : List Char) : ∃ blanks, s = blanks ++ skipSpace s ∧ AreBlank blanks :=
  exists_append_dropWhile isSpace s

/-- Blanks are skipped up to something else. -/
theorem skipSpace_append {blanks s : List Char} (hb : AreBlank blanks) (hs : StopsAt isSpace s) :
    skipSpace (blanks ++ s) = s :=
  dropWhile_append hb hs

/-! ## Reading a setting -/

/-- What is read as a value is a value in quotes. -/
theorem readValue_sound {s v at' rest : List Char} (h : readValue s = .ok (v, at', rest)) :
    ∃ w, s = w ++ rest ∧ WrittenValue v w := by
  obtain ⟨blanks, hs, hb⟩ := exists_blanks s
  unfold readValue at h
  split at h
  · cases h
  · rename_i q t hq
    split at h
    · rename_i hquote
      have ht := List.takeWhile_append_dropWhile (p := isValueCharacter) (l := t)
      split at h
      · rename_i c r hr
        split at h
        · rename_i hc
          subst hc
          simp only [Except.ok.injEq, Prod.mk.injEq] at h
          obtain ⟨rfl, -, rfl⟩ := h
          refine ⟨blanks ++ c :: (t.takeWhile isValueCharacter ++ [c]), ?_,
            .intro hb hquote fun _ h => List.mem_takeWhile_imp h⟩
          rw [hr] at ht
          calc s = blanks ++ c :: t := by rw [← hq]; exact hs
            _ = blanks ++ c :: (t.takeWhile isValueCharacter ++ c :: r) := by rw [ht]
            _ = _ := by simp
        · cases h
      · cases h
    · cases h

/-- A value in quotes is read. -/
theorem readValue_written {v w : List Char} (h : WrittenValue v w) (rest : List Char) :
    ∃ at', readValue (w ++ rest) = .ok (v, at', rest) := by
  obtain ⟨hb, hq, hv⟩ := h
  rename_i blanks q
  have hs : isSpace q = false := by rcases hq with rfl | rfl <;> rfl
  have hc : isValueCharacter q = false := by rcases hq with rfl | rfl <;> rfl
  have hk : skipSpace (blanks ++ q :: (v ++ [q]) ++ rest) = q :: (v ++ q :: rest) := by
    rw [List.append_assoc, List.cons_append, skipSpace_append hb (stopsAt_cons.2 hs)]
    simp
  refine ⟨v ++ q :: rest, ?_⟩
  rw [readValue, hk]
  simp only [hq, ↓reduceIte, dropWhile_append hv (stopsAt_cons.2 hc),
    takeWhile_append hv (stopsAt_cons.2 hc)]

/-- What is read as a setting is one. -/
theorem readSetting_sound {s rest : List Char} {x : Setting}
    (h : readSetting s = .ok (some x, rest)) : ∃ w, s = w ++ rest ∧ Written x.name x.value w := by
  obtain ⟨gap, hs, hg⟩ := exists_blanks s
  unfold readSetting at h
  split at h
  · cases h
  · rename_i c t
    split at h
    · cases h
    · rename_i hc
      split at h
      · cases h
      · rename_i hat
        obtain ⟨blanks, hn, hb⟩ :=
          exists_blanks ((skipSpace (c :: t)).dropWhile isNameCharacter)
        have ht := List.takeWhile_append_dropWhile (p := isNameCharacter) (l := skipSpace (c :: t))
        dsimp only at h
        split at h
        · rename_i r hr
          split at h
          · cases h
          · split at h
            · cases h
            · rename_i v vat rest' hv
              cases h
              obtain ⟨w, hw, hv⟩ := readValue_sound hv
              refine ⟨gap ++ ((skipSpace (c :: t)).takeWhile isNameCharacter ++
                (blanks ++ '=' :: w)), ?_, .intro ?_ hg hb hv⟩
              · calc c :: t = gap ++ skipSpace (c :: t) := hs
                  _ = gap ++ ((skipSpace (c :: t)).takeWhile isNameCharacter ++
                      (skipSpace (c :: t)).dropWhile isNameCharacter) := by rw [ht]
                  _ = gap ++ ((skipSpace (c :: t)).takeWhile isNameCharacter ++
                      (blanks ++ '=' :: (w ++ rest))) := by rw [hn, hr, hw]
                  _ = _ := by simp
              · -- Without blanks in front the first character would be no blank.
                rintro rfl
                have hs' : StopsAt isSpace (skipSpace (c :: t)) := stopsAt_dropWhile (c :: t)
                rw [← List.nil_append (skipSpace _), ← hs, stopsAt_cons] at hs'
                simp [hs'] at hc
        · cases h

/-- Nothing is read as a setting where only blanks are left, and only there. -/
theorem readSetting_none_iff {s r : List Char} :
    readSetting s = .ok (none, r) ↔ AreBlank s ∧ r = s := by
  constructor
  · intro h
    unfold readSetting at h
    split at h
    · cases h
      exact ⟨List.forall_mem_nil _, rfl⟩
    · split at h
      · cases h
      · split at h
        · rename_i hs
          cases h
          exact ⟨skipSpace_eq_nil_iff.1 hs, rfl⟩
        · dsimp only at h
          split at h
          · split at h
            · cases h
            · split at h <;> cases h
          · cases h
  · rintro ⟨h, rfl⟩
    cases r with
    | nil => rfl
    | cons c t =>
      have hc := h c List.mem_cons_self
      rw [readSetting, if_neg (by simp [hc])]
      rw [skipSpace_eq_nil_iff.2 h]

/-- A written setting is read. -/
theorem readSetting_written {name value w : List Char} (hn : IsName name)
    (h : Written name value w) (rest : List Char) :
    ∃ x, readSetting (w ++ rest) = .ok (some x, rest) ∧ x.name = name ∧ x.value = value := by
  obtain ⟨hne, hg, hb, hw⟩ := h
  rename_i gap blanks w
  obtain ⟨at', hv⟩ := readValue_written hw rest
  obtain ⟨c, t, rfl⟩ := List.exists_cons_of_ne_nil hne
  obtain ⟨d, n, rfl⟩ := List.exists_cons_of_ne_nil hn.ne_nil
  have hc := hg c List.mem_cons_self
  have hd : isSpace d = false := by
    have := hn.isNameCharacter d List.mem_cons_self
    simp only [isNameCharacter, Bool.and_eq_true, Bool.not_eq_true'] at this
    exact this.1.2
  -- The name stops at the blanks before the equals sign, or at the sign itself.
  have hstop : StopsAt isNameCharacter (blanks ++ '=' :: (w ++ rest)) := by
    cases blanks with
    | nil => exact stopsAt_cons.2 rfl
    | cons b bs =>
      exact stopsAt_cons.2 (isNameCharacter_of_isSpace (hb b List.mem_cons_self))
  have hs : c :: t ++ (d :: n ++ (blanks ++ '=' :: w)) ++ rest =
      c :: (t ++ d :: (n ++ (blanks ++ '=' :: (w ++ rest)))) := by
    simp
  have hk : skipSpace (c :: (t ++ d :: (n ++ (blanks ++ '=' :: (w ++ rest))))) =
      d :: (n ++ (blanks ++ '=' :: (w ++ rest))) :=
    skipSpace_append hg (stopsAt_cons.2 hd)
  have ht : (d :: (n ++ (blanks ++ '=' :: (w ++ rest)))).takeWhile isNameCharacter = d :: n :=
    takeWhile_append hn.isNameCharacter hstop
  have hr : (d :: (n ++ (blanks ++ '=' :: (w ++ rest)))).dropWhile isNameCharacter =
      blanks ++ '=' :: (w ++ rest) :=
    dropWhile_append hn.isNameCharacter hstop
  have hl : skipSpace (blanks ++ '=' :: (w ++ rest)) = '=' :: (w ++ rest) :=
    skipSpace_append hb (stopsAt_cons.2 rfl)
  refine ⟨⟨d :: n, d :: (n ++ (blanks ++ '=' :: (w ++ rest))), value, at'⟩, ?_, rfl, rfl⟩
  rw [hs, readSetting, if_neg (by simp [hc])]
  simp only [hk, ht, hr, hl, hv, if_neg (List.cons_ne_nil d n)]

/-! ## Whole declarations -/

/-- The setting of a declaration that says an encoding, if any. The name of an encoding starts with
a letter. -/
inductive SaysEncoding : Option (List Char) → List Char → Prop
  | unsaid : SaysEncoding none []
  | said {c : Char} {t w : List Char} (hc : c.isAlpha = true)
      (hw : Written "encoding".toList (c :: t) w) : SaysEncoding (some (c :: t)) w

/-- The setting of a declaration that says whether the document stands alone, if any. -/
inductive SaysStandalone : Bool → List Char → Prop
  | unsaid : SaysStandalone false []
  | no {w : List Char} (hw : Written "standalone".toList "no".toList w) : SaysStandalone false w
  | yes {w : List Char} (hw : Written "standalone".toList "yes".toList w) : SaysStandalone true w

/-- A declaration with its version, and what it says besides. -/
inductive Says (encoding : Option (List Char)) (standalone : Bool) : List Char → Prop
  | intro {v u₁ u₂ u₃ blanks : List Char} (hv : Written "version".toList v u₁)
      (he : SaysEncoding encoding u₂) (hs : SaysStandalone standalone u₃) (hb : AreBlank blanks) :
      Says encoding standalone (u₁ ++ (u₂ ++ (u₃ ++ blanks)))

/-- What is read as the last setting says whether the document stands alone. -/
theorem readStandalone_sound {encoding : Option (List Char × List Char)} {x : Setting}
    {w rest : List Char} {c : Contents} (hx : Written x.name x.value w)
    (h : readStandalone encoding x rest = .ok c) :
    AreBlank rest ∧ SaysStandalone c.standalone w ∧ c.encoding = encoding := by
  unfold readStandalone at h
  split at h
  · cases h
  · rename_i hn
    split at h
    · cases h
    · rename_i hv
      split at h
      · cases h
      · rename_i hb
        obtain rfl := Except.ok.inj h
        rw [not_not] at hn hb
        have hn : x.name = "standalone".toList := by rw [← hn, String.toList_ofList]
        rw [not_and_or, not_not, not_not] at hv
        refine ⟨skipSpace_eq_nil_iff.1 hb, ?_, rfl⟩
        rw [hn] at hx
        rcases hv with hv | hv
        · have hv' : x.value = "yes".toList := by rw [← hv, String.toList_ofList]
          rw [hv'] at hx
          simpa [hv] using SaysStandalone.yes hx
        · have hv' : x.value = "no".toList := by rw [← hv, String.toList_ofList]
          rw [hv'] at hx
          simpa [hv] using SaysStandalone.no hx

/-- What is read after the version says an encoding, or whether the document stands alone, or both.
-/
theorem readEncoding_sound {x : Setting} {w rest : List Char} {c : Contents}
    (hx : Written x.name x.value w) (h : readEncoding x rest = .ok c) :
    ∃ u₂ u₃ blanks, w ++ rest = u₂ ++ (u₃ ++ blanks) ∧
      SaysEncoding (c.encoding.map Prod.fst) u₂ ∧ SaysStandalone c.standalone u₃ ∧
      AreBlank blanks := by
  unfold readEncoding at h
  split at h
  · rename_i hn
    have hn : x.name = "encoding".toList := by rw [← hn, String.toList_ofList]
    rw [hn] at hx
    split at h
    · rename_i d t hv
      split at h
      · rename_i hd
        have he : SaysEncoding (some x.value) w := by
          rw [hv] at hx ⊢
          exact .said hd hx
        split at h
        · cases h
        · -- Nothing but the encoding is said.
          rename_i hr
          obtain rfl := Except.ok.inj h
          exact ⟨w, [], rest, rfl, he, .unsaid, (readSetting_none_iff.1 hr).1⟩
        · -- Another setting follows, which can only be the last one.
          rename_i y rest' hr
          obtain ⟨u, rfl, hy⟩ := readSetting_sound hr
          obtain ⟨hb, hs, hc⟩ := readStandalone_sound hy h
          refine ⟨w, u, rest', rfl, ?_, hs, hb⟩
          rw [hc]
          exact he
      · cases h
    · cases h
  · -- The setting is no encoding, so it is the last one.
    obtain ⟨hb, hs, hc⟩ := readStandalone_sound hx h
    refine ⟨[], w, rest, rfl, ?_, hs, hb⟩
    rw [hc]
    exact .unsaid

/-- **What is read from a declaration is what it says.** -/
theorem read_sound {s : List Char} {c : Contents} (h : read s = .ok c) :
    Says (c.encoding.map Prod.fst) c.standalone s := by
  unfold read at h
  split at h
  · cases h
  · cases h
  · rename_i x rest hr
    obtain ⟨u₁, rfl, hx⟩ := readSetting_sound hr
    split at h
    · cases h
    · rename_i hn
      rw [not_not] at hn
      have hn : x.name = "version".toList := by rw [← hn, String.toList_ofList]
      rw [hn] at hx
      split at h
      · cases h
      · rename_i hr
        obtain rfl := Except.ok.inj h
        exact .intro hx .unsaid .unsaid (readSetting_none_iff.1 hr).1
      · rename_i y rest' hr
        obtain ⟨u, rfl, hy⟩ := readSetting_sound hr
        obtain ⟨u₂, u₃, blanks, hw, he, hs, hb⟩ := readEncoding_sound hy h
        rw [hw]
        exact .intro hx he hs hb

/-- The names of the settings are names. -/
theorem isName_version : IsName "version".toList :=
  ⟨by decide, List.all_eq_true.1 (by decide)⟩

theorem isName_encoding : IsName "encoding".toList :=
  ⟨by decide, List.all_eq_true.1 (by decide)⟩

theorem isName_standalone : IsName "standalone".toList :=
  ⟨by decide, List.all_eq_true.1 (by decide)⟩

/-- The last setting is read if there is one. -/
theorem SaysStandalone.readSetting {standalone : Bool} {w blanks : List Char}
    (h : SaysStandalone standalone w) (hb : AreBlank blanks) :
    (standalone = false ∧ XmlDeclaration.readSetting (w ++ blanks) = .ok (none, blanks)) ∨
      ∃ x, XmlDeclaration.readSetting (w ++ blanks) = .ok (some x, blanks) ∧
        String.ofList x.name = "standalone" ∧
        ∀ encoding, readStandalone encoding x blanks = .ok ⟨encoding, standalone⟩ := by
  have hk := skipSpace_eq_nil_iff.2 hb
  cases h with
  | unsaid => exact Or.inl ⟨rfl, readSetting_none_iff.2 ⟨hb, rfl⟩⟩
  | no hw =>
    obtain ⟨x, hx, hn, hv⟩ := readSetting_written isName_standalone hw blanks
    refine Or.inr ⟨x, hx, by rw [hn, String.ofList_toList], ?_⟩
    intro encoding
    simp [readStandalone, hn, hv, hk]
  | yes hw =>
    obtain ⟨x, hx, hn, hv⟩ := readSetting_written isName_standalone hw blanks
    refine Or.inr ⟨x, hx, by rw [hn, String.ofList_toList], ?_⟩
    intro encoding
    simp [readStandalone, hn, hv, hk]

/-- **What a declaration says is read.** -/
theorem exists_read {encoding : Option (List Char)} {standalone : Bool} {s : List Char}
    (h : Says encoding standalone s) :
    ∃ c, read s = .ok c ∧ c.encoding.map Prod.fst = encoding ∧ c.standalone = standalone := by
  obtain ⟨hv, he, hs, hb⟩ := h
  rename_i v u₁ u₂ u₃ blanks
  obtain ⟨x, hx, hn, -⟩ := readSetting_written isName_version hv (u₂ ++ (u₃ ++ blanks))
  have hn : String.ofList x.name = "version" := by rw [hn, String.ofList_toList]
  have hr := hs.readSetting hb
  rw [read, hx]
  simp only [hn, ne_eq, not_true_eq_false, ↓reduceIte]
  cases he with
  | unsaid =>
    rw [List.nil_append]
    rcases hr with ⟨hf, hr⟩ | ⟨y, hr, hy, hc⟩
    · exact ⟨{}, by rw [hr], rfl, hf.symm⟩
    · refine ⟨⟨none, standalone⟩, ?_, rfl, rfl⟩
      rw [hr]
      simp only [readEncoding, hy, hc]
      rfl
  | @said c t _ hc hw =>
    obtain ⟨y, hy, hyn, hyv⟩ := readSetting_written isName_encoding hw (u₃ ++ blanks)
    have hyn : String.ofList y.name = "encoding" := by rw [hyn, String.ofList_toList]
    rw [hy]
    simp only [readEncoding, hyn, if_true, hyv, hc]
    rcases hr with ⟨hf, hr⟩ | ⟨z, hr, -, hz⟩
    · exact ⟨⟨some (c :: t, y.valueAt), false⟩, by rw [hr], rfl, hf.symm⟩
    · refine ⟨⟨some (c :: t, y.valueAt), standalone⟩, ?_, rfl, rfl⟩
      rw [hr]
      exact hz _

/-! ## The characters of a declaration -/

/-- The characters that settings are written with. -/
def IsPlain (s : List Char) : Prop :=
  ∀ c ∈ s, isLegal c = true ∧ c ≠ '?'

/-- Whether characters are plain can be tried one by one. -/
theorem isPlain_of_all {s : List Char} (h : s.all (fun c => isLegal c && c != '?') = true) :
    IsPlain s := by
  simpa [IsPlain] using h

theorem IsPlain.append {s t : List Char} (hs : IsPlain s) (ht : IsPlain t) : IsPlain (s ++ t) :=
  List.forall_mem_append.2 ⟨hs, ht⟩

theorem AreBlank.isPlain {s : List Char} (h : AreBlank s) : IsPlain s := by
  intro c hc
  refine ⟨isLegal_of_isSpace (h c hc), ?_⟩
  rintro rfl
  exact absurd (h '?' hc) (by decide)

/-- A character of a value is an ASCII character. -/
theorem isPlain_of_isValueCharacter {s : List Char} (h : ∀ c ∈ s, isValueCharacter c = true) :
    IsPlain s := by
  intro c hc
  have hv := h c hc
  have hlt : c.toNat < 0x80 := by
    -- The test for letters and digits, written out.
    change ((((((c.val ≥ 'A'.val ∧ c.val ≤ 'Z'.val : Bool) ||
      (c.val ≥ 'a'.val && c.val ≤ 'z'.val)) || (c.val ≥ '0'.val && c.val ≤ '9'.val)) ||
      c = '.') || c = '-') || c = '_') = true at hv
    simp only [Bool.or_eq_true, Bool.and_eq_true, decide_eq_true_eq, ge_iff_le,
      UInt32.le_iff_toNat_le] at hv
    change c.val.toNat < 0x80
    rcases hv with (((((h | h) | h) | rfl) | rfl) | rfl) <;> grind
  have ha : ∀ n < 0x80, isValueCharacter (Char.ofNat n) = true →
      isLegal (Char.ofNat n) = true ∧ Char.ofNat n ≠ '?' := by decide
  rw [← Char.ofNat_toNat c] at hv ⊢
  exact ha c.toNat hlt hv

theorem WrittenValue.isPlain {v w : List Char} (h : WrittenValue v w) : IsPlain w := by
  obtain ⟨hb, hq, hv⟩ := h
  rename_i q
  have hp : isLegal q = true ∧ q ≠ '?' := by
    rcases hq with rfl | rfl <;> decide
  exact hb.isPlain.append (List.forall_mem_cons.2
    ⟨hp, (isPlain_of_isValueCharacter hv).append (List.forall_mem_singleton.2 hp)⟩)

theorem Written.isPlain {name v w : List Char} (hn : IsPlain name) (h : Written name v w) :
    IsPlain w := by
  obtain ⟨-, hg, hb, hw⟩ := h
  exact hg.isPlain.append (hn.append (hb.isPlain.append
    (List.forall_mem_cons.2 ⟨by decide, hw.isPlain⟩)))

/-- What says something is written with plain characters. -/
theorem Says.isPlain {encoding : Option (List Char)} {standalone : Bool} {s : List Char}
    (h : Says encoding standalone s) : IsPlain s := by
  obtain ⟨hv, he, hs, hb⟩ := h
  rename_i v u₁ u₂ u₃ blanks
  have hv : IsPlain u₁ := hv.isPlain (isPlain_of_all (by decide))
  have he : IsPlain u₂ := by
    cases he with
    | unsaid => exact List.forall_mem_nil _
    | said _ hw => exact hw.isPlain (isPlain_of_all (by decide))
  have hs : IsPlain u₃ := by
    cases hs with
    | unsaid => exact List.forall_mem_nil _
    | no hw => exact hw.isPlain (isPlain_of_all (by decide))
    | yes hw => exact hw.isPlain (isPlain_of_all (by decide))
  exact hv.append (he.append (hs.append hb.isPlain))

/-- What says something starts with a blank. -/
theorem Says.not_stopsAt {encoding : Option (List Char)} {standalone : Bool} {s : List Char}
    (h : Says encoding standalone s) : ¬ StopsAt isSpace s := by
  obtain ⟨⟨hne, hg, -, -⟩, -⟩ := h
  rename_i gap _ _
  cases gap with
  | nil => exact absurd rfl hne
  | cons c gap => simp [hg c List.mem_cons_self]

end FxmlWiring.Markup.XmlDeclaration
