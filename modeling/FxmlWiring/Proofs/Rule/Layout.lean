import FxmlWiring.Proofs.Rule.Declaration
import FxmlWiring.Proofs.Text.Layout
import Mathlib.Data.List.Find
import Mathlib.Data.List.Forall2

/-! # Rules are blind to layout

A rule asks for blanks, not for particular ones. For values without blanks, and a type that is not
empty, texts of one layout have declarations of the same rules: `Rule.standsIn_iff_of_squeeze`, and
so the same rule accepts in both: `Requirement.acceptedBy?_eq_of_squeeze`.

Layouts do not split where a declaration does, as a run of blanks of the one text may be cut in two
by parts of the declaration. So the parts are compared from the back, each as what stands at the
front of a text (`StandsAtFront`): a part that is followed by one that `SkipsBlanks` may give it all
the blanks of the run. -/

namespace FxmlWiring

open Text

namespace Declaration

variable {L M : Language Char}

/-! ## Languages at the front of a text -/

/-- A word of the language stands at the front of the text. -/
def StandsAtFront (L : Language Char) (s : List Char) : Prop :=
  ∃ w ∈ L, w <+: s

theorem standsAtFront_one (s : List Char) : StandsAtFront 1 s :=
  ⟨[], rfl, List.nil_prefix⟩

theorem standsAtFront_add_iff {s : List Char} :
    StandsAtFront (L + M) s ↔ StandsAtFront L s ∨ StandsAtFront M s := by
  simp only [StandsAtFront, Language.mem_add, or_and_right, exists_or]

theorem standsAtFront_mul_iff {s : List Char} :
    StandsAtFront (L * M) s ↔ ∃ u ∈ L, ∃ v, s = u ++ v ∧ StandsAtFront M v := by
  constructor
  · rintro ⟨_, ⟨u, hu, w, hw, rfl⟩, t, rfl⟩
    exact ⟨u, hu, w ++ t, List.append_assoc u w t, w, hw, t, rfl⟩
  · rintro ⟨u, hu, _, rfl, w, hw, t, rfl⟩
    exact ⟨u ++ w, ⟨u, hu, w, hw, rfl⟩, t, List.append_assoc u w t⟩

/-- A word of the language stands somewhere exactly if one stands at the front of an end. -/
theorem occurs_iff {s : List Char} :
    (∃ w ∈ L, w <:+: s) ↔ ∃ a v, s = a ++ v ∧ StandsAtFront L v := by
  constructor
  · rintro ⟨w, hw, a, b, rfl⟩
    exact ⟨a, w ++ b, List.append_assoc a w b, w, hw, b, rfl⟩
  · rintro ⟨a, _, rfl, w, hw, b, rfl⟩
    exact ⟨w, hw, a, b, List.append_assoc a w b⟩

/-! ## Leading blanks -/

/-- What stands at the front of a text stands there also without the leading blanks. -/
def SkipsBlanks (L : Language Char) : Prop :=
  ∀ s, StandsAtFront L s → StandsAtFront L (s.dropWhile isBlank)

/-- No text with the language at its front begins with a blank. -/
def BeginsSolid (L : Language Char) : Prop :=
  ∀ s, StandsAtFront L s → StopsAt isBlank s

theorem BeginsSolid.skipsBlanks (h : BeginsSolid L) : SkipsBlanks L := by
  intro s hs
  rwa [dropWhile_of_stopsAt (h s hs)]

theorem SkipsBlanks.add (hL : SkipsBlanks L) (hM : SkipsBlanks M) : SkipsBlanks (L + M) := by
  intro s hs
  rw [standsAtFront_add_iff] at hs ⊢
  exact hs.imp (hL s) (hM s)

theorem beginsSolid_exactly_mul {w : String} (hne : w ≠ "")
    (hw : ∀ c ∈ w.toList, isBlank c = false) (M : Language Char) :
    BeginsSolid (exactly w * M) := by
  intro s hs
  obtain ⟨u, hu, v, rfl, -⟩ := standsAtFront_mul_iff.1 hs
  rw [mem_exactly] at hu
  subst hu
  cases hc : w.toList with
  | nil => exact absurd (String.toList_eq_nil_iff.1 hc) hne
  | cons c t =>
    rw [List.cons_append, stopsAt_cons]
    exact hw c (by simp [hc])

theorem beginsSolid_exactly {w : String} (hne : w ≠ "")
    (hw : ∀ c ∈ w.toList, isBlank c = false) : BeginsSolid (exactly w) := by
  simpa using beginsSolid_exactly_mul hne hw 1

/-- A word without blanks, the empty one too, leaves the skipping to what follows it. -/
theorem SkipsBlanks.exactly_mul {w : String} (hw : ∀ c ∈ w.toList, isBlank c = false)
    (hM : SkipsBlanks M) : SkipsBlanks (exactly w * M) := by
  by_cases hne : w = ""
  · have h1 : exactly w = 1 := by
      rw [hne]
      rfl
    rwa [h1, one_mul]
  · exact (beginsSolid_exactly_mul hne hw M).skipsBlanks

/-- Optional blanks are none, or a gap. -/
theorem blanks_eq : blanks = 1 + gap := by
  ext s
  rw [Language.mem_add, Language.mem_one]
  constructor
  · intro hs
    by_cases hn : s = []
    · exact Or.inl hn
    · exact Or.inr ⟨hn, hs⟩
  · rintro (rfl | h)
    · exact mem_blanks_iff.2 (by simp)
    · exact h.2

theorem SkipsBlanks.blanks_mul (hM : SkipsBlanks M) : SkipsBlanks (blanks * M) := by
  intro s hs
  obtain ⟨g, hg, v, rfl, hv⟩ := standsAtFront_mul_iff.1 hs
  rw [List.dropWhile_append_of_pos (mem_blanks_iff.1 hg), standsAtFront_mul_iff]
  exact ⟨[], mem_blanks_iff.2 (by simp), _, rfl, hM v hv⟩

/-- An access word and its gap, or nothing, before something. -/
theorem access_mul (M : Language Char) :
    access * M = M + exactly "private" * (gap * M) + exactly "protected" * (gap * M) := by
  rw [access, add_mul, add_mul, one_mul, mul_assoc, mul_assoc]

theorem SkipsBlanks.access_mul (hM : SkipsBlanks M) : SkipsBlanks (access * M) := by
  rw [Declaration.access_mul]
  refine (hM.add ?_).add ?_
  · exact (beginsSolid_exactly_mul (by decide) (by decide) _).skipsBlanks
  · exact (beginsSolid_exactly_mul (by decide) (by decide) _).skipsBlanks

/-! ## Languages that are blind to layout -/

/-- Of two texts of one layout, both have the language at their fronts or none has. -/
def IgnoresLayout (L : Language Char) : Prop :=
  ∀ s t, squeeze s = squeeze t → StandsAtFront L s → StandsAtFront L t

theorem ignoresLayout_one : IgnoresLayout 1 :=
  fun _ t _ _ => standsAtFront_one t

theorem IgnoresLayout.add (hL : IgnoresLayout L) (hM : IgnoresLayout M) :
    IgnoresLayout (L + M) := by
  intro s t h hs
  rw [standsAtFront_add_iff] at hs ⊢
  exact hs.imp (hL s t h) (hM s t h)

theorem IgnoresLayout.exactly_mul {w : String} (hw : ∀ c ∈ w.toList, isBlank c = false)
    (hM : IgnoresLayout M) : IgnoresLayout (exactly w * M) := by
  intro s t h hs
  obtain ⟨_, rfl, v, rfl, hv⟩ := standsAtFront_mul_iff.1 hs
  rw [squeeze_append_of_not_blank hw] at h
  obtain ⟨u', v', rfl, hu, hv'⟩ := exists_append_of_squeeze h.symm
  obtain rfl := eq_of_squeeze_eq hw hu
  exact standsAtFront_mul_iff.2 ⟨w.toList, rfl, v', rfl, hM v v' hv'.symm hv⟩

theorem ignoresLayout_exactly {w : String} (hw : ∀ c ∈ w.toList, isBlank c = false) :
    IgnoresLayout (exactly w) := by
  simpa using ignoresLayout_one.exactly_mul hw

/-- A gap takes all the blanks of its run, as what follows can do without them. -/
theorem IgnoresLayout.gap_mul (hM : IgnoresLayout M) (hk : SkipsBlanks M) :
    IgnoresLayout (gap * M) := by
  intro s t h hs
  obtain ⟨g, hg, v, rfl, hv⟩ := standsAtFront_mul_iff.1 hs
  obtain ⟨hne, hb⟩ := mem_gap_iff.1 hg
  obtain ⟨r, hr, hrb⟩ := exists_append_dropWhile isBlank v
  have hsq : squeeze (g ++ v) = ' ' :: squeeze (v.dropWhile isBlank) := by
    have hgr : ∀ c ∈ g ++ r, isBlank c = true := fun c hc =>
      (List.mem_append.1 hc).elim (hb c) (hrb c)
    have hgn : g ++ r ≠ [] := fun hn => hne (List.append_eq_nil_iff.1 hn).1
    calc squeeze (g ++ v) = squeeze (g ++ r ++ v.dropWhile isBlank) := by
          rw [List.append_assoc, ← hr]
      _ = ' ' :: squeeze (v.dropWhile isBlank) :=
          squeeze_append_of_blank hgr hgn (stopsAt_dropWhile v)
  rw [hsq] at h
  obtain ⟨u', v', rfl, hu, hv'⟩ := exists_append_of_squeeze (a := [' ']) h.symm
  have hu' : u' ∈ gap := mem_gap_iff.2 (blank_of_squeeze_eq_space hu)
  exact standsAtFront_mul_iff.2 ⟨u', hu', v', rfl, hM _ v' hv'.symm (hk v hv)⟩

theorem IgnoresLayout.blanks_mul (hM : IgnoresLayout M) (hk : SkipsBlanks M) :
    IgnoresLayout (blanks * M) := by
  rw [blanks_eq, add_mul, one_mul]
  exact hM.add (hM.gap_mul hk)

theorem IgnoresLayout.access_mul (hM : IgnoresLayout M) (hk : SkipsBlanks M) :
    IgnoresLayout (access * M) := by
  rw [Declaration.access_mul]
  exact (hM.add ((hM.gap_mul hk).exactly_mul (by decide))).add
    ((hM.gap_mul hk).exactly_mul (by decide))

/-- A filler is cut off where no run of blanks is cut in two. -/
theorem IgnoresLayout.filler_mul (hM : IgnoresLayout M) (hs : BeginsSolid M) :
    IgnoresLayout (filler * M) := by
  intro s t h hf
  obtain ⟨x, hx, v, rfl, hv⟩ := standsAtFront_mul_iff.1 hf
  rw [squeeze_append x (hs v hv)] at h
  obtain ⟨x', v', rfl, hx', hv'⟩ := exists_append_of_squeeze h.symm
  refine standsAtFront_mul_iff.2 ⟨x', ?_, v', rfl, hM v v' hv'.symm hv⟩
  rintro rfl
  exact hx (squeeze_eq_nil_iff.1 hx'.symm)

/-- A language that is blind to layout has words in both of two texts of one layout, or in none. -/
theorem IgnoresLayout.occurs (hL : IgnoresLayout L) {s t : List Char}
    (h : squeeze s = squeeze t) (hs : ∃ w ∈ L, w <:+: s) : ∃ w ∈ L, w <:+: t := by
  rw [occurs_iff] at hs ⊢
  obtain ⟨a, v, rfl, hv⟩ := hs
  obtain ⟨b, hb⟩ := exists_squeeze_append a v
  obtain ⟨a', v', rfl, -, hv'⟩ := exists_append_of_squeeze (h.symm.trans hb)
  exact ⟨a', v', rfl, hL v v' hv'.symm hv⟩

/-! ## Parts of declarations -/

/-- A name after a gap, then what begins solid. -/
theorem IgnoresLayout.name_mul {i : String} (hi : ∀ c ∈ i.toList, isBlank c = false)
    (hM : IgnoresLayout M) (hs : BeginsSolid M) :
    IgnoresLayout (gap * (exactly i * (blanks * M))) := by
  have hk : SkipsBlanks (exactly i * (blanks * M)) := hs.skipsBlanks.blanks_mul.exactly_mul hi
  exact ((hM.blanks_mul hs.skipsBlanks).exactly_mul hi).gap_mul hk

/-- An annotation and an access word before what begins solid. -/
theorem IgnoresLayout.annotated_mul {b : String} (hb : ∀ c ∈ b.toList, isBlank c = false)
    (hM : IgnoresLayout M) (hs : BeginsSolid M) :
    IgnoresLayout (exactly b * (gap * (access * M))) :=
  ((hM.access_mul hs.skipsBlanks).gap_mul hs.skipsBlanks.access_mul).exactly_mul hb

/-- `public` before what begins solid. -/
theorem IgnoresLayout.public_mul (hM : IgnoresLayout M) (hs : BeginsSolid M) :
    IgnoresLayout (exactly "public" * (gap * M)) :=
  (hM.gap_mul hs.skipsBlanks).exactly_mul (by decide)

/-- Type arguments between angle brackets. -/
theorem IgnoresLayout.arguments_mul (hM : IgnoresLayout M) :
    IgnoresLayout (blanks * (exactly "<" * (filler * (exactly ">" * M)))) := by
  have hclose : BeginsSolid (exactly ">" * M) := beginsSolid_exactly_mul (by decide) (by decide) M
  have hopen : BeginsSolid (exactly "<" * (filler * (exactly ">" * M))) :=
    beginsSolid_exactly_mul (by decide) (by decide) _
  exact (((hM.exactly_mul (by decide)).filler_mul hclose).exactly_mul (by decide)).blanks_mul
    hopen.skipsBlanks

end Declaration

/-! ## Rules -/

variable {s : Settings} {r : Requirement} {rule : Rule}

/-- The values of the requirement hold no blanks, and its type, if it has one, is not empty. -/
structure Requirement.Unspaced (s : Settings) (r : Requirement) : Prop where
  not_blank : ∀ slot v, r.value? s slot = some v → ∀ c ∈ v.toList, isBlank c = false
  type_ne : r.value? s .type ≠ some ""

/-- What holds of the annotation, the type and the identifier holds of all values of a field. -/
theorem Requirement.forall_value_field {P : String → Prop} {type identifier : String}
    (hb : P s.binding) (ht : P type) (hi : P identifier) :
    ∀ slot v, (Requirement.field type identifier).value? s slot = some v → P v := by
  rintro (_ | _ | _) v hv
  · exact Option.some.inj hv ▸ hb
  · exact Option.some.inj hv ▸ ht
  · exact Option.some.inj hv ▸ hi

open Declaration Rule in
/-- The declarations of values without blanks are blind to layout. -/
theorem Rule.ignoresLayout_declarations (h : r.Unspaced s) (hr : rule ∈ r.rules) :
    IgnoresLayout (r.declarations s rule) := by
  have hb : ∀ c ∈ s.binding.toList, isBlank c = false := h.not_blank .binding _ rfl
  have hi : ∀ c ∈ r.identifier.toList, isBlank c = false := h.not_blank .identifier _ rfl
  cases r with
  | field type identifier =>
    have ht : ∀ c ∈ type.toList, isBlank c = false := h.not_blank .type _ rfl
    have hne : type ≠ "" := fun he => h.type_ne (congrArg some he)
    have hend : IgnoresLayout (gap * (exactly identifier * (blanks * exactly ";"))) :=
      (ignoresLayout_exactly (by decide)).name_mul hi (beginsSolid_exactly (by decide) (by decide))
    have hsolid (M : Language Char) : BeginsSolid (exactly type * M) :=
      beginsSolid_exactly_mul hne ht M
    have hr : rule = annotatedField ∨ rule = publicField ∨ rule = annotatedGenericField ∨
        rule = publicGenericField := by simpa [Requirement.rules, fieldRules] using hr
    rcases hr with rfl | rfl | rfl | rfl
    all_goals simp only [Requirement.declarations, mul_assoc]
    · exact (hend.exactly_mul ht).annotated_mul hb (hsolid _)
    · exact (hend.exactly_mul ht).public_mul (hsolid _)
    · exact (hend.arguments_mul.exactly_mul ht).annotated_mul hb (hsolid _)
    · exact (hend.arguments_mul.exactly_mul ht).public_mul (hsolid _)
  | handler identifier =>
    have hclose : BeginsSolid (exactly ")") := beginsSolid_exactly (by decide) (by decide)
    have hopen : BeginsSolid (exactly "(" * (blanks * exactly ")")) :=
      beginsSolid_exactly_mul (by decide) (by decide) _
    have hparameters : IgnoresLayout (exactly "(" * (blanks * exactly ")")) :=
      ((ignoresLayout_exactly (by decide)).blanks_mul hclose.skipsBlanks).exactly_mul (by decide)
    have hend := (hparameters.name_mul hi hopen).exactly_mul (w := "void") (by decide)
    have hsolid (M : Language Char) : BeginsSolid (exactly "void" * M) :=
      beginsSolid_exactly_mul (by decide) (by decide) M
    have hr : rule = annotatedHandler ∨ rule = publicHandler := by
      simpa [Requirement.rules, handlerRules] using hr
    rcases hr with rfl | rfl
    all_goals simp only [Requirement.declarations, mul_assoc]
    · exact hend.annotated_mul hb (hsolid _)
    · exact hend.public_mul (hsolid _)

/-- A rule has declarations in both of two texts of one layout, or in none. -/
theorem Rule.standsIn_iff_of_squeeze (h : r.Unspaced s) (hr : rule ∈ r.rules) {a b : String}
    (he : squeeze a.toList = squeeze b.toList) : rule.StandsIn s r a ↔ rule.StandsIn s r b :=
  ⟨(ignoresLayout_declarations h hr).occurs he,
    (ignoresLayout_declarations h hr).occurs he.symm⟩

/-- **The same rule accepts in two texts of one layout.** -/
theorem Requirement.acceptedBy?_eq_of_squeeze (h : r.Unspaced s) {a b : String}
    (he : squeeze a.toList = squeeze b.toList) : r.acceptedBy? s a = r.acceptedBy? s b := by
  refine List.find?_congr fun rule hr => ?_
  rw [Bool.eq_iff_iff, Rule.accepts_iff s hr, Rule.accepts_iff s hr]
  exact Rule.standsIn_iff_of_squeeze h hr he

/-- **Layout decides nothing.** Two texts that become one when each run of blanks is replaced by one
space have declarations of the same rules, and the same rule accepts in both. -/
theorem Requirement.same_rule_in_every_layout (h : r.Unspaced s) {a b : String} {t : List Char}
    (ha : Spaced a.toList t) (hb : Spaced b.toList t) :
    (∀ rule ∈ r.rules, rule.StandsIn s r a ↔ rule.StandsIn s r b) ∧
      r.acceptedBy? s a = r.acceptedBy? s b := by
  have he : squeeze a.toList = squeeze b.toList := ha.squeeze_eq.trans hb.squeeze_eq.symm
  exact ⟨fun rule hr => Rule.standsIn_iff_of_squeeze h hr he, acceptedBy?_eq_of_squeeze h he⟩

/-- A generic field over several lines, with runs of blanks between its words and inside its type
arguments, and the same field on one line. -/
theorem Requirement.field_over_lines_is_accepted_as_on_one :
    (Requirement.field "ListView" "xs").Unspaced .standard ∧
      (∃ t, Spaced "@FXML\r\n\tListView <A,\n\n B\t> xs;".toList t ∧
        Spaced "@FXML ListView <A, B > xs;".toList t) ∧
      (Requirement.field "ListView" "xs").acceptedBy? .standard "@FXML ListView <A, B > xs;" =
        some .annotatedGenericField ∧
      (Requirement.field "ListView" "xs").acceptedBy? .standard
          "@FXML\r\n\tListView <A,\n\n B\t> xs;" =
        (Requirement.field "ListView" "xs").acceptedBy? .standard "@FXML ListView <A, B > xs;" := by
  have h : (Requirement.field "ListView" "xs").Unspaced .standard :=
    ⟨Requirement.forall_value_field (by decide) (by decide) (by decide), by decide⟩
  have ha := spaced_squeeze "@FXML\r\n\tListView <A,\n\n B\t> xs;".toList
  have hb := spaced_squeeze "@FXML ListView <A, B > xs;".toList
  have he : squeeze "@FXML\r\n\tListView <A,\n\n B\t> xs;".toList =
      squeeze "@FXML ListView <A, B > xs;".toList := by decide
  rw [he] at ha
  exact ⟨h, ⟨_, ha, hb⟩, by decide +kernel, (same_rule_in_every_layout h ha hb).2⟩

/-- An empty type asks for two gaps in a row, which are not in every layout. -/
example : (Requirement.field "" "x").acceptedBy? .standard "public  x;" = some .publicField ∧
    (Requirement.field "" "x").acceptedBy? .standard "public x;" = none := by
  decide +kernel

end FxmlWiring
