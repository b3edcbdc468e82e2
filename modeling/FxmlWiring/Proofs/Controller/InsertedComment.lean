import FxmlWiring.Proofs.Controller.Seam
import FxmlWiring.Proofs.Rule.Acceptance
import FxmlWiring.Proofs.Rule.Separation

/-! # Inserted comments

A block comment that is inserted into a text takes the indentation on both sides and a line break
behind it. What is left of the text are two parts, `keptBefore` and `keptBehind`; without the
comment only indentation and a line break stand between them (`exists_strip_append_eq`).

So a declaration that was found can be lost, but only where two of its words run together. -/

namespace FxmlWiring

open Text Controller Controller.Comment

/-! ## What an inserted comment leaves -/

namespace Controller.Comment

/-- What is left of the text before a block comment. -/
def keptBefore (p : List Char) : List Char :=
  (strip p).rdropWhile isIndent

/-- What is left of the text behind a block comment. -/
def keptBehind (q : List Char) : List Char :=
  strip (dropBreak (q.dropWhile isIndent))

theorem exists_append_of_keptBefore (p : List Char) :
    ∃ w, (∀ c ∈ w, isIndent c = true) ∧ strip p = keptBefore p ++ w :=
  ⟨(strip p).rtakeWhile isIndent, fun _ => List.mem_rtakeWhile_imp,
    List.rdropWhile_append_rtakeWhile.symm⟩

theorem keptBefore_of_leavesIndent {p x w : List Char} (hx : x.rdropWhile isIndent = x)
    (h : LeavesIndent p x w) : keptBefore p = x := by
  have hw : ∀ c ∈ w.reverse, isIndent c = true := fun c hc => h.isIndent c (List.mem_reverse.1 hc)
  rw [keptBefore, h.strip_eq, List.rdropWhile, List.reverse_append,
    List.dropWhile_append_of_pos hw]
  exact hx

theorem keptBefore_of_leavesTrail {p x v : List Char} (hx : x.rdropWhile isIndent = x)
    (h : LeavesTrail p x v) : keptBefore p = x := by
  rw [keptBefore, h.strip_eq, hx]

/-- A text that begins with a block comment leaves the same behind a block comment. -/
theorem keptBehind_of_afterBlock {q r : List Char} (h : afterBlock q = some r) :
    keptBehind q = strip r := by
  obtain ⟨w, hq, hw⟩ := exists_append_dropWhile isIndent q
  have hd : afterBlock (q.dropWhile isIndent) = some r := by
    rw [← afterBlock_append hw, ← hq, h]
  have hslash : dropBreak (q.dropWhile isIndent) = q.dropWhile isIndent := by
    rw [afterBlock] at h
    split at h
    · rename_i body hb
      rw [hb]
      rfl
    · cases h
  rw [keptBehind, hslash]
  exact strip_of_afterComment (by rw [afterComment, hd, Option.some_or])

theorem afterComment_cons_of_isBreak {c : Char} (hc : isBreak c = true) (s : List Char) :
    afterComment (c :: s) = none := by
  refine afterComment_cons_of_plain ?_ ?_ s
  · simp only [isBreak, Bool.or_eq_true, decide_eq_true_eq] at hc
    rcases hc with (hc | rfl) | rfl
    · exact isIndent_of_endsLine hc
    · decide
    · decide
  · rintro rfl
    exact absurd hc (by decide)

/-- A line break is kept where no block comment is before it. -/
theorem IsLeadingBreak.strip_append {b rest : List Char} (h : IsLeadingBreak b rest) :
    (∀ c ∈ b, isBreak c = true) ∧ strip (b ++ rest) = b ++ strip rest := by
  cases h with
  | pair =>
    refine ⟨by decide, ?_⟩
    rw [List.cons_append, strip_cons (afterComment_cons_of_isBreak (by decide) _), List.cons_append,
      strip_cons (afterComment_cons_of_isBreak (by decide) _)]
    rfl
  | @single c _ hc =>
    rw [mem_breaks_iff] at hc
    refine ⟨by simpa using hc, ?_⟩
    exact strip_cons (afterComment_cons_of_isBreak hc _)
  | absent => exact ⟨by simp, rfl⟩

/-- A block comment takes indentation and a line break of the text behind it. -/
theorem exists_append_of_keptBehind (q : List Char) :
    ∃ g, (∀ c ∈ g, isIndent c = true ∨ isBreak c = true) ∧ strip q = g ++ keptBehind q := by
  cases h : afterBlock q with
  | some r =>
    refine ⟨[], by simp, ?_⟩
    rw [keptBehind_of_afterBlock h]
    exact strip_of_afterComment (by rw [afterComment, h, Option.some_or])
  | none =>
    obtain ⟨w, hq, hw⟩ := exists_append_dropWhile isIndent q
    obtain ⟨b, hb, hd⟩ := dropBreak_eq_iff.1 (rfl : dropBreak (q.dropWhile isIndent) = _)
    obtain ⟨hbreak, hs⟩ := hb.strip_append
    refine ⟨w ++ b, ?_, ?_⟩
    · intro c hc
      exact (List.mem_append.1 hc).imp (hw c) (hbreak c)
    · rw [← hd] at hs
      rw [hq, afterBlock_append hw] at h
      rw [hq, strip_indent_append hw h, hs, List.append_assoc, ← hq]
      rfl

/-- A trailing block comment takes of a text that follows what any block comment takes, or nothing
if it has its line break already. -/
theorem LeavesTrail.dropBreak_append {p x v : List Char} (h : LeavesTrail p x v) (t : List Char) :
    dropBreak ((v ++ t).dropWhile isIndent) = dropBreak (t.dropWhile isIndent) ∨
      dropBreak ((v ++ t).dropWhile isIndent) = t := by
  by_cases hv : v.dropWhile isIndent = []
  · rw [List.dropWhile_append, if_pos (by simp [hv])]
    exact Or.inl rfl
  · rw [List.dropWhile_append, if_neg (by simpa using hv)]
    rcases h.isLeadingBreak.dropBreak_append t with hb | hb | ⟨-, u, rfl, hb⟩
    · exact absurd hb hv
    · exact Or.inr hb
    · rw [hb]
      exact Or.inl rfl

variable {p : List Char}

/-- A block comment that follows a text takes the indentation at its end. -/
theorem strip_append_of_afterBlock (hp : EndsOutside p) (hs : p.getLast? ≠ some '/')
    {t r : List Char} (ht : t.head? = some '/') (h : afterBlock t = some r) :
    strip (p ++ t) = keptBefore p ++ strip r := by
  have hd : dropBreak (t.dropWhile isIndent) = t := by
    obtain ⟨u, rfl⟩ := List.head?_eq_some_iff.1 ht
    rw [dropWhile_of_stopsAt (stopsAt_cons.2 rfl)]
    rfl
  have hstrip {w : List Char} (hw : ∀ c ∈ w, isIndent c = true) : strip (w ++ t) = strip r :=
    strip_of_afterComment (by rw [afterComment, afterBlock_append hw, h, Option.some_or])
  obtain ⟨x, hx, ⟨w, hw⟩ | ⟨v, hv⟩⟩ := exists_seam hp hs
  · rw [hw.strip_append, keptBefore_of_leavesIndent hx hw, hstrip hw.isIndent]
  · -- A comment at the end of the text takes nothing of this one.
    have hv' : dropBreak ((v ++ t).dropWhile isIndent) = t :=
      (hv.dropBreak_append t).elim (·.trans hd) id
    rw [hv.strip_append, keptBefore_of_leavesTrail hx hv, hv']
    exact congrArg (x ++ ·) (hstrip (w := []) (by simp))

/-- **What an inserted block comment leaves** is what stands before it, less indentation, and what
stands behind it, less indentation and a line break. -/
theorem strip_insert (hp : EndsOutside p) (hs : p.getLast? ≠ some '/') {b : List Char}
    (hb : ¬ ['*', '/'] <:+: b) (q : List Char) :
    strip (p ++ '/' :: '*' :: (b ++ '*' :: '/' :: q)) = keptBefore p ++ keptBehind q := by
  refine strip_append_of_afterBlock hp hs rfl ?_
  have hc : afterClose (b ++ '*' :: '/' :: q) = some q := afterClose_eq_some_iff.2 ⟨b, rfl, hb⟩
  rw [afterBlock, dropWhile_of_stopsAt (stopsAt_cons.2 rfl)]
  simp only [hc, Option.map_some]

/-- **Without the comment** the two texts leave all that each of them leaves alone, or as much as
beside a comment. -/
theorem strip_append_eq_or (hp : EndsOutside p) (hs : p.getLast? ≠ some '/') (q : List Char) :
    strip (p ++ q) = keptBefore p ++ keptBehind q ∨ strip (p ++ q) = strip p ++ strip q := by
  obtain ⟨x, hx, ⟨w, hw⟩ | ⟨v, hv⟩⟩ := exists_seam hp hs
  · -- The indentation at the end is kept, unless the second text begins with a block comment.
    rw [hw.strip_append, keptBefore_of_leavesIndent hx hw]
    cases h : afterBlock q with
    | some r =>
      rw [keptBehind_of_afterBlock h]
      refine Or.inl (congrArg (x ++ ·) (strip_of_afterComment ?_))
      rw [afterComment, afterBlock_append hw.isIndent, h, Option.some_or]
    | none =>
      rw [strip_indent_append hw.isIndent h, hw.strip_eq, List.append_assoc]
      exact Or.inr rfl
  · -- The comment at the end takes its share of the second text, unless it has its line break.
    rw [hv.strip_append, keptBefore_of_leavesTrail hx hv, hv.strip_eq]
    rcases hv.dropBreak_append q with h | h
    · rw [h]
      exact Or.inl rfl
    · rw [h]
      exact Or.inr rfl

/-- Only indentation and line breaks stand between what a comment would leave. -/
theorem exists_strip_append_eq (hp : EndsOutside p) (hs : p.getLast? ≠ some '/') (q : List Char) :
    ∃ g, (∀ c ∈ g, isIndent c = true ∨ isBreak c = true) ∧
      strip (p ++ q) = keptBefore p ++ g ++ keptBehind q := by
  rcases strip_append_eq_or hp hs q with h | h
  · exact ⟨[], by simp, by rw [h, List.append_nil]⟩
  · obtain ⟨w, hw, hpw⟩ := exists_append_of_keptBefore p
    obtain ⟨g, hg, hqg⟩ := exists_append_of_keptBehind q
    refine ⟨w ++ g, ?_, by rw [h, hpw, hqg]; simp⟩
    intro c hc
    exact (List.mem_append.1 hc).elim (fun h => Or.inl (hw c h)) (hg c)

end Controller.Comment

/-! ## Declarations beside an inserted comment -/

variable {s : Settings} {r : Requirement}

/-- What is accepted in a part of a text is accepted in the text. -/
theorem Requirement.isSome_acceptedBy?_mono {a b : String} (h : a.toList <:+: b.toList)
    (ha : (r.acceptedBy? s a).isSome) : (r.acceptedBy? s b).isSome := by
  rw [Requirement.isSome_acceptedBy?_iff] at ha ⊢
  obtain ⟨rule, hr, w, hw, hwa⟩ := ha
  exact ⟨rule, hr, w, hw, hwa.trans h⟩

/-- What is accepted in a text is accepted without the layout at one place, if no words run
together. -/
theorem Requirement.Solid.isSome_acceptedBy? (h : r.Solid s) {x g y : List Char}
    (hg : ∀ c ∈ g, isIndent c = true ∨ isBreak c = true) (hn : ¬ r.RunsTogether s x y)
    (ha : (r.acceptedBy? s (.ofList (x ++ g ++ y))).isSome) :
    (r.acceptedBy? s (.ofList (x ++ y))).isSome := by
  rw [Requirement.isSome_acceptedBy?_iff] at ha ⊢
  obtain ⟨rule, hr, hs⟩ := ha
  refine ⟨rule, hr, Rule.standsIn_of_layout h hr (fun c hc => ?_) hn hs⟩
  rw [Declaration.isLayout, Bool.or_eq_true]
  exact (hg c hc).imp_left isBlank_of_isIndent

/-- **A declaration survives a block comment beside a blank, unless its words run together.** The
comment stands behind a blank, outside any comment. What is left are the parts before and behind it;
if they are all that the text has without the comment, nothing changes. Otherwise a requirement that
was accepted still is if one of the parts has a declaration, or if the values of the requirement
hold no layout and no two words of it run together between the parts. -/
theorem declaration_survives_inserted_comment {p b : String} (hp : EndsOutside p.toList)
    (hl : ∃ c ∈ p.toList.getLast?, isBlank c = true) (hb : ¬ ['*', '/'] <:+: b.toList)
    (q : String) :
    stripComments (p ++ "/*" ++ b ++ "*/" ++ q) =
        .ofList (keptBefore p.toList ++ keptBehind q.toList) ∧
      (keptBefore p.toList = strip p.toList → keptBehind q.toList = strip q.toList →
        stripComments (p ++ "/*" ++ b ++ "*/" ++ q) = stripComments (p ++ q)) ∧
      ∀ (s : Settings) (r : Requirement), (r.acceptedBy? s (stripComments (p ++ q))).isSome →
        (r.acceptedBy? s (.ofList (keptBefore p.toList))).isSome ∨
          (r.acceptedBy? s (.ofList (keptBehind q.toList))).isSome ∨
          r.Solid s ∧ ¬ r.RunsTogether s (keptBefore p.toList) (keptBehind q.toList) →
        (r.acceptedBy? s (stripComments (p ++ "/*" ++ b ++ "*/" ++ q))).isSome := by
  have hs : p.toList.getLast? ≠ some '/' := by
    obtain ⟨c, hc, hcb⟩ := hl
    rw [Option.mem_def.1 hc]
    rintro h
    rw [Option.some.inj h] at hcb
    cases hcb
  have htext : (p ++ "/*" ++ b ++ "*/" ++ q).toList =
      p.toList ++ '/' :: '*' :: (b.toList ++ '*' :: '/' :: q.toList) := by simp
  have hleft : stripComments (p ++ "/*" ++ b ++ "*/" ++ q) =
      .ofList (keptBefore p.toList ++ keptBehind q.toList) := by
    rw [stripComments, htext, strip_insert hp hs hb]
  have hsame : (p ++ q).toList = p.toList ++ q.toList := String.toList_append
  refine ⟨hleft, fun hbefore hbehind => ?_, fun s r ha h => ?_⟩
  · rw [hleft, stripComments, hsame]
    rcases strip_append_eq_or hp hs q.toList with h | h
    · rw [h]
    · rw [h, hbefore, hbehind]
  · rw [hleft]
    rcases h with h | h | ⟨hr, hn⟩
    · refine Requirement.isSome_acceptedBy?_mono ?_ h
      rw [String.toList_ofList, String.toList_ofList]
      exact (List.prefix_append _ _).isInfix
    · refine Requirement.isSome_acceptedBy?_mono ?_ h
      rw [String.toList_ofList, String.toList_ofList]
      exact (List.suffix_append _ _).isInfix
    · obtain ⟨g, hg, hpq⟩ := exists_strip_append_eq hp hs q.toList
      rw [stripComments, hsame, hpq] at ha
      exact hr.isSome_acceptedBy? hg hn ha

/-- A comment between the name and the end of a field takes all blanks there, and they are not
needed. -/
theorem declaration_survives_comment_before_its_end :
    EndsOutside "@FXML Button ok ".toList ∧
      (∃ c ∈ "@FXML Button ok ".toList.getLast?, isBlank c = true) ∧
      ¬ ['*', '/'] <:+: " old ".toList ∧
      (Requirement.field "Button" "ok").Solid .standard ∧
      ((Requirement.field "Button" "ok").acceptedBy? .standard
        (stripComments ("@FXML Button ok " ++ "/*" ++ " old " ++ "*/" ++ " ;"))).isSome := by
  have hp : EndsOutside "@FXML Button ok ".toList := endsOutside_of_not_mem (by decide)
  have hl : ∃ c ∈ "@FXML Button ok ".toList.getLast?, isBlank c = true := ⟨' ', by decide, rfl⟩
  have hb : ¬ ['*', '/'] <:+: " old ".toList := by decide
  have hr : (Requirement.field "Button" "ok").Solid .standard :=
    ⟨Requirement.forall_value_field (by decide) (by decide) (by decide), by decide⟩
  have hfound : stripComments ("@FXML Button ok " ++ " ;") = "@FXML Button ok  ;" := by
    cbv
  have hbefore : keptBefore "@FXML Button ok ".toList = "@FXML Button ok".toList := by
    cbv
  have hbehind : keptBehind " ;".toList = [';'] := by
    cbv
  refine ⟨hp, hl, hb, hr, (declaration_survives_inserted_comment hp hl hb " ;").2.2 .standard _ ?_
    (Or.inr (Or.inr ⟨hr, ?_⟩))⟩
  · rw [hfound]
    decide +kernel
  · rw [hbefore, hbehind]
    rintro ⟨-, -, k, hk, hm⟩
    revert k
    decide

/-- A declaration that a block comment beside a blank, outside any comment, makes a missing item. -/
structure IsLost (s : Settings) (r : Requirement) (p b q : String) : Prop where
  outside : EndsOutside p.toList
  blank : ∃ c ∈ p.toList.getLast?, isBlank c = true
  body : ¬ ['*', '/'] <:+: b.toList
  found : (r.acceptedBy? s (stripComments (p ++ q))).isSome
  lost : r.acceptedBy? s (stripComments (p ++ "/*" ++ b ++ "*/" ++ q)) = none

/-- A declaration is lost if it is in what is left without the comment, and not in what is left
with it. -/
theorem IsLost.of_strip {p b q : String} (t u : String) (hp : '/' ∉ p.toList)
    (hl : p.toList.getLast?.any isBlank = true) (hb : ¬ ['*', '/'] <:+: b.toList)
    (ht : stripComments (p ++ q) = t) (hu : stripComments (p ++ "/*" ++ b ++ "*/" ++ q) = u)
    (hf : (r.acceptedBy? s t).isSome = true) (hn : r.acceptedBy? s u = none) :
    IsLost s r p b q := by
  obtain ⟨c, hc, hcb⟩ := (Option.any_eq_true _ _).1 hl
  exact ⟨endsOutside_of_not_mem hp, ⟨c, hc, hcb⟩, hb, ht ▸ hf, hu ▸ hn⟩

/-- **Declarations are lost to a comment**: between a type and a name, between empty brackets, and
for a type that is empty, a name with a line break and blanks in it, and a name that begins with a
line separator. -/
theorem declaration_is_lost_to_inserted_comment :
    IsLost .standard (.field "Button" "ok") "@FXML private Button " " ok " " ok;" ∧
      IsLost .standard (.field "List" "xs") "public List< " "" "> xs;" ∧
      IsLost .standard (.field "" "id") "public\n " "" "id;" ∧
      IsLost .standard (.field "T" "a\n b") "public T a\n " "" "b;" ∧
      IsLost .standard (.field "T" "\u2028b") "public T\n" "" "\u2028b;" := by
  refine ⟨?_, ?_, ?_, ?_, ?_⟩
  · exact .of_strip "@FXML private Button  ok;" "@FXML private Buttonok;" (by decide) (by decide)
      (by decide) (by cbv) (by cbv) (by decide +kernel) (by decide +kernel)
  · exact .of_strip "public List< > xs;" "public List<> xs;" (by decide) (by decide)
      (by decide) (by cbv) (by cbv) (by decide +kernel) (by decide +kernel)
  · exact .of_strip "public\n id;" "public\nid;" (by decide) (by decide)
      (by decide) (by cbv) (by cbv) (by decide +kernel) (by decide +kernel)
  · exact .of_strip "public T a\n b;" "public T a\nb;" (by decide) (by decide)
      (by decide) (by cbv) (by cbv) (by decide +kernel) (by decide +kernel)
  · exact .of_strip "public T\n\u2028b;" "public T\nb;" (by decide) (by decide)
      (by decide) (by cbv) (by cbv) (by decide +kernel) (by decide +kernel)

end FxmlWiring
