import FxmlWiring.Proofs.Text.Span
import FxmlWiring.Text.Basic

/-! # Texts up to layout

`squeeze` writes every run of blanks as one space. Two texts with the same squeezed text differ only
in their **layout**: where one has blanks the other has blanks too, though not as many or others.

The squeezed text is built from the back, and each character only sees what has been built behind
it (`joinBlank`), so whatever stands in front of two texts of one layout keeps their layouts equal
(`squeeze_append_left`). Main statement: `exists_append_of_squeeze`, by which a place in the
squeezed text is a place in the text. -/

namespace FxmlWiring.Text

/-- A character in front of a squeezed text: a blank joins the blanks that are there already. -/
def joinBlank (c : Char) (t : List Char) : List Char :=
  if isBlank c then
    if t.head? = some ' ' then t else ' ' :: t
  else c :: t

/-- The text with every run of blanks written as one space. -/
def squeeze (s : List Char) : List Char :=
  s.foldr joinBlank []

@[simp] theorem squeeze_nil : squeeze [] = [] := rfl

theorem squeeze_cons (c : Char) (s : List Char) :
    squeeze (c :: s) = joinBlank c (squeeze s) := rfl

/-- A character that is not blank is kept. -/
theorem joinBlank_of_not_blank {c : Char} (hc : isBlank c = false) (t : List Char) :
    joinBlank c t = c :: t := by
  rw [joinBlank, if_neg (by simp [hc])]

/-- A blank begins a run of its own where none is there. -/
theorem joinBlank_of_blank {c : Char} (hc : isBlank c = true) {t : List Char}
    (ht : t.head? ≠ some ' ') : joinBlank c t = ' ' :: t := by
  rw [joinBlank, if_pos hc, if_neg ht]

/-- A blank joins the run that is there. -/
theorem joinBlank_of_joins {c : Char} (hc : isBlank c = true) {t : List Char}
    (ht : t.head? = some ' ') : joinBlank c t = t := by
  rw [joinBlank, if_pos hc, if_pos ht]

/-- All blanks are alike. -/
theorem joinBlank_congr {c d : Char} (hc : isBlank c = true) (hd : isBlank d = true)
    (t : List Char) : joinBlank c t = joinBlank d t := by
  rw [joinBlank, joinBlank, if_pos hc, if_pos hd]

theorem head?_joinBlank {c : Char} (hc : isBlank c = true) (t : List Char) :
    (joinBlank c t).head? = some ' ' := by
  by_cases ht : t.head? = some ' '
  · rw [joinBlank_of_joins hc ht, ht]
  · rw [joinBlank_of_blank hc ht, List.head?_cons]

/-- A second blank adds nothing. -/
theorem joinBlank_joinBlank {c d : Char} (hc : isBlank c = true) (hd : isBlank d = true)
    (t : List Char) : joinBlank c (joinBlank d t) = joinBlank d t :=
  joinBlank_of_joins hc (head?_joinBlank hd t)

/-- A squeezed text begins with a space exactly if the text begins with a blank. -/
theorem head?_squeeze_iff {s : List Char} :
    (squeeze s).head? = some ' ' ↔ ¬ StopsAt isBlank s := by
  cases s with
  | nil => simp
  | cons c s =>
    rw [squeeze_cons, stopsAt_cons, Bool.not_eq_false]
    by_cases hc : isBlank c = true
    · simp only [head?_joinBlank hc, hc]
    · rw [Bool.not_eq_true] at hc
      rw [joinBlank_of_not_blank hc, List.head?_cons, hc]
      have hne : c ≠ ' ' := by
        rintro rfl
        exact absurd hc (by decide)
      simpa using hne

/-! ## Squeezing part by part -/

/-- What stands in front of two texts keeps their layouts equal. -/
theorem squeeze_append_left (u : List Char) {v w : List Char} (h : squeeze v = squeeze w) :
    squeeze (u ++ v) = squeeze (u ++ w) := by
  rw [squeeze, squeeze, List.foldr_append, List.foldr_append]
  exact congrArg (u.foldr joinBlank) h

/-- A text without blanks is not changed, whatever follows it. -/
theorem squeeze_append_of_not_blank {u : List Char} (hu : ∀ c ∈ u, isBlank c = false)
    (v : List Char) : squeeze (u ++ v) = u ++ squeeze v := by
  induction u with
  | nil => rfl
  | cons c u ih =>
    rw [List.forall_mem_cons] at hu
    rw [List.cons_append, squeeze_cons, ih hu.2, joinBlank_of_not_blank hu.1, List.cons_append]

theorem squeeze_of_not_blank {u : List Char} (hu : ∀ c ∈ u, isBlank c = false) :
    squeeze u = u := by
  simpa using squeeze_append_of_not_blank hu []

/-- A run of blanks becomes one space. -/
theorem squeeze_append_of_blank {g : List Char} (hg : ∀ c ∈ g, isBlank c = true) (hne : g ≠ [])
    {v : List Char} (hv : StopsAt isBlank v) : squeeze (g ++ v) = ' ' :: squeeze v := by
  induction g with
  | nil => exact absurd rfl hne
  | cons c g ih =>
    rw [List.forall_mem_cons] at hg
    rw [List.cons_append, squeeze_cons]
    by_cases hgn : g = []
    · subst hgn
      exact joinBlank_of_blank hg.1 fun h => head?_squeeze_iff.1 h hv
    · rw [ih hg.2 hgn, joinBlank_of_joins hg.1 List.head?_cons]

/-- Where the second text does not begin with a blank, the two are squeezed apart. -/
theorem squeeze_append (u : List Char) {v : List Char} (hv : StopsAt isBlank v) :
    squeeze (u ++ v) = squeeze u ++ squeeze v := by
  induction u with
  | nil => rfl
  | cons c u ih =>
    rw [List.cons_append, squeeze_cons, squeeze_cons, ih]
    by_cases hc : isBlank c = true
    · by_cases hu : (squeeze u).head? = some ' '
      · rw [joinBlank_of_joins hc hu, joinBlank_of_joins hc]
        rw [List.head?_append, hu, Option.some_or]
      · -- The blanks before `v`, if `u` is empty, do not meet blanks of `v`.
        rw [joinBlank_of_blank hc hu, joinBlank_of_blank hc, List.cons_append]
        cases hs : squeeze u with
        | nil => exact fun h => head?_squeeze_iff.1 h hv
        | cons d t => simpa [hs] using hu
    · rw [Bool.not_eq_true] at hc
      rw [joinBlank_of_not_blank hc, joinBlank_of_not_blank hc, List.cons_append]

/-- Blanks before a blank add nothing. -/
theorem squeeze_append_of_joins {g v : List Char} (hg : ∀ c ∈ g, isBlank c = true)
    (hv : ¬ StopsAt isBlank v) : squeeze (g ++ v) = squeeze v := by
  induction g with
  | nil => rfl
  | cons c g ih =>
    rw [List.forall_mem_cons] at hg
    rw [List.cons_append, squeeze_cons, ih hg.2, joinBlank_of_joins hg.1 (head?_squeeze_iff.2 hv)]

/-- Blanks between two texts add nothing if there is a blank on one side. -/
theorem squeeze_insert_blanks {u g v : List Char} (hg : ∀ c ∈ g, isBlank c = true)
    (h : (∃ c ∈ u.getLast?, isBlank c = true) ∨ ∃ c ∈ v.head?, isBlank c = true) :
    squeeze (u ++ g ++ v) = squeeze (u ++ v) := by
  rw [List.append_assoc]
  by_cases hv : StopsAt isBlank v
  · rcases h with ⟨c, hc, hb⟩ | ⟨c, hc, hb⟩
    · -- The blank at the end of `u` is in the same run.
      obtain ⟨t, rfl⟩ := List.getLast?_eq_some_iff.1 hc
      rw [List.append_assoc, List.append_assoc]
      apply squeeze_append_left
      rw [← List.append_assoc, squeeze_append_of_blank (by simpa using ⟨hb, hg⟩) (by simp) hv,
        squeeze_append_of_blank (by simpa using hb) (by simp) hv]
    · rw [hv c hc] at hb
      cases hb
  · exact squeeze_append_left u (squeeze_append_of_joins hg hv)

/-- The squeezed text of an end is an end of the squeezed text. -/
theorem exists_squeeze_append (u v : List Char) : ∃ a, squeeze (u ++ v) = a ++ squeeze v := by
  induction u with
  | nil => exact ⟨[], rfl⟩
  | cons c u ih =>
    obtain ⟨a, ha⟩ := ih
    rw [List.cons_append, squeeze_cons, ha, joinBlank]
    split
    · split
      · exact ⟨a, rfl⟩
      · exact ⟨' ' :: a, rfl⟩
    · exact ⟨c :: a, rfl⟩

/-! ## Runs of blanks -/

/-- The second text is the first one with each maximal run of blanks replaced by one space. -/
inductive Spaced : List Char → List Char → Prop
  | nil : Spaced [] []
  | keep {c : Char} {s t : List Char} (hc : isBlank c = false) (h : Spaced s t) :
      Spaced (c :: s) (c :: t)
  /-- No blank follows the run, and so none is in front of the next one. -/
  | run {g s t : List Char} (hne : g ≠ []) (hg : ∀ c ∈ g, isBlank c = true)
      (hs : StopsAt isBlank s) (h : Spaced s t) : Spaced (g ++ s) (' ' :: t)

theorem Spaced.squeeze_eq {s t : List Char} (h : Spaced s t) : squeeze s = t := by
  induction h with
  | nil => rfl
  | keep hc _ ih => rw [squeeze_cons, joinBlank_of_not_blank hc, ih]
  | run hne hg hs _ ih => rw [squeeze_append_of_blank hg hne hs, ih]

/-- Replacing the runs of blanks of a text gives its squeezed text. -/
theorem spaced_squeeze (s : List Char) : Spaced s (squeeze s) := by
  induction s with
  | nil => exact .nil
  | cons c s ih =>
    rw [squeeze_cons]
    by_cases hc : isBlank c = true
    · by_cases hs : StopsAt isBlank s
      · rw [joinBlank_of_blank hc fun h => head?_squeeze_iff.1 h hs]
        exact Spaced.run (List.cons_ne_nil c []) (by simpa using hc) hs ih
      · -- The blank belongs to the run with which `s` begins.
        rw [joinBlank_of_joins hc (head?_squeeze_iff.2 hs)]
        generalize squeeze s = t at ih ⊢
        cases ih with
        | nil => exact absurd stopsAt_nil hs
        | keep hd _ => exact absurd (stopsAt_cons.2 hd) hs
        | @run g _ _ _ hg hs' h =>
          exact Spaced.run (List.cons_ne_nil c g) (List.forall_mem_cons.2 ⟨hc, hg⟩) hs' h
    · rw [Bool.not_eq_true] at hc
      rw [joinBlank_of_not_blank hc]
      exact Spaced.keep hc ih

/-! ## Back from a squeezed text -/

/-- **A place in the squeezed text is a place in the text.** -/
theorem exists_append_of_squeeze {s a b : List Char} (h : squeeze s = a ++ b) :
    ∃ u v, s = u ++ v ∧ squeeze u = a ∧ squeeze v = b := by
  induction s generalizing a with
  | nil =>
    obtain ⟨rfl, rfl⟩ := List.append_eq_nil_iff.1 h.symm
    exact ⟨[], [], rfl, rfl, rfl⟩
  | cons c s ih =>
    -- Nothing has to be cut off for the empty front.
    cases a with
    | nil => exact ⟨[], c :: s, rfl, rfl, h⟩
    | cons d a =>
      rw [squeeze_cons, joinBlank] at h
      split at h
      · rename_i hc
        split at h
        · -- The blank is in the run with which `s` begins, and so in the front.
          obtain ⟨u, v, rfl, hu, hv⟩ := ih h
          have hd : (d :: a).head? = some ' ' := by
            rename_i hs
            rwa [h, List.cons_append, List.head?_cons] at hs
          refine ⟨c :: u, v, rfl, ?_, hv⟩
          rw [squeeze_cons, hu, joinBlank_of_joins hc hd]
        · rename_i hs
          obtain ⟨rfl, hsq⟩ : ' ' = d ∧ squeeze s = a ++ b := List.cons.inj h
          have ha : a.head? ≠ some ' ' := by
            intro ha
            rw [hsq, List.head?_append, ha] at hs
            exact hs rfl
          obtain ⟨u, v, rfl, hu, hv⟩ := ih hsq
          refine ⟨c :: u, v, rfl, ?_, hv⟩
          rw [squeeze_cons, hu, joinBlank_of_blank hc ha]
      · rename_i hc
        rw [Bool.not_eq_true] at hc
        obtain ⟨rfl, hsq⟩ : c = d ∧ squeeze s = a ++ b := List.cons.inj h
        obtain ⟨u, v, rfl, hu, hv⟩ := ih hsq
        exact ⟨c :: u, v, rfl, by rw [squeeze_cons, hu, joinBlank_of_not_blank hc], hv⟩

theorem squeeze_eq_nil_iff {s : List Char} : squeeze s = [] ↔ s = [] := by
  constructor
  · intro h
    cases s with
    | nil => rfl
    | cons c s =>
      rw [squeeze_cons, joinBlank] at h
      split at h
      · split at h
        · rename_i hs
          simp [h] at hs
        · cases h
      · cases h
  · rintro rfl
    rfl

/-- Only a text without blanks is squeezed to one. -/
theorem eq_of_squeeze_eq {s w : List Char} (hw : ∀ c ∈ w, isBlank c = false)
    (h : squeeze s = w) : s = w := by
  have hs : ∀ c ∈ s, isBlank c = false := by
    intro c hc
    by_contra hb
    rw [Bool.not_eq_false] at hb
    -- A blank of `s` leaves a space in `w`.
    obtain ⟨u, v, rfl⟩ := List.append_of_mem hc
    obtain ⟨a, ha⟩ := exists_squeeze_append u (c :: v)
    have hm : ' ' ∈ squeeze (c :: v) := List.mem_of_head? (head?_joinBlank hb (squeeze v))
    have := hw ' ' (by rw [← h, ha]; exact List.mem_append_right a hm)
    exact absurd this (by decide)
  rw [← h, squeeze_of_not_blank hs]

/-- Only a run of blanks is squeezed to one space. -/
theorem blank_of_squeeze_eq_space {s : List Char} (h : squeeze s = [' ']) :
    s ≠ [] ∧ ∀ c ∈ s, isBlank c = true := by
  refine ⟨fun hs => ?_, fun c hc => ?_⟩
  · rw [hs] at h
    cases h
  by_contra hb
  rw [Bool.not_eq_true] at hb
  obtain ⟨u, v, rfl⟩ := List.append_of_mem hc
  -- A character that is not blank would be there in the squeezed text.
  rw [squeeze_append u (stopsAt_cons.2 hb), squeeze_cons, joinBlank_of_not_blank hb] at h
  have hm : c ∈ [' '] := by rw [← h]; simp
  rw [List.mem_singleton.1 hm] at hb
  exact absurd hb (by decide)

end FxmlWiring.Text
