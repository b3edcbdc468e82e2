import FxmlWiring.Rule.Language

/-! # What the search for a declaration finds

`Piece.fit` backtracks over the fronts that its pieces may take. This file compares it with the
words of the pieces, which are said without a search:

* **soundness**, `Piece.exists_of_fit`: what has been taken is a word of the pieces;
* **completeness**, `Piece.isSome_fit`: a word at the front is never missed, whatever follows it;
* `Piece.isSome_find?_iff`: a search succeeds exactly on the texts in which a word stands. -/

namespace FxmlWiring.Piece

open Text

variable {α : Type} {p : Char → Bool} {k : List Char → Option α}

/-! ## Fronts of one class of characters -/

/-- If the rest goes on after some run, there is an answer. -/
theorem isSome_longest {u v : List Char} (hu : ∀ c ∈ u, p c = true) (hv : (k v).isSome) :
    (longest p k (u ++ v)).isSome := by
  induction u with
  | nil =>
    -- The empty run is the last one to be tried, also where longer ones are there.
    cases v with
    | nil => exact hv
    | cons c v =>
      rw [List.nil_append, longest]
      split
      · rw [Option.isSome_or, hv, Bool.or_true]
      · exact hv
  | cons c u ih =>
    rw [List.cons_append, longest, if_pos (hu c List.mem_cons_self), Option.isSome_or,
      ih fun d hd => hu d (List.mem_cons_of_mem c hd), Bool.true_or]

/-- An answer for the longest run is an answer for some run, and no longer run has one. -/
theorem exists_of_longest {s : List Char} {x : α} (h : longest p k s = some x) :
    ∃ u v, s = u ++ v ∧ (∀ c ∈ u, p c = true) ∧ k v = some x ∧
      ∀ u' v', s = u' ++ v' → (∀ c ∈ u', p c = true) → (k v').isSome → u'.length ≤ u.length := by
  induction s with
  | nil =>
    refine ⟨[], [], rfl, by simp, h, fun u' v' hs _ _ => ?_⟩
    obtain rfl := (List.append_eq_nil_iff.1 hs.symm).1
    exact Nat.le_refl _
  | cons c s ih =>
    rw [longest] at h
    by_cases hc : p c = true
    · -- The run that takes `c` is tried first, and the empty one only if it fails.
      rw [if_pos hc, Option.or_eq_some_iff] at h
      rcases h with h | ⟨hn, h⟩
      · obtain ⟨u, v, rfl, hu, hv, hmax⟩ := ih h
        refine ⟨c :: u, v, rfl, List.forall_mem_cons.2 ⟨hc, hu⟩, hv, fun u' v' hs hu' hv' => ?_⟩
        cases u' with
        | nil => exact Nat.zero_le _
        | cons d u' =>
          exact Nat.succ_le_succ
            (hmax u' v' (List.cons.inj hs).2 (List.forall_mem_cons.1 hu').2 hv')
      · refine ⟨[], c :: s, rfl, by simp, h, fun u' v' hs hu' hv' => ?_⟩
        cases u' with
        | nil => exact Nat.le_refl _
        | cons d u' =>
          -- A run that takes `c` would have been an answer.
          obtain rfl : s = u' ++ v' := (List.cons.inj hs).2
          have hsome := isSome_longest (List.forall_mem_cons.1 hu').2 hv'
          rw [hn] at hsome
          cases hsome
    · rw [if_neg hc] at h
      refine ⟨[], c :: s, rfl, by simp, h, fun u' v' hs hu' _ => ?_⟩
      cases u' with
      | nil => exact Nat.le_refl _
      | cons d u' =>
        rw [(List.cons.inj hs).1] at hc
        exact absurd (hu' d List.mem_cons_self) hc

/-- If the rest goes on after some run of at least one character, there is an answer. -/
theorem isSome_longestSome {u v : List Char} (hne : u ≠ []) (hu : ∀ c ∈ u, p c = true)
    (hv : (k v).isSome) : (longestSome p k (u ++ v)).isSome := by
  cases u with
  | nil => exact absurd rfl hne
  | cons c u =>
    rw [List.cons_append, longestSome, if_pos (hu c List.mem_cons_self)]
    exact isSome_longest (fun d hd => hu d (List.mem_cons_of_mem c hd)) hv

/-- An answer for the longest run of at least one character is an answer for such a run, and no
longer run has one. -/
theorem exists_of_longestSome {s : List Char} {x : α} (h : longestSome p k s = some x) :
    ∃ u v, s = u ++ v ∧ u ≠ [] ∧ (∀ c ∈ u, p c = true) ∧ k v = some x ∧
      ∀ u' v', s = u' ++ v' → (∀ c ∈ u', p c = true) → (k v').isSome → u'.length ≤ u.length := by
  cases s with
  | nil => cases h
  | cons c s =>
    rw [longestSome] at h
    by_cases hc : p c = true
    · rw [if_pos hc] at h
      obtain ⟨u, v, rfl, hu, hv, hmax⟩ := exists_of_longest h
      refine ⟨c :: u, v, rfl, List.cons_ne_nil c u, List.forall_mem_cons.2 ⟨hc, hu⟩, hv,
        fun u' v' hs hu' hv' => ?_⟩
      cases u' with
      | nil => exact Nat.zero_le _
      | cons d u' =>
        exact Nat.succ_le_succ
          (hmax u' v' (List.cons.inj hs).2 (List.forall_mem_cons.1 hu').2 hv')
    · rw [if_neg hc] at h
      cases h

/-! ## Leading words -/

theorem after?_eq_some_iff {w s rest : List Char} : after? w s = some rest ↔ s = w ++ rest := by
  rw [after?]
  constructor
  · intro h
    split at h
    · rename_i hw
      obtain ⟨t, rfl⟩ := List.isPrefixOf_iff_prefix.1 hw
      rw [List.drop_left] at h
      rw [Option.some.inj h]
    · cases h
  · rintro rfl
    rw [if_pos (List.isPrefixOf_iff_prefix.2 (List.prefix_append w rest)), List.drop_left]

@[simp] theorem after?_append (w s : List Char) : after? w (w ++ s) = some s :=
  after?_eq_some_iff.2 rfl

/-! ## Pieces in a row -/

/-- The first piece takes one of its words, and the others go on behind it. -/
theorem exists_of_fit_cons {q : Piece} {ps : List Piece} {s rest : List Char}
    (h : fit (q :: ps) s = some rest) :
    ∃ u v, s = u ++ v ∧ q.IsWord u ∧ fit ps v = some rest := by
  cases q with
  | literal w =>
    obtain ⟨v, hw, hv⟩ := Option.bind_eq_some_iff.1 h
    exact ⟨w, v, after?_eq_some_iff.1 hw, rfl, hv⟩
  | gap =>
    obtain ⟨u, v, rfl, hne, hu, hv, -⟩ := exists_of_longestSome h
    exact ⟨u, v, rfl, ⟨hne, hu⟩, hv⟩
  | optionalGap =>
    obtain ⟨u, v, rfl, hu, hv, -⟩ := exists_of_longest h
    exact ⟨u, v, rfl, hu, hv⟩
  | filler =>
    obtain ⟨u, v, rfl, hne, -, hv, -⟩ := exists_of_longestSome h
    exact ⟨u, v, rfl, hne, hv⟩
  | access =>
    rw [fit, Option.or_eq_some_iff] at h
    rcases h with h | ⟨-, h⟩
    · obtain ⟨w, hw, hb⟩ := List.exists_of_findSome?_eq_some h
      obtain ⟨t, ht, hl⟩ := Option.bind_eq_some_iff.1 hb
      obtain ⟨g, v, rfl, hne, hg, hv, -⟩ := exists_of_longestSome hl
      refine ⟨w.toList ++ g, v, ?_, Or.inr ⟨w, hw, g, ⟨hne, hg⟩, rfl⟩, hv⟩
      rw [after?_eq_some_iff.1 ht, List.append_assoc]
    · exact ⟨[], s, rfl, Or.inl rfl, h⟩

/-- **Soundness.** What the pieces take off the front of a text is a word of them. -/
theorem exists_of_fit {ps : List Piece} {s rest : List Char} (h : fit ps s = some rest) :
    ∃ u, s = u ++ rest ∧ AreWords ps u := by
  induction ps generalizing s with
  | nil => exact ⟨[], Option.some.inj h, rfl⟩
  | cons q ps ih =>
    obtain ⟨u, v, rfl, hu, hv⟩ := exists_of_fit_cons h
    obtain ⟨w, rfl, hw⟩ := ih hv
    exact ⟨u ++ w, (List.append_assoc u w rest).symm, u, w, rfl, hu, hw⟩

/-- **Completeness.** Pieces fit wherever a word of them stands at the front of the text. -/
theorem isSome_fit {ps : List Piece} {u : List Char} (h : AreWords ps u) (v : List Char) :
    (fit ps (u ++ v)).isSome := by
  induction ps generalizing u with
  | nil => rfl
  | cons q ps ih =>
    obtain ⟨a, b, rfl, ha, hb⟩ := h
    -- Whatever `q` takes beyond its word `a`, the rest fits where `a` ends.
    have hk : (fit ps (b ++ v)).isSome := ih hb
    rw [List.append_assoc]
    cases q with
    | literal w =>
      obtain rfl : a = w := ha
      rw [fit, after?_append]
      exact hk
    | gap => exact isSome_longestSome ha.1 ha.2 hk
    | optionalGap => exact isSome_longest ha hk
    | filler => exact isSome_longestSome ha (by simp) hk
    | access =>
      rw [fit, Option.isSome_or, Bool.or_eq_true]
      rcases ha with rfl | ⟨w, hw, g, hg, rfl⟩
      · exact Or.inr hk
      · refine Or.inl (List.findSome?_isSome_iff.2 ⟨w, hw, ?_⟩)
        rw [List.append_assoc, after?_append]
        exact isSome_longestSome hg.1 hg.2 hk

/-- Pieces fit exactly where a word of them stands at the front of the text. -/
theorem isSome_fit_iff {ps : List Piece} {s : List Char} :
    (fit ps s).isSome ↔ ∃ u v, s = u ++ v ∧ AreWords ps u := by
  constructor
  · intro h
    obtain ⟨rest, hr⟩ := Option.isSome_iff_exists.1 h
    obtain ⟨u, hu, hw⟩ := exists_of_fit hr
    exact ⟨u, rest, hu, hw⟩
  · rintro ⟨u, v, rfl, hw⟩
    exact isSome_fit hw v

/-! ## Searching -/

/-- A search looks at one more starting place. -/
theorem isSome_find?_cons (ps : List Piece) (offset : Nat) (c : Char) (s : List Char) :
    (find? ps offset (c :: s)).isSome ↔
      (fit ps (c :: s)).isSome ∨ (find? ps (offset + 1) s).isSome := by
  rw [find?]
  split
  · rename_i h
    simp [h]
  · rename_i h
    simp [h]

/-- **A search succeeds exactly on the texts in which a word of the pieces stands.** -/
theorem isSome_find?_iff (ps : List Piece) (offset : Nat) (s : List Char) :
    (find? ps offset s).isSome ↔ ∃ w, AreWords ps w ∧ w <:+: s := by
  induction s generalizing offset with
  | nil =>
    have hf : (find? ps offset []).isSome ↔ (fit ps []).isSome := by
      rw [find?]
      split <;> simp_all
    rw [hf, isSome_fit_iff]
    constructor
    · rintro ⟨u, v, hs, hw⟩
      exact ⟨u, hw, [], v, by simpa using hs.symm⟩
    · rintro ⟨w, hw, hs⟩
      obtain rfl := List.eq_nil_of_infix_nil hs
      exact ⟨[], [], rfl, hw⟩
  | cons c s ih =>
    rw [isSome_find?_cons, ih, isSome_fit_iff]
    constructor
    · rintro (⟨u, v, hs, hw⟩ | ⟨w, hw, hs⟩)
      · exact ⟨u, hw, [], v, hs.symm⟩
      · exact ⟨w, hw, hs.trans (List.suffix_cons c s).isInfix⟩
    · rintro ⟨w, hw, hs⟩
      -- A word in `c :: s` stands at its front or in `s`.
      rcases List.infix_cons_iff.1 hs with ⟨v, hv⟩ | hs
      · exact Or.inl ⟨w, v, hv.symm, hw⟩
      · exact Or.inr ⟨w, hw, hs⟩

end FxmlWiring.Piece
