import FxmlWiring.Text.LineBreak

/-! # Texts with one kind of line break

What `unifyBreaks` makes of the characters of a text, one by one, and as a relation: a text is
**unified** to another one if each break is a line feed in it and nothing else differs
(`unified_iff`). -/

namespace FxmlWiring.Text

/-- A character that is no carriage return stays what it is. -/
theorem unifyBreaks_cons {c : Char} (hc : c ≠ '\r') (s : List Char) :
    unifyBreaks (c :: s) = c :: unifyBreaks s := by
  rw [unifyBreaks.eq_2 c s fun _ h => absurd h hc, if_neg hc]

/-- A carriage return in front of a line feed adds nothing. -/
theorem unifyBreaks_pair (s : List Char) :
    unifyBreaks ('\r' :: '\n' :: s) = unifyBreaks ('\n' :: s) := by
  rw [unifyBreaks_cons (c := '\n') (by decide)]
  rfl

/-- Any other carriage return is a line feed. -/
theorem unifyBreaks_return {s : List Char} (hs : s.head? ≠ some '\n') :
    unifyBreaks ('\r' :: s) = '\n' :: unifyBreaks s := by
  rw [unifyBreaks.eq_2 '\r' s fun t _ ht => hs (by rw [ht]; rfl), if_pos rfl]

theorem head?_unifyBreaks_return (s : List Char) :
    (unifyBreaks ('\r' :: s)).head? = some '\n' := by
  by_cases hs : s.head? = some '\n'
  · obtain ⟨u, rfl⟩ := List.head?_eq_some_iff.1 hs
    rfl
  · rw [unifyBreaks_return hs, List.head?_cons]

/-- Only a line feed can stand for something else. -/
theorem unifyBreaks_eq_cons {c : Char} (hc : c ≠ '\n') {s t : List Char}
    (h : unifyBreaks s = c :: t) : ∃ u, s = c :: u ∧ t = unifyBreaks u := by
  cases s with
  | nil => cases h
  | cons d s =>
    by_cases hd : d = '\r'
    · subst hd
      have hn := head?_unifyBreaks_return s
      rw [h, List.head?_cons] at hn
      exact absurd (Option.some.inj hn) hc
    · rw [unifyBreaks_cons hd] at h
      obtain ⟨rfl, rfl⟩ := List.cons.inj h
      exact ⟨s, rfl, rfl⟩

/-- The second text is the first one with a line feed in place of every line break. -/
inductive Unified : List Char → List Char → Prop
  | nil : Unified [] []
  /-- A carriage return and the line feed after it are one break. -/
  | pair {s t : List Char} (h : Unified s t) : Unified ('\r' :: '\n' :: s) ('\n' :: t)
  | lone {s t : List Char} (hs : s.head? ≠ some '\n') (h : Unified s t) :
      Unified ('\r' :: s) ('\n' :: t)
  | other {c : Char} {s t : List Char} (hc : c ≠ '\r') (h : Unified s t) :
      Unified (c :: s) (c :: t)

/-- Every text is unified to what its breaks are unified to. -/
theorem unified_unifyBreaks (s : List Char) : Unified s (unifyBreaks s) := by
  fun_induction unifyBreaks s with
  | case1 s ih => exact .pair ih
  | case2 c s hp ih =>
    split
    · rename_i hc
      subst hc
      refine .lone (fun hs => ?_) ih
      obtain ⟨u, rfl⟩ := List.head?_eq_some_iff.1 hs
      exact hp u rfl rfl
    · rename_i hc
      exact .other hc ih
  | case3 => exact .nil

/-- **A text is unified to one text only.** -/
theorem unified_iff {s t : List Char} : Unified s t ↔ t = unifyBreaks s := by
  constructor
  · intro h
    induction h with
    | nil => rfl
    | pair h ih => rw [ih]; rfl
    | lone hs h ih => rw [ih, unifyBreaks_return hs]
    | other hc h ih => rw [ih, unifyBreaks_cons hc]
  · rintro rfl
    exact unified_unifyBreaks s

/-- A text without carriage returns stays what it is. -/
theorem unifyBreaks_eq_self {s : List Char} (h : '\r' ∉ s) : unifyBreaks s = s := by
  induction s with
  | nil => rfl
  | cons c s ih =>
    rw [List.mem_cons, not_or] at h
    rw [unifyBreaks_cons (Ne.symm h.1), ih h.2]

end FxmlWiring.Text
