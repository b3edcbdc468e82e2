import FxmlWiring.Text.Basic
import Mathlib.Data.List.TakeWhile

/-! # The front of a text

A front that holds characters of a class only, and is followed by none of them, is what `takeWhile`
takes and `dropWhile` drops. -/

namespace FxmlWiring.Text

variable {p : Char → Bool}

/-- What is said of every character of a text is decided along the text, and not by going through
all characters. -/
instance decidableForallMem {q : Char → Prop} [DecidablePred q] (s : List Char) :
    Decidable (∀ c ∈ s, q c) :=
  List.decidableBAll q s

/-- The text does not start with a character of the class. -/
def StopsAt (p : Char → Bool) (s : List Char) : Prop :=
  ∀ c ∈ s.head?, p c = false

@[simp] theorem stopsAt_nil : StopsAt p [] := by
  intro c hc
  cases hc

@[simp] theorem stopsAt_cons {c : Char} {s : List Char} : StopsAt p (c :: s) ↔ p c = false := by
  simp [StopsAt]

/-- What is left after dropping a class does not start with it. -/
theorem stopsAt_dropWhile (s : List Char) : StopsAt p (s.dropWhile p) := by
  induction s with
  | nil => exact stopsAt_nil
  | cons c s ih =>
    by_cases hc : p c = true
    · rwa [List.dropWhile_cons, if_pos hc]
    · rw [List.dropWhile_cons, if_neg hc, stopsAt_cons]
      simpa using hc

/-- What is left of an end of a text is an end of what is left of the text. -/
theorem dropWhile_isSuffix {s t : List Char} (h : t <:+ s) :
    t.dropWhile p <:+ s.dropWhile p := by
  obtain ⟨x, rfl⟩ := h
  rw [List.dropWhile_append]
  split
  · exact List.suffix_rfl
  · exact (List.dropWhile_suffix p).trans (List.suffix_append _ t)

/-- A text that does not start with the class loses nothing. -/
theorem dropWhile_of_stopsAt {s : List Char} (h : StopsAt p s) : s.dropWhile p = s := by
  cases s with
  | nil => rfl
  | cons c s => rw [List.dropWhile_cons, if_neg (by simpa using h)]

/-- Nothing is taken off a text that does not start with the class. -/
theorem takeWhile_of_stopsAt {s : List Char} (h : StopsAt p s) : s.takeWhile p = [] := by
  cases s with
  | nil => rfl
  | cons c s => rw [List.takeWhile_cons, if_neg (by simpa using h)]

/-- A front of the class is dropped, and no more if the rest does not start with it. -/
theorem dropWhile_append {u v : List Char} (hu : ∀ c ∈ u, p c = true) (hv : StopsAt p v) :
    (u ++ v).dropWhile p = v := by
  rw [List.dropWhile_append_of_pos hu, dropWhile_of_stopsAt hv]

/-- A front of the class is taken, and no more if the rest does not start with it. -/
theorem takeWhile_append {u v : List Char} (hu : ∀ c ∈ u, p c = true) (hv : StopsAt p v) :
    (u ++ v).takeWhile p = u := by
  rw [List.takeWhile_append_of_pos hu, takeWhile_of_stopsAt hv, List.append_nil]

/-- A wider class drops the same front, if it does not go on there. -/
theorem dropWhile_of_imp {q : Char → Bool} (hpq : ∀ c, p c = true → q c = true) {s : List Char}
    (hs : StopsAt q (s.dropWhile p)) : s.dropWhile q = s.dropWhile p := by
  have h := dropWhile_append (fun c hc => hpq c (List.mem_takeWhile_imp hc)) hs (u := s.takeWhile p)
  rwa [List.takeWhile_append_dropWhile] at h

/-- A wider class takes the same front, if it does not go on there. -/
theorem takeWhile_of_imp {q : Char → Bool} (hpq : ∀ c, p c = true → q c = true) {s : List Char}
    (hs : StopsAt q (s.dropWhile p)) : s.takeWhile q = s.takeWhile p := by
  have h := takeWhile_append (fun c hc => hpq c (List.mem_takeWhile_imp hc)) hs (u := s.takeWhile p)
  rwa [List.takeWhile_append_dropWhile] at h

/-- What is behind the front of the class is followed by more text if anything is there. -/
theorem dropWhile_append_of_eq_cons {s t : List Char} {x : Char} (h : s.dropWhile p = x :: t)
    (more : List Char) : (s ++ more).dropWhile p = x :: (t ++ more) := by
  rw [List.dropWhile_append, h]
  rfl

/-- The front of the class stays the same if anything is behind it. -/
theorem takeWhile_append_of_eq_cons {s t : List Char} {x : Char} (h : s.dropWhile p = x :: t)
    (more : List Char) : (s ++ more).takeWhile p = s.takeWhile p := by
  have hlt : (s.takeWhile p).length ≠ s.length := by
    have hs := congrArg List.length (List.takeWhile_append_dropWhile (p := p) (l := s))
    rw [h, List.length_append, List.length_cons] at hs
    omega
  rw [List.takeWhile_append, if_neg hlt]

/-- Every text has a front of the class that is followed by none of it. -/
theorem exists_append_dropWhile (p : Char → Bool) (s : List Char) :
    ∃ u, s = u ++ s.dropWhile p ∧ ∀ c ∈ u, p c = true :=
  ⟨s.takeWhile p, List.takeWhile_append_dropWhile.symm, fun _ h => List.mem_takeWhile_imp h⟩

end FxmlWiring.Text
