import FxmlWiring.Markup.Reference
import FxmlWiring.Proofs.Text.Span

/-! # Names and references as they are written

What a scan makes of a name or a reference that is written at the front of a text. An alphabet
**separates** names if no sign of markup belongs to a name, so a name ends where a sign follows. -/

namespace FxmlWiring.Markup

open Text

/-! ## Names -/

namespace Alphabet

/-- A name: a character that may start one, and others that may stand in one. -/
def IsName (a : Alphabet) (n : List Char) : Prop :=
  ∃ c t, n = c :: t ∧ a.startsName c = true ∧ ∀ d ∈ t, a.continuesName d = true

/-- The blanks and signs of markup. -/
def signs : List Char :=
  [' ', '\t', '\n', '\r', '"', '\'', '<', '>', '&', ';', '=', '/', '!', '?', '#', '[', ']', '%',
    '(', ')', '|', ',', '*', '+']

/-- A blank is a sign of markup. -/
theorem mem_signs_of_isSpace {c : Char} (h : isSpace c = true) : c ∈ signs := by
  simp only [isSpace, Bool.or_eq_true, decide_eq_true_eq] at h
  rcases h with ((rfl | rfl) | rfl) | rfl <;> decide

/-- No sign is in a class of characters if none is found in it one by one. -/
theorem eq_false_of_mem_signs {p : Char → Bool} (h : signs.all (fun c => !p c) = true) :
    ∀ c ∈ signs, p c = false := by
  simpa only [List.all_eq_true, Bool.not_eq_true'] using h

/-- No sign of markup belongs to a name. -/
structure Separates (a : Alphabet) : Prop where
  continues_of_starts : ∀ c, a.startsName c = true → a.continuesName c = true
  not_continues : ∀ c ∈ signs, a.continuesName c = false

/-- No name starts with a sign of markup. -/
theorem Separates.not_starts {a : Alphabet} (ha : a.Separates) {c : Char} (hc : c ∈ signs) :
    a.startsName c = false := by
  rw [Bool.eq_false_iff]
  intro h
  have := ha.continues_of_starts c h
  rw [ha.not_continues c hc] at this
  cases this

instance (a : Alphabet) (n : List Char) : Decidable (a.IsName n) :=
  match n with
  | [] => isFalse fun ⟨c, t, h, _⟩ => List.cons_ne_nil c t h.symm
  | c :: t =>
    decidable_of_iff (a.startsName c = true ∧ t.all a.continuesName = true) <| by
      rw [List.all_eq_true]
      constructor
      · intro h
        exact ⟨c, t, rfl, h⟩
      · rintro ⟨c', t', h, hc⟩
        obtain ⟨rfl, rfl⟩ := List.cons.inj h
        exact hc

theorem separates_utf8 : utf8.Separates where
  continues_of_starts _ h := NameTable.isName_of_isNameStart h
  not_continues := eq_false_of_mem_signs (by decide +kernel)

theorem separates_utf16 : utf16.Separates where
  continues_of_starts c h := Bool.or_eq_true_iff.2 (Or.inl h)
  not_continues := eq_false_of_mem_signs (by decide +kernel)

/-- Every character takes a code unit. -/
theorem units_utf8_pos (c : Char) : 0 < utf8.units c :=
  c.utf8Size_pos

theorem units_utf16_pos (c : Char) : 0 < utf16.units c := by
  change 0 < if c.toNat < 0x10000 then 1 else 2
  split <;> decide

end Alphabet

variable {a : Alphabet}

/-- A name is scanned up to the first character that cannot stand in it. -/
theorem scanName_append {n rest : List Char} (hn : a.IsName n)
    (hr : StopsAt a.continuesName rest) : scanName a (n ++ rest) = .ok (n, rest) := by
  obtain ⟨c, t, rfl, hc, ht⟩ := hn
  rw [List.cons_append, scanName, if_pos hc, takeWhile_append ht hr, dropWhile_append ht hr]

/-- A name is scanned up to a sign of markup. -/
theorem scanName_append_cons (ha : a.Separates) {n : List Char} (hn : a.IsName n) {c : Char}
    (hc : c ∈ Alphabet.signs) (rest : List Char) :
    scanName a (n ++ c :: rest) = .ok (n, c :: rest) :=
  scanName_append hn (stopsAt_cons.2 (ha.not_continues c hc))

/-! ## References -/

namespace Reference

/-- A reference to an entity. -/
theorem scan_entity (ha : a.Separates) {n : List Char} (hn : a.IsName n) (rest : List Char) :
    scan a (n ++ ';' :: rest) = .ok (.entity n, rest) := by
  have hs := scanName_append_cons ha hn (c := ';') (by decide) rest
  obtain ⟨c, t, rfl, hc, -⟩ := hn
  have hh : c ≠ '#' := by
    rintro rfl
    rw [ha.not_starts (by decide)] at hc
    cases hc
  rw [List.cons_append] at hs ⊢
  rw [scan.eq_3]
  · rw [hs]
    rfl
  · intro s h
    exact hh (List.cons.inj h).1
  · intro s h
    exact hh (List.cons.inj h).1

/-- The digits of a character number, with the semicolon after them. -/
theorem scanNumber_append (base : Nat) {isDigit : Char → Bool} {digits : List Char}
    (hne : digits ≠ []) (hd : ∀ c ∈ digits, isDigit c = true) (hs : isDigit ';' = false)
    (rest : List Char) :
    scanNumber base isDigit (digits ++ ';' :: rest) =
      .ok (.character (value base digits), rest) := by
  cases digits with
  | nil => exact absurd rfl hne
  | cons c t =>
    have ht : ∀ d ∈ t, isDigit d = true := fun d h => hd d (List.mem_cons_of_mem c h)
    have hr : StopsAt isDigit (';' :: rest) := stopsAt_cons.2 hs
    rw [List.cons_append, scanNumber, if_pos (hd c List.mem_cons_self), dropWhile_append ht hr,
      takeWhile_append ht hr]
    rfl

/-- A reference to a character by its decimal number. -/
theorem scan_decimal {digits : List Char} (hne : digits ≠ [])
    (hd : ∀ c ∈ digits, c.isDigit = true) (rest : List Char) :
    scan a ('#' :: digits ++ ';' :: rest) = .ok (.character (value 10 digits), rest) := by
  have hs := scanNumber_append 10 hne hd (by decide) rest
  rw [List.cons_append, scan.eq_2]
  · exact hs
  · -- A digit is no `x`, so the number is not taken for a hexadecimal one.
    intro t ht
    cases digits with
    | nil => exact hne rfl
    | cons c s =>
      obtain rfl : c = 'x' := (List.cons.inj ht).1
      exact absurd (hd 'x' List.mem_cons_self) (by decide)

/-- The character that a reference stands for without any declaration. -/
def meaning? : Reference → Option Char
  | character code => characterOf? code
  | entity name => predefined? name

end Reference

/-- The text is a reference, as it is written, to the character. -/
inductive RefersTo (a : Alphabet) : List Char → Char → Prop
  | entity {n : List Char} {c : Char} (hn : a.IsName n) (hp : Reference.predefined? n = some c) :
      RefersTo a ('&' :: n ++ [';']) c
  | decimal (digits : List Char) {c : Char} (hne : digits ≠ [])
      (hd : ∀ d ∈ digits, d.isDigit = true)
      (hc : Reference.characterOf? (Reference.value 10 digits) = some c) :
      RefersTo a ('&' :: '#' :: digits ++ [';']) c

/-- A reference to a character is scanned, and stands for it. -/
theorem RefersTo.exists_scan (ha : a.Separates) {w : List Char} {c : Char} (h : RefersTo a w c)
    (rest : List Char) : ∃ t r, w ++ rest = '&' :: t ∧ Reference.scan a t = .ok (r, rest) ∧
      r.meaning? = some c := by
  cases h with
  | @entity n _ hn hp =>
    exact ⟨n ++ ';' :: rest, .entity n, by simp, Reference.scan_entity ha hn rest, hp⟩
  | @decimal digits _ hne hd hc =>
    exact ⟨'#' :: digits ++ ';' :: rest, .character _, by simp,
      Reference.scan_decimal hne hd rest, hc⟩

end FxmlWiring.Markup
