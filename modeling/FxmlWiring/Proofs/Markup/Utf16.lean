import FxmlWiring.Markup.Source

/-! # Reading what UTF-16 has written

A character of the basic plane is one **code unit**, any other one a pair of **surrogates**: a high
one, then a low one, each with ten bits of the code point less 0x10000. A unit is two bytes, in
either order. Decoding gives back what has been encoded (`Source.decodeUtf16_encode`). -/

namespace FxmlWiring

namespace Text.Utf16

/-- The code units of a character. -/
def units (c : Char) : List Nat :=
  if c.toNat < 0x10000 then [c.toNat]
  else [0xD800 + (c.toNat - 0x10000) / 0x400, 0xDC00 + (c.toNat - 0x10000) % 0x400]

/-- The bytes of a code unit, in either order. -/
def unitBytes (bigEndian : Bool) (u : Nat) : List UInt8 :=
  if bigEndian then [.ofNat (u / 0x100), .ofNat (u % 0x100)]
  else [.ofNat (u % 0x100), .ofNat (u / 0x100)]

/-- The bytes of a text. -/
def encode (bigEndian : Bool) (s : List Char) : List UInt8 :=
  (s.flatMap units).flatMap (unitBytes bigEndian)

/-- A code unit has sixteen bits. -/
theorem lt_of_mem_units {c : Char} {u : Nat} (h : u ∈ units c) : u < 0x10000 := by
  have hc : c.toNat < 0xD800 ∨ 0xDFFF < c.toNat ∧ c.toNat < 0x110000 := c.valid
  unfold units at h
  split at h
  · rw [List.mem_singleton] at h
    omega
  · rw [List.mem_cons, List.mem_singleton] at h
    omega

end Text.Utf16

namespace Markup.Source

open Text

/-- The bytes of a code unit are read as the unit. -/
theorem units16_unitBytes_append (bigEndian : Bool) {u : Nat} (hu : u < 0x10000)
    (bytes : List UInt8) :
    units16 bigEndian (Utf16.unitBytes bigEndian u ++ bytes) =
      (u :: (units16 bigEndian bytes).1, (units16 bigEndian bytes).2) := by
  have hhigh : (UInt8.ofNat (u / 0x100)).toNat = u / 0x100 := by
    rw [UInt8.toNat_ofNat']
    omega
  have hlow : (UInt8.ofNat (u % 0x100)).toNat = u % 0x100 := by
    rw [UInt8.toNat_ofNat']
    omega
  have hu : u / 0x100 * 0x100 + u % 0x100 = u := Nat.div_add_mod' u 0x100
  cases bigEndian <;> simp [Utf16.unitBytes, units16, hhigh, hlow, hu]

/-- The bytes of code units are read as the units, and none is left over. -/
theorem units16_flatMap_unitBytes (bigEndian : Bool) {us : List Nat} (h : ∀ u ∈ us, u < 0x10000) :
    units16 bigEndian (us.flatMap (Utf16.unitBytes bigEndian)) = (us, false) := by
  induction us with
  | nil => rfl
  | cons u us ih =>
    rw [List.forall_mem_cons] at h
    rw [List.flatMap_cons, units16_unitBytes_append bigEndian h.1, ih h.2]

/-- The code units of a character are decoded as the character. -/
theorem decodeUnits_units_append (c : Char) (us : List Nat) :
    decodeUnits false (Utf16.units c ++ us) =
      (c :: (decodeUnits false us).1, (decodeUnits false us).2) := by
  have hc : c.toNat < 0xD800 ∨ 0xDFFF < c.toNat ∧ c.toNat < 0x110000 := c.valid
  unfold Utf16.units
  split
  · -- No character is a surrogate.
    have hhigh : ¬ (0xD800 ≤ c.toNat ∧ c.toNat < 0xDC00) := by omega
    have hlow : ¬ (0xDC00 ≤ c.toNat ∧ c.toNat < 0xE000) := by omega
    rw [List.singleton_append, decodeUnits.eq_def]
    simp only [if_neg hhigh, if_neg hlow, Char.ofNat_toNat]
  · have hpair : 0x10000 + (0xD800 + (c.toNat - 0x10000) / 0x400 - 0xD800) * 0x400 +
        (0xDC00 + (c.toNat - 0x10000) % 0x400) % 0x400 = c.toNat := by omega
    rw [List.cons_append, List.singleton_append, decodeUnits, if_pos (by omega)]
    simp only [hpair, Char.ofNat_toNat]

/-- **Decoding takes back what has been encoded.** -/
theorem decodeUtf16_encode (bigEndian : Bool) (s : List Char) :
    decodeUtf16 bigEndian (Utf16.encode bigEndian s) = (s, .complete) := by
  have hunits : ∀ u ∈ s.flatMap Utf16.units, u < 0x10000 := by
    intro u hu
    obtain ⟨c, -, hc⟩ := List.mem_flatMap.1 hu
    exact Utf16.lt_of_mem_units hc
  rw [decodeUtf16, Utf16.encode, units16_flatMap_unitBytes bigEndian hunits]
  dsimp only
  induction s with
  | nil => rfl
  | cons c s ih =>
    rw [List.flatMap_cons, List.forall_mem_append] at hunits
    rw [List.flatMap_cons, decodeUnits_units_append, ih hunits.2]

end Markup.Source

end FxmlWiring
