import FxmlWiring.Proofs.Text.Utf8
import Mathlib.Order.Bounds.Defs

/-! # What can be read has been written

The converse of reading back: what `next` takes off a byte sequence is one written character
(`append_of_next`), so `decode` succeeds on **well-formed** sequences only, which are the ones that
`encode` writes (`decode_eq_ok_iff`). Where it fails, no longer part of the sequence is well-formed
(`isGreatest_of_decode`). -/

namespace FxmlWiring.Text.Utf8

/-! ## One character -/

/-- The bytes that start a character, by the number of bytes that follow. -/
theorem followers_eq_some {b : UInt8} {bounds : List (UInt8 × UInt8)}
    (h : followers b = some bounds) :
    b.toNat < 0x80 ∨ (0xC2 ≤ b.toNat ∧ b.toNat < 0xE0) ∨ (0xE0 ≤ b.toNat ∧ b.toNat < 0xF0) ∨
      (0xF0 ≤ b.toNat ∧ b.toNat < 0xF5) := by
  unfold followers at h
  simp only [UInt8.lt_iff_toNat_lt, ← UInt8.toNat_inj, UInt8.reduceToNat] at h
  repeat' split at h
  all_goals first | omega | cases h

/-- A byte that has been read after the lead byte is within its bounds. -/
theorem exists_of_follow {code taken : Nat} {low high : UInt8} {bounds : List (UInt8 × UInt8)}
    {bytes : List UInt8} {r : Char × List UInt8}
    (h : follow code taken ((low, high) :: bounds) bytes = .ok r) :
    ∃ b bs, bytes = b :: bs ∧ low.toNat ≤ b.toNat ∧ b.toNat ≤ high.toNat ∧
      follow (code * 0x40 + b.toNat % 0x40) (taken + 1) bounds bs = .ok r := by
  cases bytes with
  | nil => cases h
  | cons b bs =>
    rw [follow] at h
    split at h
    · rename_i hb
      exact ⟨b, bs, rfl, UInt8.le_iff_toNat_le.1 hb.1, UInt8.le_iff_toNat_le.1 hb.2, h⟩
    · cases h

/-- The code point of a character that is made from it. -/
theorem toNat_val_ofNat {v : Nat} (h : v.isValidChar) : (Char.ofNat v).val.toNat = v := by
  rw [Char.ofNat, dif_pos h]
  exact UInt32.toNat_ofNatLT

/-- A byte is the one with its number. -/
theorem ofNat_eq {b : UInt8} {n : Nat} (h : b.toNat = n) : UInt8.ofNat n = b := by
  rw [← h, UInt8.ofNat_toNat]

section Next

variable {b : UInt8} {bytes rest : List UInt8} {c : Char} (hn : next (b :: bytes) = .ok (c, rest))
include hn

theorem append_of_next_one (h : b.toNat < 0x80) :
    b :: bytes = String.utf8EncodeChar c ++ rest := by
  rw [next, followers_one h] at hn
  obtain ⟨rfl, rfl⟩ := Prod.mk.inj (Except.ok.inj hn)
  have hv := toNat_val_ofNat (v := b.toNat) (Or.inl (by omega))
  simp only [leadBits, List.length_nil, String.utf8EncodeChar, hv]
  rw [if_pos (by omega), ofNat_eq rfl]
  rfl

/-- Two bytes are no overlong form. -/
theorem append_of_next_two (h : 0xC2 ≤ b.toNat) (h' : b.toNat < 0xE0) :
    b :: bytes = String.utf8EncodeChar c ++ rest := by
  rw [next, followers_two h h'] at hn
  obtain ⟨b₁, bs, rfl, hl₁, hh₁, hn⟩ := exists_of_follow hn
  obtain ⟨rfl, rfl⟩ := Prod.mk.inj (Except.ok.inj hn)
  simp only [List.length_singleton, leadBits, UInt8.reduceToNat] at hl₁ hh₁ ⊢
  generalize hv : b.toNat % 0x20 * 0x40 + b₁.toNat % 0x40 = v
  have hc := toNat_val_ofNat (v := v) (Or.inl (by omega))
  simp only [String.utf8EncodeChar, hc]
  rw [if_neg (by omega), if_pos (by omega), ofNat_eq (b := b) (by omega),
    ofNat_eq (b := b₁) (by omega)]
  rfl

/-- Three bytes are no overlong form and no surrogate. -/
theorem append_of_next_three (h : 0xE0 ≤ b.toNat) (h' : b.toNat < 0xF0) :
    b :: bytes = String.utf8EncodeChar c ++ rest := by
  rw [next, followers_three h h'] at hn
  obtain ⟨b₁, bs, rfl, hl₁, hh₁, hn⟩ := exists_of_follow hn
  obtain ⟨b₂, bs, rfl, hl₂, hh₂, hn⟩ := exists_of_follow hn
  obtain ⟨rfl, rfl⟩ := Prod.mk.inj (Except.ok.inj hn)
  simp only [List.length_cons, List.length_nil, leadBits, apply_ite UInt8.toNat,
    UInt8.reduceToNat] at hl₁ hh₁ hl₂ hh₂ ⊢
  have hl : 0x80 ≤ b₁.toNat ∧ (b.toNat = 0xE0 → 0xA0 ≤ b₁.toNat) := by split at hl₁ <;> omega
  have hh : b₁.toNat ≤ 0xBF ∧ (b.toNat = 0xED → b₁.toNat ≤ 0x9F) := by split at hh₁ <;> omega
  generalize hv : (b.toNat % 0x10 * 0x40 + b₁.toNat % 0x40) * 0x40 + b₂.toNat % 0x40 = v
  have hc := toNat_val_ofNat (v := v) (by simp only [Nat.isValidChar]; omega)
  simp only [String.utf8EncodeChar, hc]
  rw [if_neg (by omega), if_neg (by omega), if_pos (by omega), ofNat_eq (b := b) (by omega),
    ofNat_eq (b := b₁) (by omega), ofNat_eq (b := b₂) (by omega)]
  rfl

/-- Four bytes are no overlong form and nothing beyond the last code point. -/
theorem append_of_next_four (h : 0xF0 ≤ b.toNat) (h' : b.toNat < 0xF5) :
    b :: bytes = String.utf8EncodeChar c ++ rest := by
  rw [next, followers_four h h'] at hn
  obtain ⟨b₁, bs, rfl, hl₁, hh₁, hn⟩ := exists_of_follow hn
  obtain ⟨b₂, bs, rfl, hl₂, hh₂, hn⟩ := exists_of_follow hn
  obtain ⟨b₃, bs, rfl, hl₃, hh₃, hn⟩ := exists_of_follow hn
  obtain ⟨rfl, rfl⟩ := Prod.mk.inj (Except.ok.inj hn)
  simp only [List.length_cons, List.length_nil, leadBits, apply_ite UInt8.toNat,
    UInt8.reduceToNat] at hl₁ hh₁ hl₂ hh₂ hl₃ hh₃ ⊢
  have hl : 0x80 ≤ b₁.toNat ∧ (b.toNat = 0xF0 → 0x90 ≤ b₁.toNat) := by split at hl₁ <;> omega
  have hh : b₁.toNat ≤ 0xBF ∧ (b.toNat = 0xF4 → b₁.toNat ≤ 0x8F) := by split at hh₁ <;> omega
  generalize hv : ((b.toNat % 0x08 * 0x40 + b₁.toNat % 0x40) * 0x40 + b₂.toNat % 0x40) * 0x40 +
    b₃.toNat % 0x40 = v
  have hc := toNat_val_ofNat (v := v) (by simp only [Nat.isValidChar]; omega)
  simp only [String.utf8EncodeChar, hc]
  rw [if_neg (by omega), if_neg (by omega), if_neg (by omega), ofNat_eq (b := b) (by omega),
    ofNat_eq (b := b₁) (by omega), ofNat_eq (b := b₂) (by omega), ofNat_eq (b := b₃) (by omega)]
  rfl

end Next

/-- **What is taken off as a character is that character**, in its only form. -/
theorem append_of_next {bytes rest : List UInt8} {c : Char} (h : next bytes = .ok (c, rest)) :
    bytes = String.utf8EncodeChar c ++ rest := by
  cases bytes with
  | nil => cases h
  | cons b bytes =>
    cases hf : followers b with
    | none =>
      rw [next, hf] at h
      cases h
    | some bounds =>
      obtain hone | ⟨htwo, hlead⟩ | ⟨hthree, hlead⟩ | ⟨hfour, hlead⟩ := followers_eq_some hf
      · exact append_of_next_one h hone
      · exact append_of_next_two h htwo hlead
      · exact append_of_next_three h hthree hlead
      · exact append_of_next_four h hfour hlead

/-! ## Whole sequences -/

/-- The bytes of some text. -/
def IsWellFormed (bytes : List UInt8) : Prop :=
  bytes.toByteArray.IsValidUTF8

/-- Well-formed sequences are those that have been written. -/
theorem isWellFormed_iff {bytes : List UInt8} : IsWellFormed bytes ↔ ∃ s, encode s = bytes := by
  constructor
  · rintro ⟨s, hs⟩
    have hl := congrArg (fun b => b.data.toList) hs
    simp only [List.utf8Encode, List.toList_data_toByteArray] at hl
    exact ⟨s, hl.symm⟩
  · rintro ⟨s, rfl⟩
    exact ⟨s, rfl⟩

theorem encode_cons (c : Char) (s : List Char) :
    encode (c :: s) = String.utf8EncodeChar c ++ encode s :=
  List.flatMap_cons

/-- What has been read is what was written. -/
theorem encode_of_decodeFrom {offset : Nat} {bytes : List UInt8} {s : List Char}
    (h : decodeFrom offset bytes = .ok s) : encode s = bytes := by
  fun_induction decodeFrom offset bytes generalizing s with
  | case1 =>
    obtain rfl := Except.ok.inj h
    rfl
  | case2 offset b bs c rest hn ih =>
    cases hd : decodeFrom (offset + ((b :: bs).length - rest.length)) rest with
    | error f =>
      rw [hd] at h
      cases h
    | ok t =>
      rw [hd] at h
      obtain rfl := Except.ok.inj h
      rw [encode_cons, ih hd, ← append_of_next hn]
  | case3 => cases h

/-- **Bytes are read as a text exactly if they are its encoding.** -/
theorem decode_eq_ok_iff {bytes : List UInt8} {s : List Char} :
    decode bytes = .ok s ↔ encode s = bytes := by
  constructor
  · exact encode_of_decodeFrom
  · rintro rfl
    exact decode_encode s

/-- Where reading fails, what was in front has been read, and no character follows. -/
theorem exists_of_decodeFrom_error {offset : Nat} {bytes : List UInt8} {f : Fault}
    (h : decodeFrom offset bytes = .error f) :
    ∃ s rest flaw, bytes = encode s ++ rest ∧ next rest = .error flaw ∧
      f.start = offset + (encode s).length := by
  fun_induction decodeFrom offset bytes with
  | case1 => cases h
  | case2 offset b bs c rest hn ih =>
    cases hd : decodeFrom (offset + ((b :: bs).length - rest.length)) rest with
    | ok t =>
      rw [hd] at h
      cases h
    | error f' =>
      rw [hd] at h
      obtain rfl := Except.error.inj h
      obtain ⟨s, rest', flaw, hr, hn', hs⟩ := ih hd
      have happend := append_of_next hn
      refine ⟨c :: s, rest', flaw, ?_, hn', ?_⟩
      · rw [encode_cons, List.append_assoc, ← hr, happend]
      · rw [hs, happend, encode_cons, List.length_append, List.length_append]
        omega
  | case3 offset b bs flaw length hn =>
    obtain rfl := Except.error.inj h
    exact ⟨[], b :: bs, (flaw, length), rfl, hn, rfl⟩

/-- A text in front of other bytes is no longer than what can be read. -/
theorem length_encode_le {s t : List Char} {rest rest' : List UInt8} {flaw : Flaw × Nat}
    (hn : next rest = .error flaw) (h : encode t ++ rest' = encode s ++ rest) :
    (encode t).length ≤ (encode s).length := by
  induction t generalizing s with
  | nil => exact Nat.zero_le _
  | cons d t ih =>
    rw [encode_cons, List.append_assoc] at h
    have hd := next_encode d (encode t ++ rest')
    cases s with
    | nil =>
      rw [h] at hd
      cases hn.symm.trans hd
    | cons c s =>
      rw [encode_cons, List.append_assoc] at h
      rw [h, next_encode] at hd
      obtain ⟨rfl, ht⟩ := Prod.mk.inj (Except.ok.inj hd)
      have hle := ih ht.symm
      simp only [encode_cons, List.length_append]
      omega

/-- **Reading succeeds exactly on well-formed sequences.** -/
theorem isWellFormed_iff_exists_decode {bytes : List UInt8} :
    IsWellFormed bytes ↔ ∃ s, decode bytes = .ok s := by
  simp only [isWellFormed_iff, decode_eq_ok_iff]

/-- **Reading fails behind the longest part that is well-formed.** -/
theorem isGreatest_of_decode {bytes : List UInt8} {f : Fault} (h : decode bytes = .error f) :
    IsGreatest {n | ∃ front, front <+: bytes ∧ IsWellFormed front ∧ front.length = n}
      f.start := by
  obtain ⟨s, rest, flaw, rfl, hn, hs⟩ := exists_of_decodeFrom_error h
  rw [Nat.zero_add] at hs
  constructor
  · exact ⟨encode s, List.prefix_append _ _, isWellFormed_iff.2 ⟨s, rfl⟩, hs.symm⟩
  · rintro n ⟨front, ⟨rest', happend⟩, hw, rfl⟩
    obtain ⟨t, rfl⟩ := isWellFormed_iff.1 hw
    rw [hs]
    exact length_encode_le hn happend

end FxmlWiring.Text.Utf8
