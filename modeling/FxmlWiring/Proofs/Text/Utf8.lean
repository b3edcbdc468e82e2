import FxmlWiring.Text.Utf8

/-! # Reading what UTF-8 has written

`next_encode` reads back one character that `encode` has written, whatever follows it. The bytes of
a character depend on how many there are: `followers_two`, `followers_three` and `followers_four`
say which bytes may follow the first one, and a Unicode scalar value keeps to them. -/

namespace FxmlWiring.Text.Utf8

/-! ## Bytes that follow a lead byte -/

theorem followers_one {b : UInt8} (h : b.toNat < 0x80) : followers b = some [] := by
  rw [followers, if_pos (UInt8.lt_iff_toNat_lt.2 h)]

theorem followers_two {b : UInt8} (h : 0xC2 ≤ b.toNat) (h' : b.toNat < 0xE0) :
    followers b = some [(0x80, 0xBF)] := by
  have hascii : ¬ b < 0x80 := by simp [UInt8.lt_iff_toNat_lt]; omega
  have hstray : ¬ b < 0xC2 := by simp [UInt8.lt_iff_toNat_lt]; omega
  have htwo : b < 0xE0 := by simp [UInt8.lt_iff_toNat_lt]; omega
  rw [followers, if_neg hascii, if_neg hstray, if_pos htwo]

/-- Overlong forms and surrogates are excluded by the second byte of three. -/
theorem followers_three {b : UInt8} (h : 0xE0 ≤ b.toNat) (h' : b.toNat < 0xF0) :
    followers b = some [(if b.toNat = 0xE0 then 0xA0 else 0x80,
      if b.toNat = 0xED then 0x9F else 0xBF), (0x80, 0xBF)] := by
  have hascii : ¬ b < 0x80 := by simp [UInt8.lt_iff_toNat_lt]; omega
  have hstray : ¬ b < 0xC2 := by simp [UInt8.lt_iff_toNat_lt]; omega
  have htwo : ¬ b < 0xE0 := by simp [UInt8.lt_iff_toNat_lt]; omega
  have hE0 : b = 0xE0 ↔ b.toNat = 0xE0 := by simp [← UInt8.toNat_inj]
  have hED : b = 0xED ↔ b.toNat = 0xED := by simp [← UInt8.toNat_inj]
  have hthree : b < 0xF0 := by simp [UInt8.lt_iff_toNat_lt]; omega
  rw [followers, if_neg hascii, if_neg hstray, if_neg htwo, if_pos hthree]
  simp only [hE0, hED]
  by_cases hE : b.toNat = 0xE0
  · simp [hE]
  · by_cases hD : b.toNat = 0xED <;> simp [hE, hD]

/-- Overlong forms and code points beyond the last one are excluded by the second byte of four. -/
theorem followers_four {b : UInt8} (h : 0xF0 ≤ b.toNat) (h' : b.toNat < 0xF5) :
    followers b = some [(if b.toNat = 0xF0 then 0x90 else 0x80,
      if b.toNat = 0xF4 then 0x8F else 0xBF), (0x80, 0xBF), (0x80, 0xBF)] := by
  have hascii : ¬ b < 0x80 := by simp [UInt8.lt_iff_toNat_lt]; omega
  have hstray : ¬ b < 0xC2 := by simp [UInt8.lt_iff_toNat_lt]; omega
  have htwo : ¬ b < 0xE0 := by simp [UInt8.lt_iff_toNat_lt]; omega
  have hE0 : ¬ b = 0xE0 := by simp [← UInt8.toNat_inj]; omega
  have hED : ¬ b = 0xED := by simp [← UInt8.toNat_inj]; omega
  have hthree : ¬ b < 0xF0 := by simp [UInt8.lt_iff_toNat_lt]; omega
  have hF0 : b = 0xF0 ↔ b.toNat = 0xF0 := by simp [← UInt8.toNat_inj]
  have hbelow : b < 0xF4 ↔ b.toNat < 0xF4 := by simp [UInt8.lt_iff_toNat_lt]
  have hF4 : b = 0xF4 ↔ b.toNat = 0xF4 := by simp [← UInt8.toNat_inj]
  rw [followers, if_neg hascii, if_neg hstray, if_neg htwo, if_neg hE0, if_neg hED, if_neg hthree]
  simp only [hF0, hbelow, hF4]
  by_cases hF : b.toNat = 0xF0
  · simp [hF]
  · by_cases hL : b.toNat = 0xF4
    · simp [hL]
    · rw [if_neg hF, if_neg hF, if_pos (by omega), if_neg hL]

/-! ## Reading bytes -/

/-- A byte within its bounds adds its six bits. -/
theorem follow_cons {code taken : Nat} {low high b : UInt8} {bounds : List (UInt8 × UInt8)}
    {bytes : List UInt8} (hl : low.toNat ≤ b.toNat) (hh : b.toNat ≤ high.toNat) :
    follow code taken ((low, high) :: bounds) (b :: bytes) =
      follow (code * 0x40 + b.toNat % 0x40) (taken + 1) bounds bytes := by
  rw [follow, if_pos ⟨UInt8.le_iff_toNat_le.2 hl, UInt8.le_iff_toNat_le.2 hh⟩]

/-- Any byte that does not start a character adds its six bits. -/
theorem follow_continuation {code taken : Nat} {b : UInt8} {bounds : List (UInt8 × UInt8)}
    {bytes : List UInt8} (h : 0x80 ≤ b.toNat) (h' : b.toNat ≤ 0xBF) :
    follow code taken ((0x80, 0xBF) :: bounds) (b :: bytes) =
      follow (code * 0x40 + b.toNat % 0x40) (taken + 1) bounds bytes :=
  follow_cons h h'

/-! ## Characters as bytes -/

/-- The lead byte of a character tells how many bytes follow it. -/
theorem exists_encodeChar_eq_cons (c : Char) : ∃ b bs, String.utf8EncodeChar c = b :: bs ∧
    (bs.length = 0 ∧ b.toNat = c.toNat ∧ b.toNat < 0x80 ∨
      bs.length = 1 ∧ 0xC2 ≤ b.toNat ∧ b.toNat < 0xE0 ∨
      bs.length = 2 ∧ 0xE0 ≤ b.toNat ∧ b.toNat < 0xF0 ∨
      bs.length = 3 ∧ 0xF0 ≤ b.toNat ∧ b.toNat < 0xF5) := by
  have hv : c.toNat < 0xD800 ∨ 0xDFFF < c.toNat ∧ c.toNat < 0x110000 := c.valid
  have hn : c.val.toNat = c.toNat := rfl
  rw [String.utf8EncodeChar]
  simp only [hn]
  generalize c.toNat = v at *
  by_cases hone : v ≤ 0x7F
  · rw [if_pos hone]
    refine ⟨_, _, rfl, Or.inl ⟨rfl, ?_, ?_⟩⟩ <;> simp <;> omega
  · by_cases htwo : v ≤ 0x7FF
    · rw [if_neg hone, if_pos htwo]
      refine ⟨_, _, rfl, Or.inr (Or.inl ⟨rfl, ?_, ?_⟩)⟩ <;> simp <;> omega
    · by_cases hthree : v ≤ 0xFFFF
      · rw [if_neg hone, if_neg htwo, if_pos hthree]
        refine ⟨_, _, rfl, Or.inr (Or.inr (Or.inl ⟨rfl, ?_, ?_⟩))⟩ <;> simp <;> omega
      · rw [if_neg hone, if_neg htwo, if_neg hthree]
        refine ⟨_, _, rfl, Or.inr (Or.inr (Or.inr ⟨rfl, ?_, ?_⟩))⟩ <;> simp <;> omega

/-- Only the first character has a byte that is zero. -/
theorem ne_zero_of_mem_encodeChar {c : Char} (hc : c ≠ '\x00') {b : UInt8}
    (hb : b ∈ String.utf8EncodeChar c) : b ≠ 0 := by
  have hv : c.toNat < 0x110000 := by
    have hv : c.toNat < 0xD800 ∨ 0xDFFF < c.toNat ∧ c.toNat < 0x110000 := c.valid
    omega
  have hz : c.toNat ≠ 0 := fun h => hc (Char.toNat_inj.1 h)
  have hn : c.val.toNat = c.toNat := rfl
  rw [String.utf8EncodeChar] at hb
  simp only [hn] at hb
  generalize c.toNat = v at *
  have hne : ∀ {x : Nat}, x % 256 ≠ 0 → UInt8.ofNat x ≠ 0 := by
    intro x hx h
    exact hx (by simpa using congrArg UInt8.toNat h)
  split at hb
  · obtain rfl := List.mem_singleton.1 hb
    exact hne (by omega)
  · split at hb
    · simp only [List.mem_cons, List.not_mem_nil, or_false] at hb
      rcases hb with rfl | rfl <;> exact hne (by omega)
    · split at hb
      · simp only [List.mem_cons, List.not_mem_nil, or_false] at hb
        rcases hb with rfl | rfl | rfl <;> exact hne (by omega)
      · simp only [List.mem_cons, List.not_mem_nil, or_false] at hb
        rcases hb with rfl | rfl | rfl | rfl <;> exact hne (by omega)

/-- A single byte is its own code point. -/
theorem next_one {v : Nat} (h : v ≤ 0x7F) (rest : List UInt8) :
    next (UInt8.ofNat v :: rest) = .ok (Char.ofNat v, rest) := by
  have hb : (UInt8.ofNat v).toNat = v := by simp; omega
  rw [next, followers_one (by omega)]
  simp only [List.length_nil, leadBits, follow, hb]

/-- The five bits of the lead byte and the six of the other one are the code point. -/
theorem next_two {v : Nat} (h : 0x7F < v) (h' : v ≤ 0x7FF) (rest : List UInt8) :
    next (UInt8.ofNat (v / 64 % 0x20 + 0xC0) :: UInt8.ofNat (v % 0x40 + 0x80) :: rest) =
      .ok (Char.ofNat v, rest) := by
  have hb : (UInt8.ofNat (v / 64 % 0x20 + 0xC0)).toNat = v / 64 + 0xC0 := by simp; omega
  have ht : (UInt8.ofNat (v % 0x40 + 0x80)).toNat = v % 64 + 0x80 := by simp; omega
  have hs : (v / 64 + 0xC0) % 0x20 * 0x40 + (v % 64 + 0x80) % 0x40 = v := by omega
  rw [next, followers_two (by omega) (by omega)]
  simp only [List.length_singleton, leadBits]
  rw [follow_continuation (by omega) (by omega), follow, hb, ht, hs]

/-- No code point of three bytes has an overlong form or is a surrogate, so the second byte keeps to
its bounds. -/
theorem next_three {v : Nat} (h : 0x7FF < v) (h' : v ≤ 0xFFFF) (hv : v < 0xD800 ∨ 0xDFFF < v)
    (rest : List UInt8) :
    next (UInt8.ofNat (v / 4096 % 0x10 + 0xE0) :: UInt8.ofNat (v / 64 % 0x40 + 0x80) ::
      UInt8.ofNat (v % 0x40 + 0x80) :: rest) = .ok (Char.ofNat v, rest) := by
  have hb : (UInt8.ofNat (v / 4096 % 0x10 + 0xE0)).toNat = v / 4096 + 0xE0 := by simp; omega
  have ht : (UInt8.ofNat (v / 64 % 0x40 + 0x80)).toNat = v / 64 % 64 + 0x80 := by simp; omega
  have hu : (UInt8.ofNat (v % 0x40 + 0x80)).toNat = v % 64 + 0x80 := by simp; omega
  have hs : ((v / 4096 + 0xE0) % 0x10 * 0x40 + (v / 64 % 64 + 0x80) % 0x40) * 0x40 +
      (v % 64 + 0x80) % 0x40 = v := by omega
  rw [next, followers_three (by omega) (by omega)]
  simp only [List.length_cons, List.length_nil, leadBits]
  rw [follow_cons (by split <;> simp <;> omega) (by split <;> simp <;> omega),
    follow_continuation (by omega) (by omega), follow, hb, ht, hu, hs]

/-- No code point of four bytes has an overlong form or lies beyond the last one, so the second byte
keeps to its bounds. -/
theorem next_four {v : Nat} (h : 0xFFFF < v) (h' : v < 0x110000) (rest : List UInt8) :
    next (UInt8.ofNat (v / 262144 % 0x08 + 0xF0) :: UInt8.ofNat (v / 4096 % 0x40 + 0x80) ::
      UInt8.ofNat (v / 64 % 0x40 + 0x80) :: UInt8.ofNat (v % 0x40 + 0x80) :: rest) =
        .ok (Char.ofNat v, rest) := by
  have hb : (UInt8.ofNat (v / 262144 % 0x08 + 0xF0)).toNat = v / 262144 + 0xF0 := by
    simp; omega
  have ht : (UInt8.ofNat (v / 4096 % 0x40 + 0x80)).toNat = v / 4096 % 64 + 0x80 := by simp; omega
  have hu : (UInt8.ofNat (v / 64 % 0x40 + 0x80)).toNat = v / 64 % 64 + 0x80 := by simp; omega
  have hw : (UInt8.ofNat (v % 0x40 + 0x80)).toNat = v % 64 + 0x80 := by simp; omega
  have hs : (((v / 262144 + 0xF0) % 0x08 * 0x40 + (v / 4096 % 64 + 0x80) % 0x40) * 0x40 +
      (v / 64 % 64 + 0x80) % 0x40) * 0x40 + (v % 64 + 0x80) % 0x40 = v := by omega
  rw [next, followers_four (by omega) (by omega)]
  simp only [List.length_cons, List.length_nil, leadBits]
  rw [follow_cons (by split <;> simp <;> omega) (by split <;> simp <;> omega),
    follow_continuation (by omega) (by omega), follow_continuation (by omega) (by omega), follow,
    hb, ht, hu, hw, hs]

/-- **A character is read back**, whatever follows it. -/
theorem next_encode (c : Char) (rest : List UInt8) :
    next (String.utf8EncodeChar c ++ rest) = .ok (c, rest) := by
  have hc : Char.ofNat c.toNat = c := Char.ofNat_toNat c
  have hv : c.toNat < 0xD800 ∨ 0xDFFF < c.toNat ∧ c.toNat < 0x110000 := c.valid
  have hn : c.val.toNat = c.toNat := rfl
  rw [String.utf8EncodeChar]
  simp only [hn]
  -- One case for each number of bytes.
  by_cases hone : c.toNat ≤ 0x7F
  · rw [if_pos hone, List.singleton_append, next_one hone, hc]
  rw [if_neg hone]
  by_cases htwo : c.toNat ≤ 0x7FF
  · rw [if_pos htwo]
    simp only [List.cons_append, List.nil_append]
    rw [next_two (by omega) htwo, hc]
  rw [if_neg htwo]
  by_cases hthree : c.toNat ≤ 0xFFFF
  · rw [if_pos hthree]
    simp only [List.cons_append, List.nil_append]
    rw [next_three (by omega) hthree (by omega), hc]
  · rw [if_neg hthree]
    simp only [List.cons_append, List.nil_append]
    rw [next_four (by omega) (by omega), hc]

theorem decodeFrom_encode (s : List Char) (offset : Nat) :
    decodeFrom offset (encode s) = .ok s := by
  induction s generalizing offset with
  | nil => rw [encode, List.flatMap_nil, decodeFrom]
  | cons c s ih =>
    have he : encode (c :: s) = String.utf8EncodeChar c ++ encode s := List.flatMap_cons
    have hn := next_encode c (encode s)
    obtain ⟨b, bs, hb, -⟩ := exists_encodeChar_eq_cons c
    rw [he]
    rw [hb, List.cons_append] at hn ⊢
    rw [decodeFrom]
    split
    · rename_i d rest h
      rw [hn] at h
      obtain ⟨rfl, rfl⟩ := Prod.mk.inj (Except.ok.inj h)
      rw [ih]
      rfl
    · rename_i h
      rw [hn] at h
      cases h

/-- **What has been written is read.** -/
theorem decode_encode (s : List Char) : decode (encode s) = .ok s :=
  decodeFrom_encode s 0

end FxmlWiring.Text.Utf8
