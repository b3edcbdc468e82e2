import FxmlWiring.Markup.Document
import FxmlWiring.Proofs.Text.Utf8

/-! # Text as a source

Markup that is handed in as text goes through its UTF-8 bytes. Decoding them gives the characters
back (`decodeUtf8_encode`), so the source of a text is the text itself. -/

namespace FxmlWiring.Markup

open Text

namespace Source

/-! ## Decoding -/

/-- A byte of its own starts no sequence. -/
theorem sequenceLength?_eq_none {b : UInt8} (h : b.toNat < 0x80) : sequenceLength? b = none := by
  have htwo : ¬ 0xC0 ≤ b := by simp [UInt8.le_iff_toNat_le]; omega
  have hthree : ¬ 0xE0 ≤ b := by simp [UInt8.le_iff_toNat_le]; omega
  have hfour : ¬ 0xF0 ≤ b := by simp [UInt8.le_iff_toNat_le]; omega
  rw [sequenceLength?, if_neg fun h => htwo h.1, if_neg fun h => hthree h.1,
    if_neg fun h => hfour h.1]

/-- Two bytes make up a sequence. -/
theorem sequenceLength?_eq_two {b : UInt8} (h : 0xC2 ≤ b.toNat) (h' : b.toNat < 0xE0) :
    sequenceLength? b = some 2 := by
  rw [sequenceLength?, if_pos]
  constructor <;> simp [UInt8.le_iff_toNat_le, UInt8.lt_iff_toNat_lt] <;> omega

/-- Three bytes make up a sequence. -/
theorem sequenceLength?_eq_three {b : UInt8} (h : 0xE0 ≤ b.toNat) (h' : b.toNat < 0xF0) :
    sequenceLength? b = some 3 := by
  have htwo : ¬ b < 0xE0 := by simp [UInt8.lt_iff_toNat_lt]; omega
  rw [sequenceLength?, if_neg fun h => htwo h.2, if_pos]
  constructor <;> simp [UInt8.le_iff_toNat_le, UInt8.lt_iff_toNat_lt] <;> omega

/-- Four bytes make up a sequence. -/
theorem sequenceLength?_eq_four {b : UInt8} (h : 0xF0 ≤ b.toNat) (h' : b.toNat < 0xF5) :
    sequenceLength? b = some 4 := by
  have htwo : ¬ b < 0xE0 := by simp [UInt8.lt_iff_toNat_lt]; omega
  have hthree : ¬ b < 0xF0 := by simp [UInt8.lt_iff_toNat_lt]; omega
  rw [sequenceLength?, if_neg fun h => htwo h.2, if_neg fun h => hthree h.2, if_pos]
  constructor <;> simp [UInt8.le_iff_toNat_le, UInt8.lt_iff_toNat_lt] <;> omega

/-- The lead byte of a character tells the number of its bytes. -/
theorem exists_encodeChar_eq_cons (c : Char) : ∃ b bs, String.utf8EncodeChar c = b :: bs ∧
    (bs = [] ∧ sequenceLength? b = none ∧ b < 0x80 ∧ b.toNat = c.toNat ∨
      sequenceLength? b = some (bs.length + 1)) := by
  obtain ⟨b, bs, he, h⟩ := Utf8.exists_encodeChar_eq_cons c
  refine ⟨b, bs, he, ?_⟩
  rcases h with ⟨hl, hc, hb⟩ | ⟨hl, hb, hb'⟩ | ⟨hl, hb, hb'⟩ | ⟨hl, hb, hb'⟩
  · exact Or.inl ⟨List.length_eq_zero_iff.1 hl, sequenceLength?_eq_none hb,
      UInt8.lt_iff_toNat_lt.2 hb, hc⟩
  · exact Or.inr (by rw [hl, sequenceLength?_eq_two hb hb'])
  · exact Or.inr (by rw [hl, sequenceLength?_eq_three hb hb'])
  · exact Or.inr (by rw [hl, sequenceLength?_eq_four hb hb'])

/-- **Decoding takes back what has been encoded.** -/
theorem decodeUtf8_encode (s : List Char) : decodeUtf8 (Utf8.encode s) = (s, .complete) := by
  induction s with
  | nil => rw [Utf8.encode, List.flatMap_nil, decodeUtf8]
  | cons c s ih =>
    obtain ⟨b, bs, he, hb⟩ := exists_encodeChar_eq_cons c
    have hs : Utf8.encode (c :: s) = b :: (bs ++ Utf8.encode s) := by
      rw [Utf8.encode, List.flatMap_cons, he]
      rfl
    have hn : Utf8.next (b :: (bs ++ Utf8.encode s)) = .ok (c, Utf8.encode s) := by
      rw [← List.cons_append, ← he]
      exact Utf8.next_encode c _
    rw [hs, decodeUtf8]
    -- A byte of its own is a character; a longer sequence is cut off by its length.
    rcases hb with ⟨rfl, hl, hb, hc⟩ | hl
    · have hc : Char.ofNat b.toNat = c := by rw [hc]; exact Char.ofNat_toNat c
      simp only [hl, List.nil_append, ih, if_pos hb, hc]
    · have hle : ¬ (bs ++ Utf8.encode s).length + 1 < bs.length + 1 := by
        rw [List.length_append]
        omega
      simp only [hl, if_neg hle]
      split
      · rename_i c' rest h
        rw [hn] at h
        obtain ⟨rfl, rfl⟩ := Prod.mk.inj (Except.ok.inj h)
        rw [ih]
      · rename_i h
        rw [hn] at h
        cases h

/-! ## Detecting the encoding -/

/-- Bytes that are not zero show UTF-8, with or without a mark. -/
theorem detect_cons_cons {x y : UInt8} {bytes : List UInt8} (hx : x ≠ 0) (hy : y ≠ 0)
    (hlead : x.toNat < 0xF5) (hcut : x :: y :: bytes ≠ [0xEF, 0xBB]) :
    detect (x :: y :: bytes) =
      some (.utf8, if [0xEF, 0xBB, 0xBF] <+: x :: y :: bytes then 3 else 0) := by
  have hne : ∀ z : UInt8, 0xF5 ≤ z.toNat → x ≠ z := by
    rintro z hz rfl
    omega
  rw [detect.eq_def]
  split
  case h_7 bytes' h =>
    rw [if_pos ⟨bytes', h.symm⟩]
  case h_8 x' y' bytes' _ _ _ _ hm h =>
    obtain ⟨rfl, hbytes⟩ := List.cons.inj h
    obtain ⟨rfl, rfl⟩ := List.cons.inj hbytes
    rw [if_neg hx, if_neg hy, if_neg]
    rintro ⟨t, ht⟩
    obtain ⟨hx', ht⟩ := List.cons.inj ht
    obtain ⟨hy', ht⟩ := List.cons.inj ht
    exact hm t hx'.symm hy'.symm ht.symm
  case h_3 h => exact absurd h hcut
  case h_4 h => exact absurd (List.cons.inj h).1 (hne _ (by decide))
  case h_5 h => exact absurd (List.cons.inj h).1 (hne _ (by decide))
  case h_6 h => exact absurd (List.cons.inj (List.cons.inj h).2).1 hy
  all_goals simp at *

/-- A mark is a character. -/
theorem mark_isPrefix_encode_iff {s : List Char} :
    [0xEF, 0xBB, 0xBF] <+: Utf8.encode s ↔ s.head? = some '\ufeff' := by
  cases s with
  | nil => simp [Utf8.encode]
  | cons c s =>
    have hes : Utf8.encode (c :: s) = String.utf8EncodeChar c ++ Utf8.encode s := List.flatMap_cons
    rw [hes, List.head?_cons]
    constructor
    · rintro ⟨t, ht⟩
      have hnext := Utf8.next_encode c (Utf8.encode s)
      rw [← ht] at hnext
      rw [← (Prod.mk.inj (Except.ok.inj hnext)).1]
      rfl
    · intro h
      obtain rfl := Option.some.inj h
      exact ⟨Utf8.encode s, rfl⟩

/-- **A text whose first two characters are not zero is taken as it is**, after a mark of the byte
order. A single `<` could go on to be anything. -/
theorem detect_encode_eq {s : List Char} (hz : '\x00' ∉ s.take 2) (hs : s ≠ ['<']) :
    detect (Utf8.encode s) = some (.utf8, if s.head? = some '\ufeff' then 3 else 0) := by
  cases s with
  | nil => rfl
  | cons c s =>
    have hc : c ≠ '\x00' := fun h => hz (by simp [h])
    have hmem := fun b => @Utf8.ne_zero_of_mem_encodeChar c hc b
    obtain ⟨b, bs, he, hb⟩ := Utf8.exists_encodeChar_eq_cons c
    have hes : Utf8.encode (c :: s) = b :: (bs ++ Utf8.encode s) := by
      rw [Utf8.encode, List.flatMap_cons, he]
      rfl
    have hb₀ : b ≠ 0 := hmem b (by simp [he])
    have hlead : b.toNat < 0xF5 := by
      rcases hb with ⟨-, -, h⟩ | ⟨-, -, h⟩ | ⟨-, -, h⟩ | ⟨-, -, h⟩ <;> omega
    rw [hes, List.head?_cons]
    cases ht : bs ++ Utf8.encode s with
    | nil =>
      -- One byte that is a character of its own.
      obtain ⟨rfl, hs'⟩ := List.append_eq_nil_iff.1 ht
      obtain rfl : s = [] := by
        cases s with
        | nil => rfl
        | cons c' s =>
          obtain ⟨b', bs', he', -⟩ := Utf8.exists_encodeChar_eq_cons c'
          simp [Utf8.encode, he'] at hs'
      rcases hb with ⟨-, hbc, hlt⟩ | ⟨h, -⟩ | ⟨h, -⟩ | ⟨h, -⟩
      · have hlow : b ∉ [(0xFE : UInt8), 0xFF, 0xEF, 0x00, 0x3C] := by
          intro h
          simp only [List.mem_cons, List.not_mem_nil, or_false] at h
          rcases h with rfl | rfl | rfl | rfl | rfl
          · simp at hlt
          · simp at hlt
          · simp at hlt
          · exact hb₀ rfl
          · have hlt : '<' = c := Char.toNat_inj.1 hbc
            exact hs (by rw [hlt])
        have hfeff : c ≠ '\ufeff' := by
          rintro rfl
          rw [hbc] at hlt
          exact absurd hlt (by decide)
        rw [detect, if_neg hlow, if_neg (by simpa using hfeff)]
      all_goals cases h
    | cons y t =>
      have hmark : [0xEF, 0xBB, 0xBF] <+: b :: y :: t ↔ some c = some '\ufeff' := by
        rw [← ht, ← hes]
        exact mark_isPrefix_encode_iff
      -- The second byte belongs to the first character or to the second one.
      have hy : y ≠ 0 := by
        cases bs with
        | cons b' bs => exact hmem y (by simp [he, (List.cons.inj ht).1])
        | nil =>
          cases s with
          | nil => cases ht
          | cons c' s =>
            refine Utf8.ne_zero_of_mem_encodeChar (c := c') (fun h => hz (by simp [h])) ?_
            obtain ⟨b', bs', he', -⟩ := Utf8.exists_encodeChar_eq_cons c'
            rw [List.nil_append, Utf8.encode, List.flatMap_cons, he'] at ht
            rw [he', (List.cons.inj ht).1]
            exact List.mem_cons_self
      have hcut : b :: y :: t ≠ [0xEF, 0xBB] := by
        intro h
        obtain ⟨rfl, hcut⟩ := List.cons.inj h
        rw [hcut] at ht
        -- The lead byte of three is followed by two more.
        rcases hb with ⟨-, -, hb⟩ | ⟨-, -, hb⟩ | ⟨hl, -⟩ | ⟨-, hb, -⟩
        · simp at hb
        · simp at hb
        · have := congrArg List.length ht
          simp [hl] at this
          omega
        · simp at hb
      rw [detect_cons_cons hb₀ hy hlead hcut]
      simp only [hmark]

/-- A text that starts with `<` and another character is taken as it is. -/
theorem detect_encode {c : Char} (hc : c ≠ '\x00') (s : List Char) :
    detect (Utf8.encode ('<' :: c :: s)) = some (.utf8, 0) := by
  rw [detect_encode_eq (by simp [Ne.symm hc]) (by simp)]
  rfl

/-- The source of a text in UTF-8. -/
theorem ofFamily_encode (s : List Char) :
    ofFamily .utf8 0 (Utf8.encode s) = ⟨.utf8, s, s, .complete⟩ := by
  simp [ofFamily, Family.decode, Family.alphabet, decodeUtf8_encode]

/-- The text after a mark of the byte order. -/
def withoutMark : List Char → List Char
  | '\ufeff' :: s => s
  | s => s

/-- What is read of a text is an end of it. -/
theorem withoutMark_suffix (s : List Char) : withoutMark s <:+ s := by
  unfold withoutMark
  split
  · exact List.suffix_cons _ _
  · exact List.suffix_rfl

/-- What is left without a mark is the text, or stands behind the mark. -/
theorem eq_or_eq_of_withoutMark {s t : List Char} (h : withoutMark s = t) :
    s = t ∨ s = '\ufeff' :: t := by
  unfold withoutMark at h
  split at h
  · exact Or.inr (by rw [h])
  · exact Or.inl h

/-- A text without a mark is read from its first character on. -/
theorem withoutMark_eq_self {s : List Char} (h : s.head? ≠ some '\ufeff') : withoutMark s = s := by
  unfold withoutMark
  split
  · exact absurd rfl h
  · rfl

/-- A mark is shown and not read. -/
theorem ofFamily_encode_mark (s : List Char) :
    ofFamily .utf8 (if s.head? = some '\ufeff' then 3 else 0) (Utf8.encode s) =
      ⟨.utf8, s, withoutMark s, .complete⟩ := by
  split
  · rename_i h
    obtain ⟨t, rfl⟩ : ∃ t, s = '\ufeff' :: t := by
      cases s with
      | nil => cases h
      | cons c s => exact ⟨s, by rw [Option.some.inj h]⟩
    have hbytes : Utf8.encode ('\ufeff' :: t) = [0xEF, 0xBB, 0xBF] ++ Utf8.encode t := by
      rw [Utf8.encode, List.flatMap_cons]
      congr 1
    rw [hbytes, ofFamily, List.drop_left' (by rfl)]
    simp [Family.decode, Family.alphabet, decodeUtf8_encode, withoutMark]
  · rename_i h
    rw [ofFamily_encode, withoutMark_eq_self h]

/-! ## Reading a source -/

/-- A source is read if its root is, and the limit on amplification is not reached. -/
theorem read_eq_ok_iff {s : Source} {standalone : Bool} {root : Node} :
    s.read standalone = .ok root ↔
      s.limit? standalone = none ∧ s.readRoot standalone = .ok root := by
  rw [read]
  cases s.limit? standalone <;> simp

/-- The limit is not reached if the account is kept to the end, part by part. -/
theorem limit?_eq_none {s : Source} {standalone : Bool} {d : Declarations} {x y z : Account}
    {text rest : List Char}
    (hp : Prolog.meterProlog s.alphabet s.ending .opening { standalone } s.body
      ⟨s.alphabet.sizeTo s.shown s.body, 0⟩ = .ok (d, x, text))
    (hc : meterContent d s.alphabet s.ending .document d.entities [] text x = .ok (y, rest))
    (he : Prolog.meterEpilog s.alphabet s.ending rest y = .ok z) :
    s.limit? standalone = none := by
  have hm : s.meter standalone = .ok z := by
    rw [meter]
    simp only [hp, hc, he, bind, Except.bind]
  rw [limit?, hm]

end Source

/-- Markup without an XML declaration is read as the source that its bytes show. -/
theorem parse_eq_read {m : Markup} {s : Source} {family : Source.Family} {mark : Nat}
    (hm : m.surrogates? = none) (hd : Source.detect m.toBytes = some (family, mark))
    (hs : Source.ofFamily family mark m.toBytes = s) (hx : s.declaration? = none) :
    m.parse = s.read false := by
  rw [parse, hm, hd]
  dsimp only
  rw [parseAs, hs]
  simp only [hx]

/-- Markup is read if it has bytes, and the encoding that they show can be. -/
theorem parse_eq_ok_iff {m : Markup} {root : Node} : m.parse = .ok root ↔
    m.surrogates? = none ∧ ∃ family mark, Source.detect m.toBytes = some (family, mark) ∧
      parseAs m family mark = .ok root := by
  rw [parse]
  cases m.surrogates? with
  | some s => simp
  | none =>
    cases Source.detect m.toBytes with
    | none => simp
    | some x =>
      obtain ⟨family, mark⟩ := x
      refine ⟨fun h => ⟨rfl, family, mark, rfl, h⟩, ?_⟩
      rintro ⟨-, family', mark', hx, h⟩
      obtain ⟨rfl, rfl⟩ := Prod.mk.inj (Option.some.inj hx)
      exact h

end FxmlWiring.Markup
