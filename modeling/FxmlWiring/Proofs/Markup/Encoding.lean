import FxmlWiring.Proofs.Markup.RoundTrip
import FxmlWiring.Proofs.Markup.Utf16
import FxmlWiring.Proofs.Markup.WiderProlog

/-! # Markup in several encodings

A text may be handed in as it is, as its bytes in UTF-8, or as bytes behind a **mark** that shows
the encoding, in UTF-8 or in UTF-16 of either order. Unless the text names an encoding itself, its
bytes in UTF-8 are parsed as the text (`parse_encode_utf8`); and if it is accepted, so are its bytes
behind a mark, as the same tree, unless they get to the limit on amplification
(`parse_encodeMarked_cases`). -/

namespace FxmlWiring.Markup

open Text

/-! ## The alphabets of the encodings -/

namespace Alphabet

/-- A letter or sign of ASCII is one of the first 128 characters. -/
theorem lt_of_isAsciiStart {c : Char} (h : isAsciiStart c = true) : c.toNat < 0x80 := by
  simp only [isAsciiStart, Bool.or_eq_true, decide_eq_true_eq] at h
  rcases h with (h | rfl) | rfl
  · have hletter : (c.isUpper || c.isLower) = true := h
    rcases Bool.or_eq_true_iff.1 hletter with hu | hl
    · have hc : 'A'.val ≤ c.val ∧ c.val ≤ 'Z'.val := of_decide_eq_true hu
      exact Nat.lt_of_le_of_lt (UInt32.le_iff_toNat_le.1 hc.2) (by decide)
    · have hc : c.val ≤ 'z'.val := of_decide_eq_true (Bool.and_eq_true_iff.1 hl).2
      exact Nat.lt_of_le_of_lt (UInt32.le_iff_toNat_le.1 hc) (by decide)
  · decide
  · decide

/-- What spells keywords in UTF-8 does so in UTF-16. -/
theorem spells_utf16_of_utf8 {c : Char} (h : utf8.spellsKeyword c = true) :
    utf16.spellsKeyword c = true := by
  have hall : ∀ n < 0x80, utf8.spellsKeyword (Char.ofNat n) = true →
      utf16.spellsKeyword (Char.ofNat n) = true := by decide +kernel
  exact Char.ofNat_toNat c ▸ hall c.toNat (lt_of_isAsciiStart h) (by rwa [Char.ofNat_toNat])

/-- The names that only UTF-16 has start with characters that no name in UTF-8 holds. -/
theorem starts_utf8_of_continues {c : Char} (h : utf8.continuesName c = true)
    (h' : utf16.startsName c = true) : utf8.startsName c = true := by
  change isWideStart c = true at h'
  simp only [isWideStart, Bool.or_eq_true, decide_eq_true_eq] at h'
  have hmore : utf8.continuesName 'ª' = false ∧ utf8.continuesName 'µ' = false ∧
      utf8.continuesName 'º' = false := by decide +kernel
  rcases h' with ((h' | rfl) | rfl) | rfl
  · exact h'
  · cases hmore.1.symm.trans h
  · cases hmore.2.1.symm.trans h
  · cases hmore.2.2.symm.trans h

/-- What starts names in UTF-8 does so in UTF-16. -/
theorem starts_utf16_of_utf8 {c : Char} (h : utf8.startsName c = true) :
    utf16.startsName c = true := by
  change NameTable.isNameStart c = true at h
  change isWideStart c = true
  simp [isWideStart, h]

/-- A name in UTF-8 opens an element in UTF-16. -/
theorem opens_utf16_of_starts {c : Char} (h : utf8.startsName c = true) :
    utf16.opensElement c = true := by
  have hwide : isWideStart c = true := starts_utf16_of_utf8 h
  have hbroken : utf8.startsName '\ufffe' = false ∧ utf8.startsName '\uffff' = false := by
    decide +kernel
  change (isLatinStart c || ('ÿ' < c && c ≠ '\ufffe' && c ≠ '\uffff')) = true
  simp only [isLatinStart, hwide, Bool.and_true, Bool.or_eq_true, Bool.and_eq_true,
    decide_eq_true_eq]
  by_cases hc : c ≤ 'ÿ'
  · exact Or.inl hc
  · refine Or.inr ⟨⟨Char.not_le.1 hc, ?_⟩, ?_⟩
    · rintro rfl
      cases hbroken.1.symm.trans h
    · rintro rfl
      cases hbroken.2.symm.trans h

theorem utf8_isWithin_utf8 : utf8.IsWithin utf8 where
  separates := ⟨separates_utf8, separates_utf8⟩
  units_pos c := ⟨units_utf8_pos c, units_utf8_pos c⟩
  starts _ h := h
  continues _ h := h
  starts_of_continues _ _ h := h
  spells _ h := h
  not_spells := eq_false_of_mem_signs (by decide +kernel)
  opens _ := opensElement_of_startsName
  breaksAtReturn := rfl

theorem utf8_isWithin_utf16 : utf8.IsWithin utf16 where
  separates := ⟨separates_utf8, separates_utf16⟩
  units_pos c := ⟨units_utf8_pos c, units_utf16_pos c⟩
  starts _ := starts_utf16_of_utf8
  continues _ h := Bool.or_eq_true_iff.2 (Or.inr h)
  starts_of_continues _ := starts_utf8_of_continues
  spells _ := spells_utf16_of_utf8
  not_spells := eq_false_of_mem_signs (by decide +kernel)
  opens _ := opens_utf16_of_starts
  breaksAtReturn := rfl

end Alphabet

/-- The alphabet of UTF-8 lies within that of every family. -/
theorem Source.Family.isWithin_alphabet (family : Family) :
    Alphabet.utf8.IsWithin family.alphabet := by
  cases family with
  | utf8 => exact Alphabet.utf8_isWithin_utf8
  | utf16 => exact Alphabet.utf8_isWithin_utf16

/-! ## Bytes behind a mark -/

namespace Source.Family

/-- The bytes of a text in the encoding. -/
def encode : Family → List Char → List UInt8
  | utf8, s => Utf8.encode s
  | utf16 bigEndian, s => Utf16.encode bigEndian s

/-- The byte order mark of the encoding. -/
def mark : Family → List UInt8
  | utf8 => [0xEF, 0xBB, 0xBF]
  | utf16 true => [0xFE, 0xFF]
  | utf16 false => [0xFF, 0xFE]

/-- The bytes of a text behind the byte order mark. -/
def encodeMarked (family : Family) (s : List Char) : List UInt8 :=
  family.mark ++ family.encode s

example : (utf16 false).encodeMarked ['<', '😀'] =
    [0xFF, 0xFE, 0x3C, 0x00, 0x3D, 0xD8, 0x00, 0xDE] := by decide

variable (family : Family) (s : List Char)

/-- **Decoding takes back what has been encoded.** -/
theorem decode_encode : family.decode (family.encode s) = (s, .complete) := by
  cases family with
  | utf8 => exact decodeUtf8_encode s
  | utf16 bigEndian => exact decodeUtf16_encode bigEndian s

/-- A mark shows the encoding. -/
theorem detect_encodeMarked :
    detect (family.encodeMarked s) = some (family, family.mark.length) := by
  rcases family with _ | (_ | _) <;> rfl

/-- **A mark is shown, and the text behind it is read.** -/
theorem ofFamily_encodeMarked : ofFamily family family.mark.length (family.encodeMarked s) =
    ⟨family.alphabet, '\ufeff' :: s, s, .complete⟩ := by
  have hne : family.mark.length ≠ 0 := by rcases family with _ | (_ | _) <;> decide
  rw [ofFamily, encodeMarked, List.drop_left, decode_encode]
  simp only [if_neg hne]

end Source.Family

/-! ## Parsing -/

/-- The text starts with an XML declaration that names an encoding, behind a mark or not. -/
def NamesEncoding (s : List Char) : Prop :=
  ∃ name standalone settings rest, XmlDeclaration.Says (some name) standalone settings ∧
    Source.withoutMark s = declared settings rest

/-- A declaration has a question mark behind its first character. -/
theorem not_namesEncoding {s : List Char} (hhead : s.head? ≠ some '\ufeff')
    (h : s[1]? ≠ some '?') : ¬ NamesEncoding s := by
  rintro ⟨name, standalone, settings, rest, -, hs⟩
  rw [Source.withoutMark_eq_self hhead] at hs
  refine h ?_
  rw [hs]
  rfl

namespace Source

/-- A declaration that names no encoding leaves the source in its encoding. -/
theorem redecode_none (s : Source) (markup : Markup) (family : Family) (mark : Nat)
    (rest nameRest : List Char) :
    s.redecode markup family mark none rest nameRest = .ok { s with body := rest } := by
  cases markup <;> rfl

/-- No encoding is read from the declaration of a text that names none. -/
theorem encoding_eq_none {text shown settings closing : List Char}
    {contents : XmlDeclaration.Contents} (hn : ¬ NamesEncoding text)
    (hd : (Source.mk .utf8 shown (withoutMark text) .complete).declaration? =
      some (settings, closing)) (hr : XmlDeclaration.read settings = .ok contents) :
    contents.encoding = none := by
  obtain ⟨rest, -, -, -, hb, -⟩ := exists_of_declaration? Alphabet.separates_utf8 hd
  have hsays := XmlDeclaration.read_sound hr
  cases he : contents.encoding with
  | none => rfl
  | some x =>
    rw [he] at hsays
    exact absurd ⟨x.1, contents.standalone, settings, rest, hsays, hb⟩ hn

end Source

section Texts

variable {m : String} (hz : '\x00' ∉ m.toList) (hn : ¬ NamesEncoding m.toList)
include hz hn

/-- **The bytes of a text in UTF-8 are parsed as the text.** -/
theorem parse_encode_utf8 :
    (Markup.encoded (Utf8.encode m.toList)).parse = (Markup.ofString m).parse := by
  rw [parse, parse, surrogates?_ofString, toBytes_ofString]
  by_cases hm : m.toList = ['<']
  · -- Both are a start that could go on in different encodings.
    rw [toBytes, hm]
    rfl
  · rw [toBytes, Source.detect_encode_eq (fun h => hz (List.mem_of_mem_take h)) hm]
    dsimp only [surrogates?]
    rw [parseAs, parseAs, toBytes_ofString, toBytes, Source.ofFamily_encode_mark]
    dsimp only
    split
    · rfl
    · rename_i settings closing hd
      split
      · rfl
      · rename_i contents hr
        rw [Source.encoding_eq_none hn hd hr, Source.redecode_none, Source.redecode_none]

/-- The bytes of an accepted text behind a mark are read from the same character on, and from there
on as the same tree. -/
theorem exists_read_of_encodeMarked {root : Node} (h : (Markup.ofString m).parse = .ok root)
    (hhead : m.toList.head? ≠ some '\ufeff') (family : Source.Family) :
    ∃ body standalone, body <:+ m.toList ∧
      (Markup.encoded (family.encodeMarked m.toList)).parse =
        (Source.mk family.alphabet ('\ufeff' :: m.toList) body .complete).read standalone ∧
      (Source.mk family.alphabet ('\ufeff' :: m.toList) body .complete).readRoot standalone =
        .ok root := by
  have hab := family.isWithin_alphabet
  have hm : m.toList ≠ ['<'] := by
    intro hm
    rw [parse, surrogates?_ofString, toBytes_ofString, hm] at h
    cases h
  have hplain := Source.withoutMark_eq_self hhead
  -- The text is read as UTF-8 from its first character on.
  rw [parse, surrogates?_ofString, toBytes_ofString,
    Source.detect_encode_eq (fun h => hz (List.mem_of_mem_take h)) hm, if_neg hhead] at h
  have hsource : Source.ofFamily .utf8 0 (decoded (CodePoint.ofString m)).toBytes =
      ⟨.utf8, m.toList, m.toList, .complete⟩ := by
    change Source.ofFamily .utf8 0 (ofString m).toBytes = _
    rw [toBytes_ofString, Source.ofFamily_encode]
  have h := exists_of_parseAs h
  rw [hsource] at h
  rw [parse, toBytes, family.detect_encodeMarked]
  dsimp only [surrogates?]
  rw [parseAs, toBytes, family.ofFamily_encodeMarked]
  dsimp only
  rcases h with ⟨hd, hr⟩ | ⟨settings, closing, contents, hd, hx, hr⟩
  · obtain ⟨-, r, hs, -⟩ := Source.exists_scan_of_readRoot Alphabet.separates_utf8 hr
    rw [Source.declaration?_widen hab hs, hd]
    exact ⟨_, _, List.suffix_rfl, rfl, Source.readRoot_widen hab hr⟩
  · obtain ⟨rest, isLast, hs, -, hb, hclosing⟩ :=
      Source.exists_of_declaration? Alphabet.separates_utf8 hd
    have hnone := Source.encoding_eq_none hn (hplain.symm ▸ hd) hx
    rw [Source.declaration?_widen hab hs, hd]
    dsimp only
    rw [hx]
    dsimp only
    rw [hnone, Source.redecode_none]
    refine ⟨_, _, ?_, rfl, Source.readRoot_widen hab hr⟩
    have hb : m.toList = declared settings rest := hb
    rw [hclosing, hb]
    exact ⟨"<?xml".toList ++ settings ++ "?>".toList, by simp [declared]⟩

/-- **The bytes of an accepted text behind a mark are parsed as the same tree**, or get to the limit
on amplification. -/
theorem parse_encodeMarked_cases {root : Node} (h : (Markup.ofString m).parse = .ok root)
    (hhead : m.toList.head? ≠ some '\ufeff') (family : Source.Family) :
    (Markup.encoded (family.encodeMarked m.toList)).parse = .ok root ∨
      ∃ p, (Markup.encoded (family.encodeMarked m.toList)).parse =
        .error (.malformed .amplification p) := by
  obtain ⟨body, standalone, -, hp, hr⟩ := exists_read_of_encodeMarked hz hn h hhead family
  rw [hp, Source.read]
  split
  · exact Or.inr ⟨_, rfl⟩
  · exact Or.inl hr

/-- **They do not get to the limit** if the text has no document type. -/
theorem parse_encodeMarked {root : Node} (h : (Markup.ofString m).parse = .ok root)
    (hhead : m.toList.head? ≠ some '\ufeff') (hd : ¬ "<!DOCTYPE".toList <:+: m.toList)
    (family : Source.Family) :
    (Markup.encoded (family.encodeMarked m.toList)).parse = .ok root := by
  obtain ⟨body, standalone, hb, hp, hr⟩ := exists_read_of_encodeMarked hz hn h hhead family
  rw [hp, Source.read_eq_ok_iff]
  refine ⟨Source.limit?_eq_none_of_not_infix family.separates_alphabet family.takesBytes ?_, hr⟩
  exact fun hin => hd (hin.trans hb.isInfix)

end Texts

end FxmlWiring.Markup
