import FxmlWiring.Check
import FxmlWiring.Proofs.Markup.ContentRun
import FxmlWiring.Proofs.Markup.Continuation
import FxmlWiring.Proofs.Markup.Failure
import FxmlWiring.Proofs.Markup.Source

/-! # Documents that are cut off

A document that can be read has closed its root element, so what follows adds no element: if a
longer text can be read as well, it is read as the same tree. -/

namespace FxmlWiring.Markup

open Text

namespace Source

/-- Every character takes a code unit. -/
theorem Family.units_alphabet_pos (family : Family) (c : Char) : 0 < family.alphabet.units c := by
  cases family with
  | utf8 => exact Alphabet.units_utf8_pos c
  | utf16 => exact Alphabet.units_utf16_pos c

/-! ## Sources that go on -/

/-- The source goes on with more text. What it shows, and how its bytes end, may change. -/
structure Continues (s s' : Source) (more : List Char) : Prop where
  alphabet : s'.alphabet = s.alphabet
  body : s'.body = s.body ++ more

variable {s s' : Source} {more : List Char}

/-- A document whose bytes end inside a character has no epilog. -/
theorem not_isTruncated_of_readEpilog {a : Alphabet} {ending : Ending} {text : List Char}
    (h : Prolog.readEpilog a ending text = .ok ()) : ending.isTruncated = false := by
  fun_induction Prolog.readEpilog a ending text with
  | case1 hc => rw [hc]; rfl
  | case2 => cases h
  | case3 _ _ hr => simpa using hr.2
  | case4 => cases h
  | case5 _ _ _ _ _ _ ih => exact ih h
  | case6 _ _ _ _ _ _ ih => exact ih h
  | case7 _ _ _ _ _ _ ih => exact ih h
  | case8 => cases h

/-- The parts of a document that is read. -/
theorem exists_of_readRoot {standalone : Bool} {root : Node}
    (h : s.readRoot standalone = .ok root) : ∃ d text rest,
      Prolog.readProlog s.alphabet s.ending .opening { standalone } s.body = .ok (d, text) ∧
      readContent d s.alphabet s.ending .document d.entities [] [] text = .ok ([root], rest) ∧
      Prolog.readEpilog s.alphabet s.ending rest = .ok () := by
  unfold readRoot at h
  split at h
  · cases h
  · cases h
  · rename_i d text hp
    split at h
    · cases h
    · rename_i root' rest hc
      split at h
      · cases h
      · rename_i he
        obtain rfl := Except.ok.inj h
        exact ⟨d, text, rest, hp, hc, he⟩
    · cases h

/-- Where the reader of a root element succeeds, something follows the first token. -/
theorem exists_scan_of_readRoot (ha : s.alphabet.Separates) {standalone : Bool} {root : Node}
    (h : s.readRoot standalone = .ok root) : s.ending.isTruncated = false ∧
      ∃ r, Prolog.scan s.alphabet s.ending s.body = .ok r ∧ r.rest ≠ [] := by
  obtain ⟨d, text, rest, hp, -, he⟩ := exists_of_readRoot h
  have he := not_isTruncated_of_readEpilog he
  exact ⟨he, Prolog.exists_scan_of_readProlog ha he hp⟩

namespace Continues

variable (hs : s.Continues s' more) (ha : s.alphabet.Separates)
include hs ha

/-- **The root element stays the same** if more text follows. -/
theorem root_eq (hu : ∀ c, 0 < s.alphabet.units c) {standalone : Bool} {root root' : Node}
    (h : s.readRoot standalone = .ok root) (h' : s'.readRoot standalone = .ok root') :
    root' = root := by
  obtain ⟨d, text, rest, hp, hc, he⟩ := exists_of_readRoot h
  obtain ⟨d', text', rest', hp', hc', -⟩ := exists_of_readRoot h'
  rw [hs.alphabet, hs.body] at hp'
  rw [hs.alphabet] at hc'
  have hprolog := Prolog.readProlog_append ha (not_isTruncated_of_readEpilog he) hp s'.ending more
  obtain ⟨rfl, rfl⟩ := Prod.mk.inj (Except.ok.inj (hprolog.symm.trans hp'))
  -- Both documents have the same prolog, so the run over the first content is one over the second.
  have hrun := ((readContent_eq_ok_iff ha hu).1 hc).append more
  have hcontent : readContent d s.alphabet s'.ending .document d.entities [] [] (text ++ more) =
      .ok ([root], rest ++ more) := (readContent_eq_ok_iff ha hu).2 hrun
  obtain ⟨hroot, -⟩ := Prod.mk.inj (Except.ok.inj (hcontent.symm.trans hc'))
  exact (List.cons.inj hroot).1.symm

/-- **The declaration stays the same** if something follows the first token. -/
theorem declaration?_eq (he : s.ending.isTruncated = false) {r : Prolog.Scanned}
    (h : Prolog.scan s.alphabet s.ending s.body = .ok r) (hr : r.rest ≠ []) :
    s'.declaration? = s.declaration?.map fun x => (x.1, x.2 ++ more) := by
  obtain ⟨t, rest, isLast⟩ := r
  have h' := Prolog.scan_append ha he h hr s'.ending more
  rw [← hs.alphabet, ← hs.body] at h'
  by_cases ht : t = .xmlDeclaration
  · subst ht
    obtain ⟨u, -, hb⟩ := (Prolog.leads_of_scan ha h).exists_settings rfl
    have hb : s.body = declared u rest := by simpa [declared] using hb
    have hb' : s'.body = declared u (rest ++ more) := by simp [hs.body, hb, declared]
    rw [declaration?_of_scan h hb, declaration?_of_scan h' hb']
    rfl
  · have ht' : t.extend more ≠ .xmlDeclaration := by
      cases t <;> simp_all [Prolog.Token.extend]
    simp [declaration?, h, h', Prolog.Scanned.extend, ht, ht']

end Continues

/-! ## Bytes that go on -/

/-- Two bytes show the encoding, whatever follows them, if they show one. -/
theorem detect_append {bytes : List UInt8} {x : Family × Nat} (h : detect bytes = some x)
    (hl : 2 ≤ bytes.length) (more : List UInt8) : detect (bytes ++ more) = some x := by
  rw [detect.eq_def] at h
  split at h
  case h_3 => cases h
  case h_8 b b' bs hcut hbig hlittle hless hmark =>
    rw [List.cons_append, List.cons_append, detect.eq_8 _ _ _ ?_ hbig hlittle hless ?_]
    · exact h
    · intro hb hb' hbs
      exact hcut hb hb' (List.append_eq_nil_iff.1 hbs).1
    · intro t hb hb' hbs
      cases bs with
      | nil => exact hcut hb hb' rfl
      | cons c bs => exact hmark bs hb hb' (by rw [(List.cons.inj hbs).1])
  all_goals first
    | exact h
    | simp at hl

/-- The mark of a document in UTF-8. -/
theorem mark_of_detect {bytes : List UInt8} {mark : Nat} (h : detect bytes = some (.utf8, mark)) :
    mark = if [0xEF, 0xBB, 0xBF] <+: bytes then 3 else 0 := by
  have hzero : mark = 0 → ¬ [0xEF, 0xBB, 0xBF] <+: bytes →
      mark = if [0xEF, 0xBB, 0xBF] <+: bytes then 3 else 0 := by
    intro hm hn
    rw [if_neg hn, hm]
  rw [detect.eq_def] at h
  split at h
  case h_1 =>
    cases h
    exact hzero rfl (by simp)
  case h_2 =>
    split at h
    · cases h
    · cases h
      exact hzero rfl (by simp)
  case h_7 bs =>
    cases h
    exact (if_pos ⟨bs, rfl⟩).symm
  case h_8 b b' bs _ _ _ _ hmark =>
    refine hzero ?_ ?_
    · split at h
      · cases h
      · split at h <;> cases h
        rfl
    · rintro ⟨t, ht⟩
      obtain ⟨hb, ht⟩ := List.cons.inj ht
      obtain ⟨hb', ht⟩ := List.cons.inj ht
      exact hmark t hb.symm hb'.symm ht.symm
  all_goals cases h

/-- Code units that make up characters do so if more of them follow. -/
theorem exists_decodeUnits_append {isOdd isOdd' : Bool} {us : List Nat}
    (h : (decodeUnits isOdd us).2.isTruncated = false) (vs : List Nat) :
    ∃ more, (decodeUnits isOdd' (us ++ vs)).1 = (decodeUnits isOdd us).1 ++ more := by
  -- Only a high surrogate at the end would go with what follows.
  fun_induction decodeUnits isOdd us with
  | case1 => exact ⟨_, rfl⟩
  | case2 => cases h
  | case3 u hu v us cs ending he ih =>
    rw [he] at ih
    obtain ⟨more, ih⟩ := ih h
    refine ⟨more, ?_⟩
    rw [List.cons_append, List.cons_append, decodeUnits, if_pos hu]
    exact congrArg _ ih
  | case4 u us hu cs ending he c ih =>
    rw [he] at ih
    obtain ⟨more, ih⟩ := ih h
    refine ⟨more, ?_⟩
    rw [List.cons_append, decodeUnits.eq_def]
    simp only [if_neg hu]
    exact congrArg _ ih

/-- Whole code units are the same ones if more bytes follow. -/
theorem exists_units16_append (bigEndian : Bool) (bytes more : List UInt8) :
    ∃ vs, (units16 bigEndian (bytes ++ more)).1 = (units16 bigEndian bytes).1 ++ vs := by
  fun_induction units16 bigEndian bytes with
  | case1 x y bytes us isOdd hu ih =>
    rw [hu] at ih
    obtain ⟨vs, ih⟩ := ih
    exact ⟨vs, congrArg _ ih⟩
  | case2 => exact ⟨_, rfl⟩
  | case3 => exact ⟨_, rfl⟩

/-- **UTF-16 that ends with a character goes on** with whatever bytes follow. -/
theorem exists_decodeUtf16_append {bigEndian : Bool} {bytes : List UInt8}
    (h : (decodeUtf16 bigEndian bytes).2.isTruncated = false) (more : List UInt8) :
    ∃ cs, (decodeUtf16 bigEndian (bytes ++ more)).1 = (decodeUtf16 bigEndian bytes).1 ++ cs := by
  obtain ⟨vs, hvs⟩ := exists_units16_append bigEndian bytes more
  change ∃ cs, (decodeUnits (units16 bigEndian (bytes ++ more)).2
    (units16 bigEndian (bytes ++ more)).1).1 = _ ++ cs
  rw [hvs]
  exact exists_decodeUnits_append h vs

/-- **A text goes on as a source** if its bytes show the encoding and end with a character. -/
theorem exists_continues {p q : List Char} {family : Family} {mark : Nat}
    (hd : detect (Utf8.encode p) = some (family, mark)) (hl : 2 ≤ (Utf8.encode p).length)
    (he : (ofFamily family mark (Utf8.encode p)).ending.isTruncated = false) :
    ∃ more, (ofFamily family mark (Utf8.encode p)).Continues
      (ofFamily family mark (Utf8.encode (p ++ q))) more := by
  cases family with
  | utf8 =>
    obtain ⟨c, p, rfl⟩ : ∃ c t, p = c :: t := by
      cases p with
      | nil => cases hl
      | cons c p => exact ⟨c, p, rfl⟩
    have hmark := mark_of_detect hd
    simp only [mark_isPrefix_encode_iff] at hmark
    have hmark' : mark = if (c :: p ++ q).head? = some '\ufeff' then 3 else 0 := hmark
    refine ⟨q, rfl, ?_⟩
    rw [hmark, ofFamily_encode_mark, ← hmark, hmark', ofFamily_encode_mark]
    -- The mark is the first character of both texts, or of none.
    by_cases hc : c = '\ufeff'
    · rw [hc]
      rfl
    · simp [withoutMark, hc]
  | utf16 bigEndian =>
    have hbytes : (Utf8.encode (p ++ q)).drop mark = (Utf8.encode p).drop mark ++
        (Utf8.encode q).drop (mark - (Utf8.encode p).length) := by
      rw [Utf8.encode, List.flatMap_append, List.drop_append]
      rfl
    obtain ⟨more, hmore⟩ := exists_decodeUtf16_append he
      ((Utf8.encode q).drop (mark - (Utf8.encode p).length))
    refine ⟨more, rfl, ?_⟩
    rw [← hbytes] at hmore
    exact hmore

/-- A text that is longer than one character has more than one byte. -/
theorem two_le_length_encode {p : List Char} {family : Family} {mark : Nat}
    (hd : detect (Utf8.encode p) = some (family, mark))
    (hb : 2 ≤ (ofFamily family mark (Utf8.encode p)).body.length) : 2 ≤ (Utf8.encode p).length := by
  have hcons : ∀ c s, ∃ b bs, Utf8.encode (c :: s) = b :: (bs ++ Utf8.encode s) := by
    intro c s
    obtain ⟨b, bs, he, -⟩ := Utf8.exists_encodeChar_eq_cons c
    exact ⟨b, bs, by rw [Utf8.encode, List.flatMap_cons, he]; rfl⟩
  rcases p with _ | ⟨c, _ | ⟨c', s⟩⟩
  · obtain ⟨rfl, rfl⟩ := Prod.mk.inj (Option.some.inj hd)
    rw [ofFamily_encode] at hb
    cases hb
  · obtain ⟨b, bs, hbytes⟩ := hcons c []
    rcases bs with _ | ⟨b', bs⟩
    · -- A single byte shows UTF-8, and is the only character.
      rw [hbytes, List.nil_append, Utf8.encode, List.flatMap_nil, detect] at hd
      split at hd
      · cases hd
      · obtain ⟨rfl, rfl⟩ := Prod.mk.inj (Option.some.inj hd)
        rw [ofFamily_encode] at hb
        simp at hb
    · simp [hbytes]
  · obtain ⟨b, bs, hbytes⟩ := hcons c (c' :: s)
    obtain ⟨b', bs', hbytes'⟩ := hcons c' s
    simp [hbytes, hbytes']
    omega

end Source

/-! ## Texts in one encoding -/

section Decoded

variable {p p' : List CodePoint} {family : Source.Family} {mark : Nat} {more : List Char}
  {root root' : Node}

/-- A text is read from its first character on, or from the end of its declaration on. -/
theorem exists_of_parseAs (h : parseAs (.decoded p) family mark = .ok root) :
    let s := Source.ofFamily family mark (toBytes (.decoded p))
    s.declaration? = none ∧ s.readRoot false = .ok root ∨
      ∃ settings closing contents, s.declaration? = some (settings, closing) ∧
        XmlDeclaration.read settings = .ok contents ∧
        { s with body := closing.drop 2 }.readRoot contents.standalone = .ok root := by
  dsimp only
  rw [parseAs] at h
  split at h
  · rename_i hd
    exact Or.inl ⟨hd, (Source.read_eq_ok_iff.1 h).2⟩
  · rename_i settings closing hd
    split at h
    · cases h
    · rename_i contents hr
      exact Or.inr ⟨settings, closing, contents, hd, hr, (Source.read_eq_ok_iff.1 h).2⟩

/-- **A text that goes on is read as the same tree**, if it can be read at all. -/
theorem parseAs_continued
    (hs : (Source.ofFamily family mark (toBytes (.decoded p))).Continues
      (Source.ofFamily family mark (toBytes (.decoded p'))) more)
    (h : parseAs (.decoded p) family mark = .ok root)
    (h' : parseAs (.decoded p') family mark = .ok root') : root' = root := by
  have ha : (Source.ofFamily family mark (toBytes (.decoded p))).alphabet.Separates :=
    family.separates_alphabet
  have hu : ∀ c, 0 < (Source.ofFamily family mark (toBytes (.decoded p))).alphabet.units c :=
    family.units_alphabet_pos
  have h := exists_of_parseAs h
  have h' := exists_of_parseAs h'
  generalize Source.ofFamily family mark (toBytes (.decoded p)) = s at *
  generalize Source.ofFamily family mark (toBytes (.decoded p')) = s' at *
  rcases h with ⟨hd, hr⟩ | ⟨settings, closing, contents, hd, hx, hr⟩
  · obtain ⟨he, r, hscan, hne⟩ := Source.exists_scan_of_readRoot ha hr
    have hd' := hs.declaration?_eq ha he hscan hne
    rw [hd] at hd'
    rcases h' with ⟨-, hr'⟩ | ⟨settings', closing', contents', hd'', -⟩
    · exact hs.root_eq ha hu hr hr'
    · cases hd'.symm.trans hd''
  · obtain ⟨rest, isLast, hscan, -, -, rfl⟩ := Source.exists_of_declaration? ha hd
    obtain ⟨he, r, hscan', -⟩ := Source.exists_scan_of_readRoot (s := { s with body := rest }) ha hr
    have hne : rest ≠ [] := by
      rintro rfl
      cases hscan'
    have hd' := hs.declaration?_eq ha he hscan hne
    rw [hd] at hd'
    rcases h' with ⟨hd'', -⟩ | ⟨settings', closing', contents', hd'', hx', hr'⟩
    · cases hd'.symm.trans hd''
    · -- The settings are the same, and more text follows the declaration.
      obtain ⟨rfl, rfl⟩ := Prod.mk.inj (Option.some.inj (hd'.symm.trans hd''))
      obtain rfl := Except.ok.inj (hx.symm.trans hx')
      have hrest : Source.Continues { s with body := rest } { s' with body := rest ++ more } more :=
        ⟨hs.alphabet, rfl⟩
      exact hrest.root_eq ha hu hr hr'

/-- A text that is read shows its encoding, and goes on as a source. -/
theorem exists_continues_of_parse {q : List CodePoint} (h : (Markup.decoded p).parse = .ok root) :
    ∃ family mark more, Source.detect (toBytes (.decoded p)) = some (family, mark) ∧
      Source.detect (toBytes (.decoded (p ++ q))) = some (family, mark) ∧
      (Source.ofFamily family mark (toBytes (.decoded p))).Continues
        (Source.ofFamily family mark (toBytes (.decoded (p ++ q)))) more := by
  obtain ⟨-, family, mark, hd, h⟩ := parse_eq_ok_iff.1 h
  have ha : (Source.ofFamily family mark (toBytes (.decoded p))).alphabet.Separates :=
    family.separates_alphabet
  -- The body that is read is long enough for the first two bytes to decide.
  have hsource : (Source.ofFamily family mark (toBytes (.decoded p))).ending.isTruncated = false ∧
      2 ≤ (Source.ofFamily family mark (toBytes (.decoded p))).body.length := by
    rcases exists_of_parseAs h with ⟨-, hr⟩ | ⟨settings, closing, contents, hx, -, hr⟩
    · obtain ⟨he, r, hscan, hne⟩ := Source.exists_scan_of_readRoot ha hr
      have hlt := Prolog.length_scan_lt hscan
      have hpos := List.length_pos_of_ne_nil hne
      exact ⟨he, by omega⟩
    · obtain ⟨rest, -, -, -, hb, -⟩ := Source.exists_of_declaration? ha hx
      refine ⟨(Source.exists_scan_of_readRoot (s := { Source.ofFamily family mark
        (toBytes (.decoded p)) with body := closing.drop 2 }) ha hr).1, ?_⟩
      rw [hb, declared]
      simp only [List.length_cons]
      omega
  have hl := Source.two_le_length_encode hd hsource.2
  obtain ⟨more, hs⟩ := Source.exists_continues (q := CodePoint.characters q) hd hl hsource.1
  have hbytes : toBytes (.decoded (p ++ q)) = toBytes (.decoded p) ++ toBytes (.decoded q) := by
    simp [toBytes, Utf8.encode]
  refine ⟨family, mark, more, hd, ?_, ?_⟩
  · rw [hbytes]
    exact Source.detect_append hd hl _
  · rwa [← CodePoint.characters_append] at hs

/-- **A text that is cut off never passes with fewer elements.** If a text can be read, and a longer
text can be read as well, both are read as the same tree, and for all settings the same requirements
are extracted. -/
theorem longer_text_is_read_as_the_same_tree {q : List CodePoint}
    (h : (Markup.decoded p).parse = .ok root) (h' : (Markup.decoded (p ++ q)).parse = .ok root') :
    root' = root ∧ ∀ s, extract s (.decoded (p ++ q)) = extract s (.decoded p) := by
  have hroot : root' = root := by
    obtain ⟨family, mark, more, hd, hd', hs⟩ := exists_continues_of_parse (q := q) h
    obtain ⟨-, family₁, mark₁, hd₁, h⟩ := parse_eq_ok_iff.1 h
    obtain ⟨-, family₂, mark₂, hd₂, h'⟩ := parse_eq_ok_iff.1 h'
    cases hd.symm.trans hd₁
    cases hd'.symm.trans hd₂
    exact parseAs_continued hs h h'
  refine ⟨hroot, fun s => ?_⟩
  rw [extract, extract, h, h', hroot]

/-- A document with a document type. -/
def noted : String :=
  "<!DOCTYPE a[<!ENTITY b 'c'>]><a/>"

/-- What the document type declares. -/
def notedDeclarations : Declarations :=
  { entities := [(['b'], .internal ['c'])] }

/-- The document is read with whatever may follow its root element. -/
theorem parse_noted {q : String} (hl : (Source.mk .utf8 (noted.toList ++ q.toList)
      (noted.toList ++ q.toList) .complete).limit? false = none)
    (hq : Prolog.readEpilog .utf8 .complete q.toList = .ok ()) :
    (Markup.ofString (noted ++ q)).parse = .ok (.element "a" [] []) := by
  have ha := Alphabet.separates_utf8
  have ht : (noted ++ q).toList = noted.toList ++ q.toList := String.toList_append
  have hd : Source.detect (Markup.ofString (noted ++ q)).toBytes = some (.utf8, 0) := by
    rw [toBytes_ofString, ht]
    exact Source.detect_encode (by decide) _
  have hs : Source.ofFamily .utf8 0 (Markup.ofString (noted ++ q)).toBytes =
      ⟨.utf8, noted.toList ++ q.toList, noted.toList ++ q.toList, .complete⟩ := by
    rw [toBytes_ofString, ht, Source.ofFamily_encode]
  have hscan : Prolog.scan .utf8 .complete noted.toList =
      .ok ⟨.declaration "DOCTYPE".toList, noted.toList.drop 9, false⟩ := by decide +kernel
  have hx : (Source.mk .utf8 (noted.toList ++ q.toList) (noted.toList ++ q.toList)
      .complete).declaration? = none :=
    (Source.Continues.mk (s := ⟨.utf8, [], noted.toList, .complete⟩) rfl rfl).declaration?_eq
      ha rfl hscan (by decide +kernel)
  have hbase : Prolog.readProlog .utf8 .complete .opening { standalone := false } noted.toList =
      .ok (notedDeclarations, "<a/>".toList) := by decide +kernel
  have hp : Prolog.readProlog .utf8 .complete .opening { standalone := false }
      (noted.toList ++ q.toList) = .ok (notedDeclarations, "<a/>".toList ++ q.toList) :=
    Prolog.readProlog_append ha rfl hbase .complete q.toList
  have htag : Alphabet.utf8.dialect.IsTag true ['a'] [] "<a/>".toList := by
    have hn : Alphabet.utf8.IsName ['a'] := by decide +kernel
    exact ⟨[], [], hn, .nil, List.forall_mem_nil _, rfl⟩
  have hrun : ReadsTo notedDeclarations .utf8 notedDeclarations.entities [] []
      ("<a/>".toList ++ q.toList) [.element "a" [] []] q.toList :=
    .last (.startTag htag q.toList) (.emptyTag rfl [] []) rfl
  have hc : readContent notedDeclarations .utf8 .complete .document notedDeclarations.entities
      [] [] ("<a/>".toList ++ q.toList) = .ok ([.element "a" [] []], q.toList) :=
    (readContent_eq_ok_iff ha Alphabet.units_utf8_pos).2 hrun
  rw [parse_eq_read (surrogates?_ofString _) hd hs hx]
  refine Source.read_eq_ok_iff.2 ⟨hl, ?_⟩
  simp only [Source.readRoot, hp]
  rw [hc]
  simp only [hq]

/-- A comment behind the document changes nothing. -/
theorem noted_is_read_as_the_same_tree :
    (Markup.ofString noted).parse = .ok (.element "a" [] []) ∧
      (Markup.ofString (noted ++ "<!--d-->")).parse = .ok (.element "a" [] []) ∧
      ∀ s, extract s (.ofString (noted ++ "<!--d-->")) = extract s (.ofString noted) := by
  have h : (Markup.ofString (noted ++ "")).parse = .ok (.element "a" [] []) := by
    refine parse_noted ?_ (by decide +kernel)
    have hc : meterContent notedDeclarations .utf8 .complete .document notedDeclarations.entities []
        "<a/>".toList ⟨29, 0⟩ = .ok (⟨33, 0⟩, []) := by
      rw [meterContent]
      decide +kernel
    exact Source.limit?_eq_none (z := ⟨33, 0⟩) (by decide +kernel) hc (by decide +kernel)
  have h' : (Markup.ofString (noted ++ "<!--d-->")).parse = .ok (.element "a" [] []) := by
    refine parse_noted ?_ (by decide +kernel)
    have hc : meterContent notedDeclarations .utf8 .complete .document notedDeclarations.entities []
        "<a/><!--d-->".toList ⟨29, 0⟩ = .ok (⟨33, 0⟩, "<!--d-->".toList) := by
      rw [meterContent]
      decide +kernel
    exact Source.limit?_eq_none (z := ⟨41, 0⟩) (by decide +kernel) hc (by decide +kernel)
  rw [String.append_empty] at h
  refine ⟨h, h', ?_⟩
  rw [ofString, ofString, CodePoint.ofString_append] at *
  exact (longer_text_is_read_as_the_same_tree h h').2

end Decoded

end FxmlWiring.Markup
