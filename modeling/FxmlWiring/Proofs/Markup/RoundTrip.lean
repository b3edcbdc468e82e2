import FxmlWiring.Check
import FxmlWiring.Proofs.Markup.Balance
import FxmlWiring.Proofs.Markup.Written
import FxmlWiring.Proofs.Requirement.Extract

/-! # Writing a tree and reading it back

A document that is written from a writable tree is read back: parsing gives the elements of the
tree, and extracting gives what the tree asks for. Nothing stands around the root element of such a
document, so the prolog and the epilog are empty, nothing is declared, and the limit on
amplification is not reached. -/

namespace FxmlWiring.Markup

open Node

/-! ## Around the root element -/

/-- A character that may start a name opens an element. -/
theorem opensElement_of_startsName {c : Char} (h : Alphabet.utf8.startsName c = true) :
    Alphabet.utf8.opensElement c = true := by
  have ha : ∀ n < 0x80, NameTable.covers NameTable.startRanges n = true →
      Alphabet.isAsciiStart (Char.ofNat n) = true := by decide +kernel
  change (Alphabet.isAsciiStart c || decide ('\u0080' ≤ c)) = true
  rw [Bool.or_eq_true, decide_eq_true_eq, Char.le_def]
  -- An ASCII character is looked up; any other one opens an element.
  by_cases hc : c.toNat < 0x80
  · exact Or.inl (Char.ofNat_toNat c ▸ ha c.toNat hc h)
  · refine Or.inr (UInt32.le_iff_toNat_le.2 ?_)
    exact Nat.le_of_not_lt hc

/-- A name after `<` opens an element. -/
theorem scan_elementStart (ending : Ending) {n : List Char} (hn : Alphabet.utf8.IsName n)
    (s : List Char) :
    Prolog.scan .utf8 ending ('<' :: (n ++ s)) = .ok ⟨.elementStart, n ++ s, false⟩ := by
  obtain ⟨c, t, rfl, hc, -⟩ := hn
  have hbang : c ≠ '!' := by
    rintro rfl
    rw [Alphabet.separates_utf8.not_starts (by decide)] at hc
    cases hc
  have hquestion : c ≠ '?' := by
    rintro rfl
    rw [Alphabet.separates_utf8.not_starts (by decide)] at hc
    cases hc
  rw [List.cons_append, Prolog.scan.eq_5 _ _ _ _ hbang hquestion,
    if_pos (opensElement_of_startsName hc)]

/-- The prolog of a document that starts with its root element is empty. -/
theorem readProlog_elementStart {ending : Ending} {n : List Char} (hn : Alphabet.utf8.IsName n)
    (d : Declarations) (s : List Char) :
    Prolog.readProlog .utf8 ending .opening d ('<' :: (n ++ s)) = .ok (d, '<' :: (n ++ s)) := by
  rw [Prolog.readProlog, if_neg (List.cons_ne_nil _ _)]
  -- The first token starts the root element, so nothing is declared before it.
  have hs := scan_elementStart ending hn s
  split
  · rename_i h
    rw [hs] at h
    cases h
  · rename_i h
    rw [hs] at h
    obtain rfl := Except.ok.inj h
    rw [if_pos ⟨rfl, rfl⟩]

/-- Nothing is put into the account before a root element that starts the document. -/
theorem meterProlog_elementStart {ending : Ending} {n : List Char} (hn : Alphabet.utf8.IsName n)
    (d : Declarations) (s : List Char) (x : Account) :
    Prolog.meterProlog .utf8 ending .opening d ('<' :: (n ++ s)) x =
      .ok (d, x, '<' :: (n ++ s)) := by
  rw [Prolog.meterProlog, if_neg (List.cons_ne_nil _ _)]
  have hs := scan_elementStart ending hn s
  split
  · rename_i h
    rw [hs] at h
    cases h
  · rename_i h
    rw [hs] at h
    obtain rfl := Except.ok.inj h
    rw [if_pos ⟨rfl, rfl⟩]

/-- A document that starts with its root element does not reach the limit. -/
theorem Source.limit?_elementStart {shown n s : List Char} (hn : Alphabet.utf8.IsName n)
    (standalone : Bool) :
    (Source.mk .utf8 shown ('<' :: (n ++ s)) .complete).limit? standalone = none := by
  refine Source.limit?_eq_none_of_balances Alphabet.separates_utf8 Alphabet.takesBytes_utf8 ?_
  dsimp only
  rw [meterProlog_elementStart hn]
  exact ⟨rfl, Nat.zero_le _⟩

/-! ## Whole documents -/

/-- What an element may be written as: a tag of its name at the front, and an element that is read.
-/
theorem exists_root_of_written {tag : String} {as : List Attribute} {cs : List Node} {w : List Char}
    (h : Written [.element tag as cs] w) (hn : (Node.element tag as cs).IsWritable)
    {d : Declarations} (hd : ∀ tag name, d.isTokens tag name = false) (closed : Entities) :
    ∃ parsed, (∃ s, w = '<' :: (tag.toList ++ s)) ∧
      readContent d .utf8 .complete .document closed [] [] w = .ok ([parsed], []) ∧
      SameElements ((Node.element tag as cs).preorder 0) (parsed.preorder 0) := by
  obtain ⟨ht, has, hcs⟩ := hn
  cases h with
  | @element _ _ bs _ _ v w hp hv hw =>
    cases hw
    obtain ⟨us, hus, hsu⟩ := exists_readsAs hd hv hcs
    refine ⟨.element tag bs us, ⟨bs.flatMap Attribute.write ++ '>' :: v ++ "</".toList ++
      tag.toList ++ ['>'], by simp⟩, ?_, .cons ⟨rfl, rfl, hp⟩ (hsu 1)⟩
    -- The root has no element around it, so reading ends behind it.
    have he := readContent_element (hd _) ht (has.perm hp) closed [] [] hus []
    rw [readOn, if_pos ⟨rfl, rfl⟩] at he
    simpa using he
  | @empty _ _ bs _ w hp hw =>
    cases hw
    refine ⟨.element tag bs [], ⟨bs.flatMap Attribute.write ++ "/>".toList, by simp⟩, ?_,
      .cons ⟨rfl, rfl, hp⟩ .nil⟩
    have he := readContent_empty (hd _) ht (has.perm hp) closed [] [] []
    rw [readOn, if_pos ⟨rfl, rfl⟩] at he
    simpa using he

/-- Markup whose bytes are a text that starts with the tag of an element is read from its first
character on. -/
theorem parse_of_toBytes {m : Markup} (hm : m.surrogates? = none) {text n s : List Char}
    (hb : m.toBytes = Text.Utf8.encode text) (ht : text = '<' :: (n ++ s))
    (hn : Alphabet.utf8.IsName n) :
    m.parse = (Source.mk .utf8 text text .complete).readRoot false := by
  have hd : Source.detect m.toBytes = some (.utf8, 0) := by
    obtain ⟨c, t, rfl, hc, -⟩ := hn
    rw [hb, ht]
    refine Source.detect_encode ?_ (t ++ s)
    rintro rfl
    revert hc
    decide +kernel
  have hs : Source.ofFamily .utf8 0 m.toBytes = ⟨.utf8, text, text, .complete⟩ := by
    rw [hb, Source.ofFamily_encode]
  have hx : (Source.mk .utf8 text text .complete).declaration? = none := by
    rw [Source.declaration?, ht, scan_elementStart _ hn]
  have hl : (Source.mk .utf8 text text .complete).limit? false = none := by
    rw [ht]
    exact Source.limit?_elementStart hn false
  rw [parse_eq_read hm hd hs hx, Source.read, hl]

/-- A text that starts with the tag of an element is read from its first character on. -/
theorem parse_ofString {m : String} {n s : List Char} (hm : m.toList = '<' :: (n ++ s))
    (hn : Alphabet.utf8.IsName n) :
    (Markup.ofString m).parse = (Source.mk .utf8 m.toList m.toList .complete).readRoot false :=
  parse_of_toBytes (surrogates?_ofString m) (toBytes_ofString m) hm hn

/-- **A document written from a tree is read back as its elements.** -/
theorem exists_parse_written {tag : String} {as : List Attribute} {cs : List Node} {m : String}
    (hn : (Node.element tag as cs).IsWritable) (hw : Written [.element tag as cs] m.toList) :
    ∃ parsed, (Markup.ofString m).parse = .ok parsed ∧
      SameElements ((Node.element tag as cs).preorder 0) (parsed.preorder 0) := by
  obtain ⟨parsed, ⟨s, hs⟩, hp, he⟩ := exists_root_of_written hw hn (d := { standalone := false })
    (fun _ _ => rfl) []
  refine ⟨parsed, ?_, he⟩
  rw [parse_ofString hs hn.1, Source.readRoot]
  simp only [hs, readProlog_elementStart hn.1]
  rw [← hs, hp]
  simp [Prolog.readEpilog]

/-- **Writing a tree and reading it back gives what walking the tree gives.** Parsing a document
that is written from a writable tree gives the elements of the tree in document order, each with its
tag and its attributes; and for all settings, extracting gives the requirements of the tree. -/
theorem written_tree_is_read_back {tag : String} {as : List Attribute} {cs : List Node} {m : String}
    (hn : (Node.element tag as cs).IsWritable) (hw : Written [.element tag as cs] m.toList) :
    (∃ parsed, (Markup.ofString m).parse = .ok parsed ∧
      SameElements ((Node.element tag as cs).preorder 0) (parsed.preorder 0)) ∧
    ∀ s, extract s (.ofString m) = .ok (Requirement.collect s (.element tag as cs)) := by
  obtain ⟨parsed, hp, he⟩ := exists_parse_written hn hw
  refine ⟨⟨parsed, hp, he⟩, ?_⟩
  intro s
  have hd : ∀ e ∈ (Node.element tag as cs).preorder 0, (e.2.2.map (·.name)).Nodup :=
    fun e h => (hn.attributes 0 e h).nodup
  rw [extract, hp, ← Requirement.collect_congr s hd he]
  rfl

/-- A form whose texts look like elements, and whose values hold signs of markup. -/
def trickyForm : Node :=
  .element "fx:root" [⟨"fx:id", "a\n\"&<b"⟩, ⟨"x", "😀\t"⟩]
    [.text "<B onAction='#no'/> ]]>", .element "Button" [⟨"onAction", "#go"⟩] [],
      .cdata "<L fx:id=\"no\"/>", .comment " <a/> "]

/-- The form as a document, its attributes in another order and its button closed at once. -/
def trickyMarkup : String :=
  "<fx:root x=\"😀&#9;\" fx:id=\"a&#10;&quot;&amp;&lt;b\">&lt;B onAction='#no'/&gt; ]]&gt;" ++
    "<Button onAction=\"#go\"/><![CDATA[<L fx:id=\"no\"/>]]><!-- <a/> --></fx:root>"

/-- The form is read back. -/
theorem trickyForm_is_read_back :
    trickyForm.IsWritable ∧ Written [trickyForm] trickyMarkup.toList ∧
      extract .standard (.ofString trickyMarkup) =
        .ok [.field "fx:root" "a\n\"&<b", .handler "go"] := by
  have hn : trickyForm.IsWritable := by decide +kernel
  have hw : Written [trickyForm] trickyMarkup.toList := by
    have h := Written.element "fx:root" (List.Perm.swap ⟨"fx:id", "a\n\"&<b"⟩ ⟨"x", "😀\t"⟩ [])
      (.text "<B onAction='#no'/> ]]>" (.empty "Button" (.refl [⟨"onAction", "#go"⟩])
        (.cdata "<L fx:id=\"no\"/>" (.comment " <a/> " .nil)))) .nil
    rw [trickyForm]
    convert h using 1
    decide +kernel
  refine ⟨hn, hw, ?_⟩
  rw [trickyForm] at hn hw
  rw [(written_tree_is_read_back hn hw).2 .standard, Requirement.collect_eq_flatMap]
  have hb : Requirement.byName [⟨"fx:id", "a\n\"&<b"⟩, ⟨"x", "😀\t"⟩] =
      [⟨"fx:id", "a\n\"&<b"⟩, ⟨"x", "😀\t"⟩] := List.mergeSort_of_pairwise (by decide +kernel)
  have hc : Requirement.byName [⟨"onAction", "#go"⟩] = [⟨"onAction", "#go"⟩] :=
    List.mergeSort_singleton _
  simp only [preorder, preorderAll, Requirement.ofElement, List.flatMap_cons, List.flatMap_nil,
    List.nil_append, List.append_nil, hb, hc]
  decide +kernel

end FxmlWiring.Markup
