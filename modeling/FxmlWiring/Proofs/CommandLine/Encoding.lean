import FxmlWiring.Proofs.CommandLine.Failure
import FxmlWiring.Proofs.Markup.Amplification
import FxmlWiring.Proofs.Markup.Encoding

/-! # Runs on markup in several encodings

A run hands the bytes of its markup file to the check, and a caller of the check may hand in a text.
Both go by the tree that the markup is parsed as, so they agree wherever the bytes and the text are
parsed alike (`isReadAs_of_parse_eq`). They are not parsed alike where the bytes of one encoding get
to the limit on amplification and those of another one do not (`amplified_is_read_as_text_only`). -/

namespace FxmlWiring.CommandLine

open Markup Text

/-- Bytes are read as a text: parsed as the same tree or with the same error, and so are their
requirements, their check, and a run on a file that holds them. -/
structure IsReadAs (bytes : List UInt8) (m : String) : Prop where
  parse_eq : (Markup.encoded bytes).parse = (Markup.ofString m).parse
  extract_eq : ∀ s, extract s (.encoded bytes) = extract s (.ofString m)
  check_eq : ∀ s source, check s (.encoded bytes) source = check s (.ofString m) source
  run_eq : ∀ folder words a source, Checks folder words a source bytes →
    run folder words = Result.ofCheck a (check a.settings (.ofString m) source)

/-- **Only parsing looks at the bytes.** -/
theorem isReadAs_of_parse_eq {bytes : List UInt8} {m : String}
    (h : (Markup.encoded bytes).parse = (Markup.ofString m).parse) : IsReadAs bytes m := by
  have he : ∀ s, extract s (.encoded bytes) = extract s (.ofString m) := by
    intro s
    rw [extract, extract, h]
  have hc : ∀ s source, check s (.encoded bytes) source = check s (.ofString m) source := by
    intro s source
    rw [check, check, he]
  refine ⟨h, he, hc, ?_⟩
  intro folder words a source hchecks
  rw [hchecks.run_eq_ofCheck, hc]

/-- The bytes get to the limit on amplification, which is counted in them. -/
def IsAmplified (bytes : List UInt8) : Prop :=
  ∃ p, (Markup.encoded bytes).parse = .error (.malformed .amplification p)

/-- **The encoding of the markup does not matter, but for the limit on amplification.** The bytes in
UTF-8 of a text without zero characters that names no encoding are read as the text, whether it is
accepted or not. If it is accepted and starts with no mark itself, its bytes behind a byte order
mark are read as the text as well, in UTF-8 and in UTF-16 of either order, or get to the limit; they
do not get to it if the text has no document type. -/
theorem encoding_matters_to_limit_only {m : String} (hz : '\x00' ∉ m.toList)
    (hn : ¬ NamesEncoding m.toList) :
    IsReadAs (Utf8.encode m.toList) m ∧
      ((∃ root, (Markup.ofString m).parse = .ok root) → m.toList.head? ≠ some '\ufeff' →
        ∀ family : Source.Family,
          (IsReadAs (family.encodeMarked m.toList) m ∨ IsAmplified (family.encodeMarked m.toList)) ∧
            (¬ "<!DOCTYPE".toList <:+: m.toList → IsReadAs (family.encodeMarked m.toList) m)) := by
  constructor
  · exact isReadAs_of_parse_eq (parse_encode_utf8 hz hn)
  · rintro ⟨root, hroot⟩ hhead family
    constructor
    · refine (parse_encodeMarked_cases hz hn hroot hhead family).imp (fun h => ?_) fun h => h
      exact isReadAs_of_parse_eq (h.trans hroot.symm)
    · intro hd
      exact isReadAs_of_parse_eq ((parse_encodeMarked hz hn hroot hhead hd family).trans hroot.symm)

/-- An element whose name and value take several bytes. -/
def accentedElement : String :=
  "<é x=\"😀\"/>"

/-- The element is accepted in every encoding, as the same tree. -/
theorem accentedElement_is_read_in_every_encoding :
    '\x00' ∉ accentedElement.toList ∧ ¬ NamesEncoding accentedElement.toList ∧
      accentedElement.toList.head? ≠ some '\ufeff' ∧
      ∃ root, (Markup.ofString accentedElement).parse = .ok root ∧
        (Markup.encoded (Utf8.encode accentedElement.toList)).parse = .ok root ∧
        ∀ family : Source.Family,
          (Markup.encoded (family.encodeMarked accentedElement.toList)).parse = .ok root := by
  have hz : '\x00' ∉ accentedElement.toList := by decide
  have hhead : accentedElement.toList.head? ≠ some '\ufeff' := by decide
  have hn : ¬ NamesEncoding accentedElement.toList := not_namesEncoding hhead (by decide)
  have hw : Node.Written [.element "é" [⟨"x", "😀"⟩] []] accentedElement.toList := by
    convert Node.Written.empty "é" (.refl [⟨"x", "😀"⟩]) .nil using 1
    decide +kernel
  obtain ⟨root, hroot, -⟩ := exists_parse_written (by decide +kernel) hw
  obtain ⟨hplain, hmarked⟩ := encoding_matters_to_limit_only hz hn
  refine ⟨hz, hn, hhead, root, hroot, hplain.parse_eq.trans hroot, fun family => ?_⟩
  exact ((hmarked ⟨root, hroot⟩ hhead family).2 (by decide)).parse_eq.trans hroot

/-- A root element of references to an entity of references to an entity of references to letters:
37 · 71 · 22 · 142 of them. -/
@[irreducible]
def nestedReferences : List Char :=
  openingTag ['a'] ++ (references 37 ['d'] ++ closingTag ['a'])

/-- A document of nested references. -/
@[irreducible]
def amplified : List Char :=
  "<!DOCTYPE a[<!ENTITY b '".toList ++ List.replicate 142 'x' ++ "'><!ENTITY c '".toList ++
    references 22 ['b'] ++ "'><!ENTITY d '".toList ++ references 71 ['c'] ++ "'>]>".toList ++
    nestedReferences

/-- What the document declares. -/
@[irreducible]
def amplifiedDeclarations : Declarations :=
  { entities := [(['b'], .internal (List.replicate 142 'x')),
      (['c'], .internal (references 22 ['b'])), (['d'], .internal (references 71 ['c']))] }

/-- Each reference of the root element makes 226703 bytes. -/
theorem amplified_makes :
    amplifiedDeclarations.entities.Makes amplifiedDeclarations ['d'] 226703 := by
  let es := amplifiedDeclarations.entities
  have hb : ((es.without ['d']).without ['c']).Makes amplifiedDeclarations ['b']
      (Alphabet.internal.size ('x' :: List.replicate 141 'x')) :=
    .characters (by decide +kernel) rfl (by decide +kernel)
  have hname : Alphabet.internal.IsName ['b'] ∧ Alphabet.internal.IsName ['c'] := by decide +kernel
  have hc : (es.without ['d']).Makes amplifiedDeclarations ['c'] (22 * (3 + 142)) := by
    convert Entities.Makes.references (n := 22) hname.1 rfl (by decide +kernel) hb using 1
    decide +kernel
  have hd : es.Makes amplifiedDeclarations ['d'] (71 * (3 + 22 * (3 + 142))) := by
    convert Entities.Makes.references (n := 71) hname.2 rfl (by decide +kernel) hc using 1
    decide +kernel
  exact hd

/-- The account of the document, from the root element on. -/
theorem amplified_comesTo (family : Source.Family) {shown : List Char} {x : Account}
    (hp : Prolog.meterProlog family.alphabet .complete .opening { standalone := false } amplified
      ⟨family.alphabet.sizeTo shown amplified, 0⟩ =
        .ok (amplifiedDeclarations, x, nestedReferences)) :
    ComesTo (x.afterRoot family.alphabet ['a'] ['d'] 37 226703)
      (fun y => y = x.afterRoot family.alphabet ['a'] ['d'] 37 226703 ∧
        (x.afterRoot family.alphabet ['a'] ['d'] 37 226703).isTolerated = true)
      ((Source.mk family.alphabet shown amplified .complete).meter false) := by
  have hname : family.alphabet.IsName ['a'] ∧ family.alphabet.IsName ['d'] := by
    rcases family with _ | _
    · decide +kernel
    · change Alphabet.utf16.IsName ['a'] ∧ Alphabet.utf16.IsName ['d']
      decide +kernel
  rw [nestedReferences] at hp
  exact Source.meter_comesTo (s := ⟨family.alphabet, shown, amplified, .complete⟩) rfl
    family.separates_alphabet family.units_alphabet_pos hname.1 hname.2 amplified_makes hp

/-- The document starts with no XML declaration. -/
theorem declaration?_amplified (family : Source.Family) (shown : List Char) :
    (Source.mk family.alphabet shown amplified .complete).declaration? = none := by
  have hs : Prolog.scan .utf8 .complete amplified =
      .ok ⟨.declaration "DOCTYPE".toList, amplified.drop 9, false⟩ := by decide +kernel
  have hx : (Source.mk .utf8 amplified amplified .complete).declaration? = none := by
    rw [Source.declaration?, hs]
  rw [Source.declaration?_widen family.isWithin_alphabet hs, hx]

/-- As a text, the document is read. -/
theorem parse_amplified :
    (Markup.ofString (.ofList amplified)).parse = .ok (.element "a" [] []) := by
  have hd : Source.detect (Markup.ofString (.ofList amplified)).toBytes = some (.utf8, 0) := by
    rw [toBytes_ofString, String.toList_ofList]
    have hz : '\x00' ∉ amplified.take 2 := by decide +kernel
    have hhead : amplified.head? ≠ some '\ufeff' := by decide +kernel
    rw [Source.detect_encode_eq hz (by decide +kernel), if_neg hhead]
  have hs : Source.ofFamily .utf8 0 (Markup.ofString (.ofList amplified)).toBytes =
      ⟨.utf8, amplified, amplified, .complete⟩ := by
    rw [toBytes_ofString, String.toList_ofList, Source.ofFamily_encode]
  rw [parse_eq_read (surrogates?_ofString _) hd hs (declaration?_amplified .utf8 amplified)]
  refine Source.read_eq_ok_iff.2 ⟨?_, ?_⟩
  · have hp : Prolog.meterProlog .utf8 .complete .opening { standalone := false } amplified
        ⟨Alphabet.utf8.sizeTo amplified amplified, 0⟩ =
          .ok (amplifiedDeclarations, ⟨477, 0⟩, nestedReferences) := by decide +kernel
    exact Source.limit?_eq_none_of_comesTo (amplified_comesTo .utf8 hp)
      (by decide +kernel)
  · have hp : Prolog.readProlog .utf8 .complete .opening { standalone := false } amplified =
        .ok (amplifiedDeclarations, nestedReferences) := by decide +kernel
    rw [nestedReferences] at hp
    exact Source.readRoot_references (s := ⟨.utf8, amplified, amplified, .complete⟩) rfl
      Alphabet.separates_utf8 Alphabet.units_utf8_pos (by decide +kernel) (by decide +kernel)
      amplified_makes hp

/-- Behind a mark, the bytes of the document get to the limit. -/
theorem isAmplified_amplified (family : Source.Family) :
    IsAmplified (family.encodeMarked amplified) := by
  have hparse := parse_eq_read (m := .encoded (family.encodeMarked amplified)) rfl
    (family.detect_encodeMarked amplified) (family.ofFamily_encodeMarked amplified)
    (declaration?_amplified family _)
  have hp : ∃ x, Prolog.meterProlog family.alphabet .complete .opening { standalone := false }
      amplified ⟨family.alphabet.sizeTo ('\ufeff' :: amplified) amplified, 0⟩ =
        .ok (amplifiedDeclarations, x, nestedReferences) ∧
      (x.afterRoot family.alphabet ['a'] ['d'] 37 226703).isTolerated = false := by
    rcases family with _ | _
    · exact ⟨⟨480, 0⟩, by decide +kernel, by decide +kernel⟩
    · refine ⟨⟨956, 0⟩, ?_, ?_⟩
      · change Prolog.meterProlog .utf16 .complete .opening { standalone := false } amplified
          ⟨Alphabet.utf16.sizeTo ('\ufeff' :: amplified) amplified, 0⟩ = _
        decide +kernel
      · change (Account.afterRoot ⟨956, 0⟩ .utf16 ['a'] ['d'] 37 226703).isTolerated = false
        decide +kernel
  obtain ⟨x, hp, hx⟩ := hp
  obtain ⟨text, hl⟩ := Source.exists_limit?_of_comesTo (amplified_comesTo family hp) hx
  rw [IsAmplified, hparse, Source.read, hl]
  exact ⟨_, rfl⟩

/-- The document is read as a text, but not as its bytes behind a mark. -/
theorem amplified_is_read_as_text_only :
    '\x00' ∉ (String.ofList amplified).toList ∧ ¬ NamesEncoding (String.ofList amplified).toList ∧
      (String.ofList amplified).toList.head? ≠ some '\ufeff' ∧
      (Markup.ofString (.ofList amplified)).parse = .ok (.element "a" [] []) ∧
      ∀ family : Source.Family,
        IsAmplified (family.encodeMarked (String.ofList amplified).toList) := by
  rw [String.toList_ofList]
  have hhead : amplified.head? ≠ some '\ufeff' := by decide +kernel
  exact ⟨by decide +kernel, not_namesEncoding hhead (by decide +kernel), hhead, parse_amplified,
    isAmplified_amplified⟩

end FxmlWiring.CommandLine
