import FxmlWiring.Markup.Document
import FxmlWiring.Proofs.Markup.Prolog
import FxmlWiring.Proofs.Markup.Surroundings
import FxmlWiring.Proofs.Markup.XmlDeclaration

/-! # Documents that start with an XML declaration

A document starts with an XML declaration if `<?xml`, the settings and `?>` stand at its front. Only
an instruction can be taken for one (`Prolog.Leads.xmlDeclaration`), so the text that `declaration?`
finds stands there, and a text that says something is found. -/

namespace FxmlWiring.Markup

open Text

/-! ## The declaration of a source -/

/-- The text `<?xml`, the settings and `?>`, with the rest of a document after it. -/
def declared (settings rest : List Char) : List Char :=
  '<' :: '?' :: 'x' :: 'm' :: 'l' :: (settings ++ '?' :: '>' :: rest)

/-- The settings and what stands from the closing on, found by counting characters. -/
theorem split_declared (settings rest : List Char) :
    let length := (declared settings rest).length - rest.length
    ((declared settings rest).take (length - 2)).drop 5 = settings ∧
      (declared settings rest).drop (length - 2) = '?' :: '>' :: rest := by
  have hf : declared settings rest =
      '<' :: '?' :: 'x' :: 'm' :: 'l' :: settings ++ '?' :: '>' :: rest := rfl
  have hl : (declared settings rest).length - rest.length - 2 =
      ('<' :: '?' :: 'x' :: 'm' :: 'l' :: settings).length := by
    rw [hf, List.length_append]
    simp only [List.length_cons]
    omega
  dsimp only
  rw [hl, hf, List.take_left, List.drop_left]
  exact ⟨rfl, rfl⟩

namespace Source

/-- A declaration that is scanned at the front of a source is split where its settings end. -/
theorem declaration?_of_scan {s : Source} {settings rest : List Char} {isLast : Bool}
    (hs : Prolog.scan s.alphabet s.ending s.body = .ok ⟨.xmlDeclaration, rest, isLast⟩)
    (hb : s.body = declared settings rest) :
    s.declaration? = some (settings, '?' :: '>' :: rest) := by
  obtain ⟨ht, hd⟩ := split_declared settings rest
  rw [declaration?, hs]
  dsimp only at ht hd ⊢
  rw [hb, ht, hd]

/-- What is found as the declaration of a source stands at its front. -/
theorem exists_of_declaration? {s : Source} (ha : s.alphabet.Separates)
    {settings closing : List Char} (h : s.declaration? = some (settings, closing)) :
    ∃ rest isLast, Prolog.scan s.alphabet s.ending s.body = .ok ⟨.xmlDeclaration, rest, isLast⟩ ∧
      IsInstructionText settings ∧ s.body = declared settings rest ∧
      closing = '?' :: '>' :: rest := by
  cases hs : Prolog.scan s.alphabet s.ending s.body with
  | error halt => simp [declaration?, hs] at h
  | ok r =>
    obtain ⟨t, rest, isLast⟩ := r
    obtain rfl : t = .xmlDeclaration := by
      by_contra ht
      simp [declaration?, hs, ht] at h
    obtain ⟨u, hu, hb⟩ := (Prolog.leads_of_scan ha hs).exists_settings rfl
    have hb : s.body = declared u rest := by simpa [declared] using hb
    rw [declaration?_of_scan hs hb] at h
    obtain ⟨rfl, rfl⟩ := Prod.mk.inj (Option.some.inj h)
    exact ⟨rest, isLast, rfl, hu, hb, rfl⟩

/-- A declaration that stands at the front of a source is found, if its settings start with a blank
and hold no question marks. -/
theorem declaration?_of_declared {s : Source} (ha : s.alphabet.Separates)
    (hx : s.alphabet.IsName ['x', 'm', 'l']) {settings rest : List Char}
    (hb : s.body = declared settings rest) (hs : ¬ StopsAt isSpace settings)
    (hc : ∀ c ∈ settings, isLegal c = true ∧ c ≠ '?') :
    s.declaration? = some (settings, '?' :: '>' :: rest) := by
  have hu : IsInstructionText settings := by
    refine ⟨fun c h => (hc c h).1, fun h => ?_, fun c h => ?_⟩
    · exact (hc '?' (h.subset List.mem_cons_self)).2 rfl
    · by_contra hn
      refine hs fun d hd => ?_
      rw [Option.mem_unique hd h]
      simpa using hn
  have hi : scanInstruction s.alphabet (['x', 'm', 'l'] ++ (settings ++ '?' :: '>' :: rest)) =
      .ok (['x', 'm', 'l'], rest) :=
    (scanInstruction_eq_ok_iff ha).2 ⟨settings, hx, fun _ => rfl, hu, rfl⟩
  have hscan : Prolog.scan s.alphabet s.ending s.body = .ok ⟨.xmlDeclaration, rest, false⟩ := by
    rw [hb, declared, Prolog.scan]
    exact congrArg _ hi
  exact declaration?_of_scan hscan hb

/-- **The declaration of a source is the one at its front**, as far as it says anything. -/
theorem exists_declaration?_iff {s : Source} (ha : s.alphabet.Separates)
    (hx : s.alphabet.IsName ['x', 'm', 'l']) {encoding : Option (List Char)} {standalone : Bool}
    {rest : List Char} :
    (∃ settings contents, s.declaration? = some (settings, '?' :: '>' :: rest) ∧
      XmlDeclaration.read settings = .ok contents ∧ contents.encoding.map Prod.fst = encoding ∧
      contents.standalone = standalone) ↔
    ∃ settings, XmlDeclaration.Says encoding standalone settings ∧
      s.body = declared settings rest := by
  constructor
  · rintro ⟨settings, contents, hd, hr, rfl, rfl⟩
    obtain ⟨rest', -, -, -, hb, hc⟩ := exists_of_declaration? ha hd
    obtain rfl : rest = rest' := by simpa using hc
    exact ⟨settings, XmlDeclaration.read_sound hr, hb⟩
  · rintro ⟨settings, hs, hb⟩
    obtain ⟨contents, hr, he, hst⟩ := XmlDeclaration.exists_read hs
    exact ⟨settings, contents, declaration?_of_declared ha hx hb hs.not_stopsAt hs.isPlain,
      hr, he, hst⟩

/-- No element is declared in a prolog that starts with an XML declaration. -/
theorem not_repeats_of_declaration? {s : Source} {x : List Char × List Char}
    (h : s.declaration? = some x) (d : Declarations) :
    ¬ (Prolog.Config.mk s.ending .opening d s.body).Repeats s.alphabet := by
  unfold declaration? at h
  split at h
  · rename_i rest isLast hs
    rw [Prolog.Config.repeats_of_failure hs rfl]
    exact fun h => nomatch h
  · cases h

end Source

end FxmlWiring.Markup
