import FxmlWiring.Controller
import FxmlWiring.Proofs.Text.LineBreak
import FxmlWiring.Proofs.Text.Utf8Decoding

/-! # Reading a controller file

A controller file is read exactly if its bytes are well-formed, as the text that they encode with
its breaks unified (`readSource_eq_ok_iff`). -/

namespace FxmlWiring.Controller

open Text

/-- **What is read from a file is its text with a line feed in place of every line break.** -/
theorem readSource_eq_ok_iff {bytes : List UInt8} {source : String} :
    readSource bytes = .ok source ↔
      ∃ text, Utf8.encode text = bytes ∧ Unified text source.toList := by
  simp only [unified_iff, ← Utf8.decode_eq_ok_iff]
  rw [readSource]
  cases Utf8.decode bytes with
  | error f =>
    constructor
    · rintro ⟨⟩
    · rintro ⟨text, ⟨⟩, -⟩
  | ok text =>
    constructor
    · rintro ⟨⟩
      exact ⟨text, rfl, String.toList_ofList⟩
    · rintro ⟨_, ⟨⟩, h⟩
      change Except.ok (String.ofList (unifyBreaks text)) = .ok source
      rw [← h, String.ofList_toList]

/-- A file that cannot be read has a fault where its text cannot be decoded. -/
theorem readSource_eq_error_iff {bytes : List UInt8} {f : Utf8.Fault} :
    readSource bytes = .error f ↔ Utf8.decode bytes = .error f := by
  rw [readSource]
  cases Utf8.decode bytes with
  | error f => exact ⟨fun h => by cases h; rfl, fun h => by cases h; rfl⟩
  | ok text =>
    constructor
    · rintro ⟨⟩
    · rintro ⟨⟩

/-- **Reading a controller file.** A file is read exactly if its bytes are well-formed, as the text
that they encode with a line feed in place of every line break. So no carriage return is ever read,
and a text without one is read as it was written. Any other file has a fault, at the end of the
longest part from its front that is well-formed. -/
theorem reading_a_controller_file (bytes : List UInt8) :
    ((∃ source, readSource bytes = .ok source) ↔ Utf8.IsWellFormed bytes) ∧
    (∀ source, readSource bytes = .ok source ↔
      ∃ text, Utf8.encode text = bytes ∧ Unified text source.toList) ∧
    (∀ source, readSource bytes = .ok source → '\r' ∉ source.toList) ∧
    (∀ source : String, '\r' ∉ source.toList → Utf8.encode source.toList = bytes →
      readSource bytes = .ok source) ∧
    (¬ Utf8.IsWellFormed bytes → ∃ f, readSource bytes = .error f ∧
      IsGreatest {n | ∃ front, front <+: bytes ∧ Utf8.IsWellFormed front ∧ front.length = n}
        f.start) := by
  refine ⟨?_, fun source => readSource_eq_ok_iff, fun source h => ?_, fun source hr hb => ?_,
    fun hw => ?_⟩
  · rw [Utf8.isWellFormed_iff]
    constructor
    · rintro ⟨source, h⟩
      obtain ⟨text, ht, -⟩ := readSource_eq_ok_iff.1 h
      exact ⟨text, ht⟩
    · rintro ⟨text, ht⟩
      refine ⟨.ofList (unifyBreaks text), readSource_eq_ok_iff.2 ⟨text, ht, ?_⟩⟩
      rw [String.toList_ofList]
      exact unified_unifyBreaks text
  · obtain ⟨text, -, hu⟩ := readSource_eq_ok_iff.1 h
    rw [unified_iff.1 hu]
    exact not_mem_unifyBreaks text
  · refine readSource_eq_ok_iff.2 ⟨source.toList, hb, unified_iff.2 ?_⟩
    exact (unifyBreaks_eq_self hr).symm
  · cases hd : Utf8.decode bytes with
    | ok text => exact absurd (Utf8.isWellFormed_iff_exists_decode.2 ⟨text, hd⟩) hw
    | error f => exact ⟨f, readSource_eq_error_iff.2 hd, Utf8.isGreatest_of_decode hd⟩

/-- A byte order mark and two breaks are read as they are; half of a surrogate pair is not read. -/
theorem two_breaks_are_read :
    readSource [0xEF, 0xBB, 0xBF, 0x0D, 0x0D, 0x0A] = .ok "\uFEFF\n\n" ∧
      ¬ Utf8.IsWellFormed [0x61, 0xED, 0xA0, 0x80] ∧
      ∃ f, readSource [0x61, 0xED, 0xA0, 0x80] = .error f ∧
        f.start = 1 ∧
        IsGreatest {n | ∃ front, front <+: [0x61, 0xED, 0xA0, 0x80] ∧
          Utf8.IsWellFormed front ∧ front.length = n} f.start := by
  have hread : readSource [0x61, 0xED, 0xA0, 0x80] = .error ⟨.continuationByte, 0xED, 1, 1⟩ := by
    with_unfolding_all rfl
  obtain ⟨hread_iff, -, -, -, hfault⟩ := reading_a_controller_file [0x61, 0xED, 0xA0, 0x80]
  obtain ⟨-, htext, -⟩ := reading_a_controller_file [0xEF, 0xBB, 0xBF, 0x0D, 0x0D, 0x0A]
  have hw : ¬ Utf8.IsWellFormed [0x61, 0xED, 0xA0, 0x80] := by
    rw [← hread_iff, hread]
    rintro ⟨source, ⟨⟩⟩
  refine ⟨(htext _).2 ⟨['\uFEFF', '\r', '\r', '\n'], by decide +kernel, ?_⟩, hw, ?_⟩
  · exact .other (by decide) (.lone (by decide) (.pair .nil))
  · obtain ⟨f, hf, hgreatest⟩ := hfault hw
    obtain rfl : _ = f := Except.error.inj (hread.symm.trans hf)
    exact ⟨_, hf, rfl, hgreatest⟩

end FxmlWiring.Controller
