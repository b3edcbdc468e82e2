import FxmlWiring.CommandLine.Run
import FxmlWiring.Proofs.Markup.Failure
import FxmlWiring.Proofs.Markup.Source

/-! # Runs on markup that cannot be read

A run reports malformed markup and fails. A document that stops the reader stops the run as well: no
status, no report (`run_eq_error_iff`). -/

namespace FxmlWiring.CommandLine

open Markup

/-- The result of a run that reports something wrong with a file. -/
def Result.about (path message : String) : Result :=
  .failed ("Error: " ++ path ++ ": " ++ message ++ "\n")

/-- What a run makes of a check: a report on the outcomes, or on malformed markup. -/
def Result.ofCheck (a : Arguments) (answer : Except Markup.Error (List Outcome)) :
    Except Crash Result :=
  match answer with
  | .ok outcomes => .ok (.ofOutcomes a outcomes)
  | .error (.malformed cause p) =>
    .ok (.about a.fxmlFile (Markup.Error.malformed cause p).message)
  | .error e => .error (.markup e)

/-- A run that gets to check a markup file: the words are arguments, and both files that they name
can be read. -/
structure Checks (folder : Folder) (words : List String) (a : Arguments) (source : String)
    (markup : List UInt8) : Prop where
  arguments : parseArguments words = .run a
  controller : ∃ path bytes, a.controllerFile = some path ∧ folder path = .ok bytes ∧
    Controller.readSource bytes = .ok source
  markup : folder a.fxmlFile = .ok markup

variable {folder : Folder} {words : List String} {a : Arguments} {source : String}
  {markup : List UInt8}

/-- Files that can be read are checked. -/
theorem runCheck_eq_ofCheck {path : String} {bytes : List UInt8}
    (hp : a.controllerFile = some path) (hc : folder path = .ok bytes)
    (hs : Controller.readSource bytes = .ok source) (hm : folder a.fxmlFile = .ok markup) :
    runCheck folder a = Result.ofCheck a (check a.settings (.encoded markup) source) := by
  simp only [runCheck, hp, hc, hs, hm]
  -- Only a fault with a position is turned into a report.
  cases check a.settings (.encoded markup) source with
  | ok outcomes => rfl
  | error e => cases e <;> rfl

/-- A run that gets to check its markup reports on the check. -/
theorem Checks.run_eq_ofCheck (h : Checks folder words a source markup) :
    run folder words = Result.ofCheck a (check a.settings (.encoded markup) source) := by
  obtain ⟨ha, ⟨path, bytes, hp, hc, hs⟩, hm⟩ := h
  rw [run, ha]
  exact runCheck_eq_ofCheck hp hc hs hm

/-- A run that gets to check its markup does as the reader of the markup does. -/
theorem Checks.run_eq (h : Checks folder words a source markup) :
    run folder words =
      match (Markup.encoded markup).parse with
      | .ok root => .ok (.ofOutcomes a (evaluate a.settings (Requirement.collect a.settings root)
          (Controller.stripComments source)))
      | .error (.malformed cause p) =>
        .ok (.about a.fxmlFile (Markup.Error.malformed cause p).message)
      | .error e => .error (.markup e) := by
  rw [h.run_eq_ofCheck, check, extract]
  cases (Markup.encoded markup).parse with
  | ok root => rfl
  | error e => cases e <;> rfl

/-- **A run is stopped by what stops the reader of the markup.** -/
theorem Checks.run_eq_error_iff (h : Checks folder words a source markup) (c : Crash) :
    run folder words = .error c ↔ ∃ e, c = .markup e ∧ Stopped (.encoded markup) e := by
  rw [h.run_eq]
  constructor
  · intro hr
    split at hr
    · cases hr
    · cases hr
    · rename_i e hne hp
      obtain rfl := Except.error.inj hr
      exact ⟨e, rfl, (parse_eq_stop_iff fun cause p h => hne cause p h).1 hp⟩
  · rintro ⟨e, rfl, hs⟩
    rw [(parse_eq_stop_iff hs.isStop).2 hs]
    cases e with
    | malformed cause p => exact absurd rfl (hs.isStop cause p)
    | _ => rfl

/-- A document is read or malformed unless something stops the reader. -/
theorem parse_ok_or_malformed_iff (m : Markup) :
    ((∃ root, m.parse = .ok root) ∨ ∃ cause p, m.parse = .error (.malformed cause p)) ↔
      ∀ e, ¬ Stopped m e := by
  constructor
  · rintro (⟨root, hp⟩ | ⟨cause, p, hp⟩) e hs
    · have := (parse_eq_stop_iff hs.isStop).2 hs
      rw [hp] at this
      cases this
    · have := (parse_eq_stop_iff hs.isStop).2 hs
      rw [hp] at this
      exact hs.isStop cause p (Except.error.inj this).symm
  · intro hn
    cases hp : m.parse with
    | ok root => exact Or.inl ⟨root, rfl⟩
    | error e =>
      cases e with
      | malformed cause p => exact Or.inr ⟨cause, p, rfl⟩
      | _ =>
        refine absurd ((parse_eq_stop_iff ?_).1 hp) (hn _)
        rintro cause p ⟨⟩

/-- **When unreadable markup is reported.** Reading a document gives its root or a fault with a
position unless the reader is stopped: by surrogates in a text, by an encoding that the document
names in its XML declaration, or by an element that its prolog declares twice. A run on markup that
cannot be read fails with a report, and writes nothing else, in just the same cases. -/
theorem unreadable_markup_is_reported_iff (m : Markup) :
    (((∃ root, m.parse = .ok root) ∨ ∃ cause p, m.parse = .error (.malformed cause p)) ↔
      ∀ e, ¬ Stopped m e) ∧
    ∀ folder words a source markup, m = .encoded markup → Checks folder words a source markup →
      (∀ root, m.parse ≠ .ok root) →
      ((∃ message, run folder words =
          .ok ⟨.failure, "", "Error: " ++ a.fxmlFile ++ ": " ++ message ++ "\n"⟩) ↔
        ∀ e, ¬ Stopped m e) := by
  refine ⟨parse_ok_or_malformed_iff m, ?_⟩
  rintro folder words a source markup rfl h hp
  rw [← parse_ok_or_malformed_iff, h.run_eq]
  constructor
  · rintro ⟨message, hr⟩
    split at hr
    · rename_i root hp'
      exact absurd hp' (hp root)
    · rename_i cause p hp'
      exact Or.inr ⟨cause, p, hp'⟩
    · cases hr
  · rintro (⟨root, hp'⟩ | ⟨cause, p, hp'⟩)
    · exact absurd hp' (hp root)
    · rw [hp']
      exact ⟨_, rfl⟩

/-- A folder with an empty controller, and with markup that is not closed. -/
def brokenFolder : Folder :=
  fun path => .ok (if path = "v.fxml" then [0x3C] else [])

/-- Markup that is not closed is reported. -/
theorem broken_markup_is_reported :
    Checks brokenFolder ["v.fxml", "C.java"] ⟨"v.fxml", some "C.java", .standard, false, false⟩ ""
        [0x3C] ∧
      (∀ root, (Markup.encoded [0x3C]).parse ≠ .ok root) ∧
      ∃ message, run brokenFolder ["v.fxml", "C.java"] =
        .ok ⟨.failure, "", "Error: " ++ "v.fxml" ++ ": " ++ message ++ "\n"⟩ := by
  have hp : (Markup.encoded [0x3C]).parse = .error (.malformed .unclosedToken .start) := rfl
  have hc : Checks brokenFolder ["v.fxml", "C.java"]
      ⟨"v.fxml", some "C.java", .standard, false, false⟩ "" [0x3C] :=
    ⟨by decide +kernel, ⟨"C.java", [], rfl, rfl, by decide +kernel⟩, rfl⟩
  have hn : ∀ root, (Markup.encoded [0x3C]).parse ≠ .ok root := by
    rw [hp]
    rintro root ⟨⟩
  obtain ⟨hread, hrun⟩ := unreadable_markup_is_reported_iff (.encoded [0x3C])
  have hs := hread.1 (Or.inr ⟨_, _, hp⟩)
  exact ⟨hc, hn, (hrun _ _ _ _ _ rfl hc hn).2 hs⟩

/-- A document that names an encoding nobody knows. -/
def unknownEncoding : List Char :=
  "<?xml version=\"1.0\" encoding=\"foo\"?><a/>".toList

/-- A document that names an encoding nobody knows is neither read nor found malformed. -/
theorem unknown_encoding_is_not_reported :
    (Markup.encoded (Text.Utf8.encode unknownEncoding)).parse = .error (.noSuchEncoding "foo") ∧
    ¬ ((∃ root, (Markup.encoded (Text.Utf8.encode unknownEncoding)).parse = .ok root) ∨
      ∃ cause p, (Markup.encoded (Text.Utf8.encode unknownEncoding)).parse =
        .error (.malformed cause p)) := by
  have hp : (Markup.encoded (Text.Utf8.encode unknownEncoding)).parse =
      .error (.noSuchEncoding "foo") := by
    have hd : Source.detect (Text.Utf8.encode unknownEncoding) = some (.utf8, 0) :=
      Source.detect_encode (by decide) _
    have hr : XmlDeclaration.read " version=\"1.0\" encoding=\"foo\"".toList =
        .ok ⟨some ("foo".toList, "foo\"".toList), false⟩ := by decide +kernel
    have hb : (Source.ofFamily .utf8 0 (Text.Utf8.encode unknownEncoding)).body =
        declared " version=\"1.0\" encoding=\"foo\"".toList "<a/>".toList := by
      rw [Source.ofFamily_encode]
      decide +kernel
    have hs : (Charset.choose .utf8 "foo".toList).stop? "foo".toList =
        some (.noSuchEncoding "foo") := by decide +kernel
    refine (parse_eq_stop_iff (by rintro cause p ⟨⟩)).2 (Or.inl ?_)
    exact ⟨_, .utf8, 0, "foo".toList, false, "<a/>".toList, rfl,
      ⟨hd, _, XmlDeclaration.read_sound hr, hb⟩, hs⟩
  refine ⟨hp, ?_⟩
  rw [hp]
  rintro (⟨root, h⟩ | ⟨cause, p, h⟩)
  · cases h
  · cases h

end FxmlWiring.CommandLine
