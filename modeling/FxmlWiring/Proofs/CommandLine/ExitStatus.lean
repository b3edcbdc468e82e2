import FxmlWiring.Proofs.CommandLine.Failure
import FxmlWiring.Proofs.Markup.RoundTrip

/-! # How a run ends

A run that is not stopped **ends** in one of seven ways (`run_eq_ok_iff`): it shows help, it fails
at one of five places, or it **answers** with the outcomes of a check. Only the last of these can
report something missing, and nothing that fails writes a report. -/

namespace FxmlWiring.CommandLine

open Markup

/-! ## The ways of ending -/

/-- The run gets to an answer: it checks its files, and these are the outcomes of the check. -/
def Answers (folder : Folder) (words : List String) (a : Arguments) (outcomes : List Outcome) :
    Prop :=
  ∃ source markup, Checks folder words a source markup ∧
    check a.settings (.encoded markup) source = .ok outcomes

/-- How a run ends, in the order in which it gets there. -/
inductive Ends (folder : Folder) (words : List String) : Result → Prop
  | help (h : parseArguments words = .help) : Ends folder words ⟨.ok, help, ""⟩
  | usage {e : UsageError} (h : parseArguments words = .invalid e) :
      Ends folder words (.failed e.report)
  | unreadableController {a : Arguments} {path : String} {e : FileError}
      (h : parseArguments words = .run a) (hp : a.controllerFile = some path)
      (hc : folder path = .error e) :
      Ends folder words (.failed ("Error: " ++ e.message path ++ "\n"))
  | undecodableController {a : Arguments} {path : String} {bytes : List UInt8}
      {e : Text.Utf8.Fault} (h : parseArguments words = .run a)
      (hp : a.controllerFile = some path) (hc : folder path = .ok bytes)
      (hs : Controller.readSource bytes = .error e) :
      Ends folder words (.failed ("Error: " ++ e.message ++ "\n"))
  | unreadableMarkup {a : Arguments} {path : String} {bytes : List UInt8} {source : String}
      {e : FileError} (h : parseArguments words = .run a) (hp : a.controllerFile = some path)
      (hc : folder path = .ok bytes) (hs : Controller.readSource bytes = .ok source)
      (hm : folder a.fxmlFile = .error e) :
      Ends folder words (.failed ("Error: " ++ e.message a.fxmlFile ++ "\n"))
  | malformedMarkup {a : Arguments} {source : String} {markup : List UInt8} {cause : Cause}
      {p : Text.Position} (h : Checks folder words a source markup)
      (hm : (Markup.encoded markup).parse = .error (.malformed cause p)) :
      Ends folder words (.about a.fxmlFile (Markup.Error.malformed cause p).message)
  | answered {a : Arguments} {outcomes : List Outcome} (h : Answers folder words a outcomes) :
      Ends folder words (.ofOutcomes a outcomes)

variable {folder : Folder} {words : List String} {a : Arguments} {outcomes : List Outcome}
  {result : Result}

/-- A run that gets to an answer gives it. -/
theorem Answers.run_eq (h : Answers folder words a outcomes) :
    run folder words = .ok (.ofOutcomes a outcomes) := by
  obtain ⟨source, markup, ⟨ha, ⟨path, bytes, hp, hc, hs⟩, hm⟩, ho⟩ := h
  rw [run, ha]
  simp only [runCheck, hp, hc, hs, hm, ho]

/-- **A run ends as it does.** -/
theorem run_eq_ok_iff : run folder words = .ok result ↔ Ends folder words result := by
  constructor
  · intro h
    -- One case for each place where the run may end.
    cases ha : parseArguments words with
    | help =>
      rw [run, ha] at h
      obtain rfl := Except.ok.inj h
      exact .help ha
    | invalid e =>
      rw [run, ha] at h
      obtain rfl := Except.ok.inj h
      exact .usage ha
    | run a =>
      have hrun : runCheck folder a = .ok result := by rwa [run, ha] at h
      rw [runCheck] at hrun
      obtain ⟨path, hp⟩ : ∃ path, a.controllerFile = some path := by
        cases hp : a.controllerFile with
        | none => simp [hp] at hrun
        | some path => exact ⟨path, rfl⟩
      simp only [hp] at hrun
      cases hc : folder path with
      | error e =>
        rw [hc] at hrun
        obtain rfl := Except.ok.inj hrun
        exact .unreadableController ha hp hc
      | ok bytes =>
        cases hs : Controller.readSource bytes with
        | error e =>
          simp only [hc, hs] at hrun
          obtain rfl := Except.ok.inj hrun
          exact .undecodableController ha hp hc hs
        | ok source =>
          cases hm : folder a.fxmlFile with
          | error e =>
            simp only [hc, hs, hm] at hrun
            obtain rfl := Except.ok.inj hrun
            exact .unreadableMarkup ha hp hc hs hm
          | ok markup =>
            have hchecks : Checks folder words a source markup :=
              ⟨ha, ⟨path, bytes, hp, hc, hs⟩, hm⟩
            rw [hchecks.run_eq] at h
            split at h
            · rename_i root hr
              obtain rfl := Except.ok.inj h
              exact .answered ⟨source, markup, hchecks, by rw [check, extract, hr]; rfl⟩
            · rename_i cause p hr
              obtain rfl := Except.ok.inj h
              exact .malformedMarkup hchecks hr
            · cases h
  · intro h
    cases h with
    | help h => rw [run, h]
    | usage h => rw [run, h]
    | unreadableController h hp hc => simp only [run, h, runCheck, hp, hc]
    | undecodableController h hp hc hs => simp only [run, h, runCheck, hp, hc, hs]
    | unreadableMarkup h hp hc hs hm => simp only [run, h, runCheck, hp, hc, hs, hm]
    | malformedMarkup h hm => rw [h.run_eq, hm]
    | answered h => exact h.run_eq

/-! ## Statuses -/

/-- A text that starts with something is not empty. -/
theorem append_ne_empty {s : String} (hs : s ≠ "") (t : String) : s ++ t ≠ "" := by
  intro h
  exact hs (String.append_eq_empty_iff.1 h).1

/-- A usage error is shown with the usage, so something is shown. -/
theorem UsageError.report_ne_empty (e : UsageError) : e.report ≠ "" := by
  rw [report]
  simp only [String.append_assoc]
  exact append_ne_empty (by decide) _

/-- **A run shows help, fails with a message and without an answer, or answers.** -/
theorem Ends.cases (h : Ends folder words result) :
    (parseArguments words = .help ∧ result = ⟨.ok, CommandLine.help, ""⟩) ∨
      (parseArguments words ≠ .help ∧ (∀ a outcomes, ¬ Answers folder words a outcomes) ∧
        ∃ errors, errors ≠ "" ∧ result = .failed errors) ∨
      ∃ a outcomes, Answers folder words a outcomes ∧ result = .ofOutcomes a outcomes := by
  -- No failure is the result of an answer, whose status is another one.
  have hfail : ∀ errors, Ends folder words (.failed errors) →
      ∀ a outcomes, ¬ Answers folder words a outcomes := by
    intro errors hf a outcomes hans
    have heq : Result.ofOutcomes a outcomes = .failed errors :=
      Except.ok.inj (hans.run_eq.symm.trans (run_eq_ok_iff.2 hf))
    have hstatus := congrArg Result.status heq
    simp only [Result.ofOutcomes, Result.failed] at hstatus
    split at hstatus
    · cases hstatus
    · cases hstatus
  have herror : ∀ s t : String, "Error: " ++ s ++ t ≠ "" := fun s t => by
    rw [String.append_assoc]
    exact append_ne_empty (by decide) _
  cases h with
  | help h => exact Or.inl ⟨h, rfl⟩
  | @usage e h =>
    exact Or.inr (Or.inl ⟨by simp [h], hfail _ (.usage h), _, e.report_ne_empty, rfl⟩)
  | unreadableController h hp hc =>
    exact Or.inr (Or.inl
      ⟨by simp [h], hfail _ (.unreadableController h hp hc), _, herror _ _, rfl⟩)
  | undecodableController h hp hc hs =>
    exact Or.inr (Or.inl
      ⟨by simp [h], hfail _ (.undecodableController h hp hc hs), _, herror _ _, rfl⟩)
  | unreadableMarkup h hp hc hs hm =>
    exact Or.inr (Or.inl
      ⟨by simp [h], hfail _ (.unreadableMarkup h hp hc hs hm), _, herror _ _, rfl⟩)
  | malformedMarkup h hm =>
    refine Or.inr (Or.inl ⟨by simp [h.arguments], hfail _ (.malformedMarkup h hm), _, ?_, rfl⟩)
    simp only [String.append_assoc]
    exact append_ne_empty (by decide) _
  | answered h => exact Or.inr (Or.inr ⟨_, _, h, rfl⟩)

/-- Something is missing if no rule accepted one of the requirements. -/
theorem missing_eq_nil_iff : Outcome.missing outcomes = [] ↔ ∀ o ∈ outcomes, o.rule ≠ none := by
  simp [Outcome.missing, Outcome.isMissing]

/-- The code of an answer tells whether something is missing. -/
theorem code_ofOutcomes :
    (Result.ofOutcomes a outcomes).status.code =
      if ∀ o ∈ outcomes, o.rule ≠ none then 0 else 2 := by
  rw [Result.ofOutcomes]
  dsimp only
  split
  · rename_i h
    rw [if_pos (missing_eq_nil_iff.1 h)]
    rfl
  · rename_i h
    rw [if_neg fun hn => h (missing_eq_nil_iff.2 hn)]
    rfl

/-- An answer in no special mode is the report of what is missing. -/
theorem output_ofOutcomes (hv : a.verbose = false) (hq : a.quiet = false) :
    (Result.ofOutcomes a outcomes).output = Report.render (Outcome.missing outcomes) := by
  simp [Result.ofOutcomes, describe, hv, hq]

section Ended

variable (h : run folder words = .ok result)
include h

/-- Code 2 means that something is missing. -/
theorem code_eq_two_iff : result.status.code = 2 ↔
    ∃ a outcomes, Answers folder words a outcomes ∧ ∃ o ∈ outcomes, o.rule = none := by
  constructor
  · intro hc
    rcases (run_eq_ok_iff.1 h).cases with ⟨-, rfl⟩ | ⟨-, -, errors, -, rfl⟩ | ⟨a, outcomes, ho, rfl⟩
    · cases hc
    · cases hc
    · rw [code_ofOutcomes] at hc
      split at hc
      · cases hc
      · rename_i hn
        push Not at hn
        exact ⟨a, outcomes, ho, hn⟩
  · rintro ⟨a, outcomes, ho, o, hm, hr⟩
    obtain rfl := Except.ok.inj (ho.run_eq.symm.trans h)
    rw [code_ofOutcomes, if_neg fun hn => hn o hm hr]

/-- Code 0 means that nothing is missing, or that help was asked for. -/
theorem code_eq_zero_iff : result.status.code = 0 ↔ parseArguments words = .help ∨
    ∃ a outcomes, Answers folder words a outcomes ∧ ∀ o ∈ outcomes, o.rule ≠ none := by
  constructor
  · intro hc
    rcases (run_eq_ok_iff.1 h).cases with ⟨hh, -⟩ | ⟨-, -, errors, -, rfl⟩ | ⟨a, outcomes, ho, rfl⟩
    · exact Or.inl hh
    · cases hc
    · rw [code_ofOutcomes] at hc
      split at hc
      · rename_i hn
        exact Or.inr ⟨a, outcomes, ho, hn⟩
      · cases hc
  · rintro (hh | ⟨a, outcomes, ho, hn⟩)
    · obtain rfl := Except.ok.inj ((run_eq_ok_iff.2 (.help hh)).symm.trans h)
      rfl
    · obtain rfl := Except.ok.inj (ho.run_eq.symm.trans h)
      rw [code_ofOutcomes, if_pos hn]

/-- Code 1 means that there is no answer, and that no help was asked for. -/
theorem code_eq_one_iff : result.status.code = 1 ↔ parseArguments words ≠ .help ∧
    ∀ a outcomes, ¬ Answers folder words a outcomes := by
  constructor
  · intro hc
    rcases (run_eq_ok_iff.1 h).cases with ⟨-, rfl⟩ | ⟨hh, hno, -⟩ | ⟨a, outcomes, ho, rfl⟩
    · cases hc
    · exact ⟨hh, hno⟩
    · rw [code_ofOutcomes] at hc
      split at hc
      · cases hc
      · cases hc
  · rintro ⟨hh, hno⟩
    rcases (run_eq_ok_iff.1 h).cases with ⟨hh', -⟩ | ⟨-, -, errors, -, rfl⟩ | ⟨a, outcomes, ho, -⟩
    · exact absurd hh' hh
    · rfl
    · exact absurd ho (hno a outcomes)

/-- A run that fails writes a message and no output; any other one writes no message. -/
theorem streams_of_code : (result.status.code = 1 → result.output = "" ∧ result.errors ≠ "") ∧
    (result.status.code = 0 ∨ result.status.code = 2 → result.errors = "") := by
  rcases (run_eq_ok_iff.1 h).cases with ⟨-, rfl⟩ | ⟨-, -, errors, he, rfl⟩ | ⟨a, outcomes, -, rfl⟩
  · refine ⟨fun hc => ?_, fun _ => rfl⟩
    cases hc
  · refine ⟨fun _ => ⟨rfl, he⟩, ?_⟩
    rintro (hc | hc)
    · cases hc
    · cases hc
  · refine ⟨fun hc => ?_, fun _ => rfl⟩
    rw [code_ofOutcomes] at hc
    split at hc
    · cases hc
    · cases hc

/-- A run that succeeds without being asked for help has answered, and writes the report of what is
missing unless it is told otherwise. -/
theorem output_of_code (hc : result.status.code = 0 ∨ result.status.code = 2)
    (hh : parseArguments words ≠ .help) :
    ∃ a outcomes, Answers folder words a outcomes ∧ (a.verbose = false → a.quiet = false →
      result.output = Report.render (Outcome.missing outcomes)) := by
  rcases (run_eq_ok_iff.1 h).cases with ⟨hh', -⟩ | ⟨-, -, errors, -, rfl⟩ | ⟨a, outcomes, ho, rfl⟩
  · exact absurd hh' hh
  · rcases hc with hc | hc
    · cases hc
    · cases hc
  · exact ⟨a, outcomes, ho, output_ofOutcomes⟩

end Ended

/-- **The status of a run.** A run that is not stopped has code 2 exactly if it answers and no rule
accepted one of the requirements; it has code 0 exactly if it shows help, or answers with a rule for
every requirement; and code 1 otherwise. A run that fails writes a message and nothing else, any
other one no message; and an answer that is neither verbose nor quiet is the report of what is
missing. A controller that cannot be read or decoded is reported whatever the markup file holds. -/
theorem status_of_run (folder : Folder) (words : List String) :
    (∀ result, run folder words = .ok result →
      (result.status.code = 2 ↔
        ∃ a outcomes, Answers folder words a outcomes ∧ ∃ o ∈ outcomes, o.rule = none) ∧
      (result.status.code = 0 ↔ parseArguments words = .help ∨
        ∃ a outcomes, Answers folder words a outcomes ∧ ∀ o ∈ outcomes, o.rule ≠ none) ∧
      (result.status.code = 1 ↔ parseArguments words ≠ .help ∧
        ∀ a outcomes, ¬ Answers folder words a outcomes) ∧
      (result.status.code = 1 → result.output = "" ∧ result.errors ≠ "") ∧
      (result.status.code = 0 ∨ result.status.code = 2 → result.errors = "") ∧
      (result.status.code = 0 ∨ result.status.code = 2 → parseArguments words ≠ .help →
        ∃ a outcomes, Answers folder words a outcomes ∧
          (a.verbose = false → a.quiet = false →
            result.output = Report.render (Outcome.missing outcomes)))) ∧
    ∀ a path, parseArguments words = .run a → a.controllerFile = some path →
      (∀ e, folder path = .error e →
        run folder words = .ok (.failed ("Error: " ++ e.message path ++ "\n"))) ∧
      ∀ bytes e, folder path = .ok bytes → Controller.readSource bytes = .error e →
        run folder words = .ok (.failed ("Error: " ++ e.message ++ "\n")) := by
  constructor
  · intro result h
    obtain ⟨hone, hother⟩ := streams_of_code h
    exact ⟨code_eq_two_iff h, code_eq_zero_iff h, code_eq_one_iff h, hone, hother,
      output_of_code h⟩
  · intro a path ha hp
    constructor
    · intro e hc
      exact run_eq_ok_iff.2 (.unreadableController ha hp hc)
    · intro bytes e hc hs
      exact run_eq_ok_iff.2 (.undecodableController ha hp hc hs)

/-- Markup that binds a button. -/
def buttonMarkup : List Char :=
  "<Button fx:id=\"ok\"/>".toList

/-- A folder with the markup, and with an empty controller. -/
def unwiredFolder : Folder :=
  fun path => .ok (if path = "v.fxml" then Text.Utf8.encode buttonMarkup else [])

/-- The markup asks for the button. -/
theorem extract_buttonMarkup :
    extract .standard (.encoded (Text.Utf8.encode buttonMarkup)) =
      .ok [.field "Button" "ok"] := by
  have hn : (Node.element "Button" [⟨"fx:id", "ok"⟩] []).IsWritable := by decide +kernel
  have hw : Node.Written [.element "Button" [⟨"fx:id", "ok"⟩] []] buttonMarkup := by
    have h := Node.Written.empty "Button" (.refl [⟨"fx:id", "ok"⟩]) .nil
    convert h using 1
    decide +kernel
  obtain ⟨root, hp, he⟩ := exists_parse_written (m := "<Button fx:id=\"ok\"/>") hn hw
  -- As bytes, the markup is the same document.
  have hbytes : (Markup.encoded (Text.Utf8.encode buttonMarkup)).parse = .ok root := by
    have ht : buttonMarkup = '<' :: ("Button".toList ++ " fx:id=\"ok\"/>".toList) := by decide
    rw [parse_of_toBytes rfl rfl ht hn.1, ← hp]
    exact (parse_ofString ht hn.1).symm
  have hb : Requirement.byName [⟨"fx:id", "ok"⟩] = [⟨"fx:id", "ok"⟩] :=
    List.mergeSort_singleton _
  rw [extract, hbytes]
  change Except.ok (Requirement.collect .standard root) = _
  rw [Requirement.collect_congr .standard (fun e h => (hn.attributes 0 e h).nodup) he,
    Requirement.collect_eq_flatMap]
  simp only [Node.preorder, Node.preorderAll, Requirement.ofElement, List.flatMap_cons,
    List.flatMap_nil, List.append_nil, hb]
  decide +kernel

/-- A button that the controller does not declare is missing. -/
theorem unwired_button_is_missing :
    ∃ result, run unwiredFolder ["v.fxml", "C.java"] = .ok result ∧ result.status.code = 2 := by
  have hchecks : Checks unwiredFolder ["v.fxml", "C.java"]
      ⟨"v.fxml", some "C.java", .standard, false, false⟩ "" (Text.Utf8.encode buttonMarkup) :=
    ⟨by decide +kernel, ⟨"C.java", [], rfl, rfl, by decide +kernel⟩, rfl⟩
  have hnone : (Requirement.field "Button" "ok").acceptedBy? .standard
      (Controller.stripComments "") = none := by decide +kernel
  have hans : Answers unwiredFolder ["v.fxml", "C.java"]
      ⟨"v.fxml", some "C.java", .standard, false, false⟩ [⟨.field "Button" "ok", none⟩] := by
    refine ⟨"", _, hchecks, ?_⟩
    rw [check, extract_buttonMarkup, ← hnone]
    rfl
  obtain ⟨hended, -⟩ := status_of_run unwiredFolder ["v.fxml", "C.java"]
  exact ⟨_, hans.run_eq, (hended _ hans.run_eq).1.2 ⟨_, _, hans, _, List.mem_singleton_self _, rfl⟩⟩

end FxmlWiring.CommandLine
