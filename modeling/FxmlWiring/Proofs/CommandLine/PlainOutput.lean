import FxmlWiring.Proofs.CommandLine.ExitStatus
import FxmlWiring.Proofs.Report

/-! # Reading the output of a plain run back

A run that asks for no mode and answers writes a report and nothing else. Help and failures write
nothing that is read as a report, so the output tells whether the run answers, and with which items
(`read?_output_eq_some_iff`), unless an item has a line feed in it. -/

namespace FxmlWiring.CommandLine

variable {folder : Folder} {words : List String} {a : Arguments} {outcomes : List Outcome}
  {items : List String} {result : Result}

/-- The run answers in no special mode, and these are the items that it finds missing. -/
def Reports (folder : Folder) (words : List String) (items : List String) : Prop :=
  ∃ a outcomes, Answers folder words a outcomes ∧ a.verbose = false ∧ a.quiet = false ∧
    Outcome.missing outcomes = items

/-- A run that answers has arguments. -/
theorem Answers.arguments (h : Answers folder words a outcomes) :
    parseArguments words = .run a := by
  obtain ⟨source, markup, hchecks, -⟩ := h
  exact hchecks.arguments

/-- A run that reports is not stopped. -/
theorem Reports.exists_run (h : Reports folder words items) :
    ∃ result, run folder words = .ok result := by
  obtain ⟨a, outcomes, hans, -⟩ := h
  exact ⟨_, hans.run_eq⟩

/-- What a run that reports writes is the report. -/
theorem Reports.output_eq (h : Reports folder words items) (hr : run folder words = .ok result) :
    result.output = Report.render items := by
  obtain ⟨a, outcomes, hans, hv, hq, rfl⟩ := h
  obtain rfl := Except.ok.inj (hans.run_eq.symm.trans hr)
  exact output_ofOutcomes hv hq

/-- Help is no report. -/
theorem read?_help : Report.read? help = none := by
  have hfirst : "usage: ".toList.head? = some 'u' := rfl
  refine Report.read?_eq_none ?_
  unfold help usage
  simp only [String.append_assoc, String.toList_append, List.head?_append, hfirst, Option.some_or]
  decide

/-- Nothing is no report. -/
theorem read?_empty : Report.read? "" = none :=
  Report.read?_eq_none (by simp)

/-- **The output of a run that asks for no mode is read back as what it reports.** -/
theorem read?_output_eq_some_iff (hr : run folder words = .ok result)
    (hplain : ∀ a, parseArguments words = .run a → a.verbose = false ∧ a.quiet = false) :
    Report.read? result.output = some items ↔
      (∀ item ∈ items, '\n' ∉ item.toList) ∧ Reports folder words items := by
  rcases (run_eq_ok_iff.1 hr).cases with
    ⟨hhelp, rfl⟩ | ⟨-, hno, errors, -, rfl⟩ | ⟨a, outcomes, hans, rfl⟩
  · constructor
    · intro h
      exact nomatch read?_help.symm.trans h
    · rintro ⟨-, a, outcomes, hans, -⟩
      exact nomatch hhelp.symm.trans hans.arguments
  · constructor
    · intro h
      exact nomatch read?_empty.symm.trans h
    · rintro ⟨-, a, outcomes, hans, -⟩
      exact absurd hans (hno a outcomes)
  · obtain ⟨hv, hq⟩ := hplain a hans.arguments
    have hreports : Reports folder words (Outcome.missing outcomes) :=
      ⟨a, outcomes, hans, hv, hq, rfl⟩
    rw [hreports.output_eq hr, Report.read?_eq_some_iff]
    refine and_congr_right fun hitems => ?_
    constructor
    · intro h
      rwa [Report.eq_of_render_eq hitems h]
    · intro h
      exact (h.output_eq hr).symm.trans (hreports.output_eq hr)

/-- **A report can be read back.** Items without line feeds are read from their report: they are the
lines in its frame, and the header says how many. So no other items have the same report. The output
of a run that asks for no mode is read back exactly as items without line feeds that it reports as
missing. Two runs that report different items write different outputs if there is no line feed in
the items of one of them. -/
theorem report_is_read_back :
    (∀ items : List String, (∀ item ∈ items, '\n' ∉ item.toList) →
      Report.read? (Report.render items) = some items ∧
      ∃ head, Report.Frames (Report.render items) head items ∧
        Report.count head = items.length) ∧
    (∀ items others : List String, (∀ item ∈ items, '\n' ∉ item.toList) →
      Report.render items = Report.render others → items = others) ∧
    (∀ {folder words result items}, run folder words = .ok result →
      (∀ a, parseArguments words = .run a → a.verbose = false ∧ a.quiet = false) →
      (Report.read? result.output = some items ↔
        (∀ item ∈ items, '\n' ∉ item.toList) ∧ Reports folder words items)) ∧
    ∀ {folder words items result folder' words' others result'},
      Reports folder words items → run folder words = .ok result →
      Reports folder' words' others → run folder' words' = .ok result' →
      (∀ item ∈ items, '\n' ∉ item.toList) → items ≠ others → result.output ≠ result'.output := by
  refine ⟨fun items hitems => ?_, fun items others => Report.eq_of_render_eq,
    fun hr hplain => read?_output_eq_some_iff hr hplain, ?_⟩
  · have hframes := Report.frames_render items
    rw [Report.flatMap_feedLines hitems] at hframes
    exact ⟨Report.read?_eq_some_iff.2 ⟨hitems, rfl⟩, _, hframes, Report.count_header _⟩
  · intro folder words items result folder' words' others result' h hr h' hr' hitems hne heq
    rw [h.output_eq hr, h'.output_eq hr'] at heq
    exact hne (Report.eq_of_render_eq hitems heq)

/-- A folder with markup that binds a button, and with a controller. -/
def buttonFolder (controller : List UInt8) : Folder :=
  fun path => .ok (if path = "v.fxml" then Text.Utf8.encode buttonMarkup else controller)

/-- A run on the folder reports the button unless the controller declares it. -/
theorem reports_buttonFolder {controller : List UInt8} {source : String}
    (hs : Controller.readSource controller = .ok source) :
    Reports (buttonFolder controller) ["v.fxml", "C.java"]
      (verify .standard [.field "Button" "ok"] (Controller.stripComments source)) := by
  have hchecks : Checks (buttonFolder controller) ["v.fxml", "C.java"]
      ⟨"v.fxml", some "C.java", .standard, false, false⟩ source (Text.Utf8.encode buttonMarkup) :=
    ⟨by decide +kernel, ⟨"C.java", controller, rfl, rfl, hs⟩, rfl⟩
  refine ⟨_, _, ⟨source, _, hchecks, ?_⟩, rfl, rfl, rfl⟩
  rw [check, extract_buttonMarkup]
  rfl

/-- Items that look like the frame are read back, and so is the output of a run; a run on a
controller that declares the button writes another one. -/
theorem framelike_items_are_read_back :
    Report.read? (Report.render ["", Report.header 2, ""]) = some ["", Report.header 2, ""] ∧
    Report.render ["", Report.header 2, ""] ≠ Report.render [Report.header 2, "", ""] ∧
    ∃ unwired wired, run (buttonFolder []) ["v.fxml", "C.java"] = .ok unwired ∧
      run (buttonFolder (Text.Utf8.encode "public Button ok;".toList)) ["v.fxml", "C.java"] =
        .ok wired ∧
      Report.read? unwired.output = some ["Button ok"] ∧ unwired.output ≠ wired.output := by
  obtain ⟨hread, hinjective, houtput, hdistinct⟩ := report_is_read_back
  have hframelike : ∀ item ∈ ["", Report.header 2, ""], '\n' ∉ item.toList := by decide +kernel
  have hbutton : ∀ item ∈ ["Button ok"], '\n' ∉ item.toList := by decide +kernel
  -- Without a declaration the button is missing, and with one nothing is.
  have hunwired : Reports (buttonFolder []) ["v.fxml", "C.java"] ["Button ok"] := by
    have hs : Controller.readSource [] = .ok "" := by decide +kernel
    convert reports_buttonFolder hs using 1
    decide +kernel
  have hwired : Reports (buttonFolder (Text.Utf8.encode "public Button ok;".toList))
      ["v.fxml", "C.java"] [] := by
    have hs : Controller.readSource (Text.Utf8.encode "public Button ok;".toList) =
        .ok "public Button ok;" := by decide +kernel
    convert reports_buttonFolder hs using 1
    decide +kernel
  obtain ⟨unwired, hur⟩ := hunwired.exists_run
  obtain ⟨wired, hwr⟩ := hwired.exists_run
  have hplain : ∀ a, parseArguments ["v.fxml", "C.java"] = .run a →
      a.verbose = false ∧ a.quiet = false := by
    have ha : parseArguments ["v.fxml", "C.java"] =
        .run ⟨"v.fxml", some "C.java", .standard, false, false⟩ := by decide +kernel
    rintro a h
    obtain rfl := Parsed.run.inj (ha.symm.trans h)
    exact ⟨rfl, rfl⟩
  refine ⟨(hread _ hframelike).1, fun h => ?_, unwired, wired, hur, hwr, ?_, ?_⟩
  · exact absurd (hinjective _ _ hframelike h) (by decide +kernel)
  · exact (houtput hur hplain).2 ⟨hbutton, hunwired⟩
  · exact hdistinct hunwired hur hwired hwr hbutton (by decide)

end FxmlWiring.CommandLine
