import FxmlWiring.Proofs.CommandLine.ArgumentOrder

/-! # Output modes

A **mode** says how much a run writes. A command line that asks for no mode can be put in one by a
word in front: nothing else is read differently (`parseArguments_inMode`). The files are checked in
the same way in every mode (`runCheck_cases`), so the modes differ in what is written about the
outcomes and in nothing else. -/

namespace FxmlWiring.CommandLine

/-! ## Modes -/

/-- How much a run writes. -/
inductive Mode where
  | plain
  | quiet
  | verbose
deriving Repr, DecidableEq

/-- What is put in front of a command line for a mode. -/
def Mode.words : Mode → List String
  | plain => []
  | quiet => ["--quiet"]
  | verbose => ["--verbose"]

/-- What has been taken, in a mode. -/
def Taken.inMode (t : Taken) (m : Mode) : Taken :=
  { t with verbose := decide (m = .verbose), quiet := decide (m = .quiet) }

/-- The same arguments in a mode. -/
def Arguments.inMode (a : Arguments) (m : Mode) : Arguments :=
  { a with verbose := decide (m = .verbose), quiet := decide (m = .quiet) }

/-- Arguments that ask for no mode are in the plain one. -/
theorem Arguments.inMode_plain {a : Arguments} (hv : a.verbose = false) (hq : a.quiet = false) :
    a.inMode .plain = a := by
  obtain ⟨fxmlFile, controllerFile, settings, verbose, quiet⟩ := a
  obtain rfl : verbose = false := hv
  obtain rfl : quiet = false := hq
  rfl

namespace Taken

/-- No mode has been asked for. -/
def IsPlain (t : Taken) : Prop :=
  t.verbose = false ∧ t.quiet = false

variable (t : Taken) (m : Mode)

theorem isPlain_addPlain (word : String) : (t.addPlain word).IsPlain ↔ t.IsPlain := by
  unfold addPlain
  split <;> rfl

theorem addPlain_inMode (word : String) :
    (t.inMode m).addPlain word = (t.addPlain word).inMode m := by
  by_cases h : t.paths.length < pathNames.length
  · rw [addPlain, addPlain, if_pos h, inMode, if_pos h, inMode]
  · rw [addPlain, addPlain, if_neg h, inMode, if_neg h, inMode]

theorem isPlain_setValue (s : Switch) (value : String) :
    (t.setValue s value).IsPlain ↔ t.IsPlain := by
  cases s <;> rfl

theorem setValue_inMode (s : Switch) (value : String) :
    (t.inMode m).setValue s value = (t.setValue s value).inMode m := by
  cases s <;> rfl

theorem isPlain_foldl_addPlain (words : List String) :
    (words.foldl addPlain t).IsPlain ↔ t.IsPlain := by
  induction words generalizing t with
  | nil => rfl
  | cons word words ih => rw [List.foldl_cons, ih, isPlain_addPlain]

theorem foldl_addPlain_inMode (words : List String) :
    words.foldl addPlain (t.inMode m) = (words.foldl addPlain t).inMode m := by
  induction words generalizing t with
  | nil => rfl
  | cons word words ih => rw [List.foldl_cons, List.foldl_cons, addPlain_inMode, ih]

theorem isPlain_takeLast (afterPath : Bool) (words : List String) :
    (t.takeLast afterPath words).IsPlain ↔ t.IsPlain := by
  unfold takeLast
  rw [isPlain_foldl_addPlain]
  split
  · rfl
  · rfl

theorem takeLast_inMode (afterPath : Bool) (words : List String) :
    (t.inMode m).takeLast afterPath words = (t.takeLast afterPath words).inMode m := by
  rw [takeLast, takeLast, ← foldl_addPlain_inMode]
  change List.foldl addPlain (ite (_ || (decide (t.paths.length < _) && _)) _ _) words = _
  split
  · rfl
  · rfl

variable {t}

/-- A switch without a value asks for a mode. -/
theorem not_isPlain_of_setFlag {s : Switch} (hs : s ≠ .help) (hv : ¬ s.takesValue = true)
    {t' : Taken} (h : t.setFlag s = .ok t') : ¬ t'.IsPlain := by
  rintro ⟨hv', hq'⟩
  cases s with
  | help => exact hs rfl
  | binding | idAttribute | actionAttribute => exact hv rfl
  | verbose =>
    rw [setFlag] at h
    split at h
    · cases h
    · obtain rfl := Except.ok.inj h
      cases hv'
  | quiet =>
    rw [setFlag] at h
    split at h
    · cases h
    · obtain rfl := Except.ok.inj h
      cases hq'

/-- What is asked for in the end has been taken. -/
theorem finish_inMode {a : Arguments} (h : t.finish = .run a) :
    (t.verbose = a.verbose ∧ t.quiet = a.quiet) ∧ (t.inMode m).finish = .run (a.inMode m) := by
  obtain ⟨paths, losesLast, leftOver, settings, verbose, quiet⟩ := t
  unfold finish at h
  split at h
  · split at h
    · rename_i hp hl
      obtain rfl := Parsed.run.inj h
      obtain rfl : paths = _ := hp
      obtain rfl : leftOver = [] := hl
      exact ⟨⟨rfl, rfl⟩, rfl⟩
    · cases h
  · cases h

end Taken

/-! ## A mode in front of a command line -/

/-- **Words that ask for no mode are taken in any mode.** -/
theorem takeWords_inMode (m : Mode) {t : Taken} {afterPath : Bool} {words : List Word}
    {a : Arguments} (h : takeWords t afterPath words = .run a) (hv : a.verbose = false)
    (hq : a.quiet = false) :
    t.IsPlain ∧ takeWords (t.inMode m) afterPath words = .run (a.inMode m) := by
  have hfinish : ∀ {t : Taken}, t.finish = .run a →
      t.IsPlain ∧ (t.inMode m).finish = .run (a.inMode m) := fun h => by
    obtain ⟨⟨hv', hq'⟩, hf⟩ := Taken.finish_inMode m h
    exact ⟨⟨hv'.trans hv, hq'.trans hq⟩, hf⟩
  fun_induction takeWords t afterPath words with
  | case1 t => exact hfinish h
  | case2 t afterPath words =>
    obtain ⟨hp, hf⟩ := hfinish h
    rw [takeWords, t.takeLast_inMode]
    exact ⟨(t.isPlain_takeLast afterPath _).1 hp, hf⟩
  | case3 t afterPath word words ih =>
    obtain ⟨hp, hw⟩ := ih h
    rw [takeWords, t.addPlain_inMode]
    exact ⟨(t.isPlain_addPlain word).1 hp, hw⟩
  | case4 t afterPath word words ih =>
    rw [takeWords]
    exact ih h
  | case5 | case6 | case7 | case9 | case10 | case12 | case13 => cases h
  | case8 t afterPath s value words hs ih =>
    obtain ⟨hp, hw⟩ := ih h
    rw [takeWords, if_pos hs, t.setValue_inMode]
    exact ⟨(t.isPlain_setValue s value).1 hp, hw⟩
  | case11 t afterPath s hne hs value words ih =>
    obtain ⟨hp, hw⟩ := ih h
    rw [takeWords]
    simp only [if_neg hne, if_pos hs, t.setValue_inMode]
    exact ⟨(t.isPlain_setValue s value).1 hp, hw⟩
  | case14 t afterPath s words hne hs t' ht ih =>
    exact absurd (ih h).1 (Taken.not_isPlain_of_setFlag hne hs ht)

/-- A switch without a value in front of a command line takes effect first. -/
theorem parseArguments_cons_flag {word : String} {s : Switch} (hword : word ≠ "--")
    (hc : Word.classify word = .ok (.switch s none)) (hs : s ≠ .help) (hv : s.takesValue = false)
    {t : Taken} (ht : Taken.setFlag {} s = .ok t) {words : List String} {ws : List Word}
    (hw : Word.classifyAll words = .ok ws) :
    parseArguments (word :: words) = takeWords t false ws := by
  rw [parseArguments, classifyAll_cons hword hc, hw]
  change takeWords {} false (.switch s none :: ws) = _
  rw [takeWords_flag hs hv, ht]

/-- The words of arguments are words that can be told apart. -/
theorem exists_classifyAll {words : List String} {a : Arguments}
    (h : parseArguments words = .run a) :
    ∃ ws, Word.classifyAll words = .ok ws ∧ takeWords {} false ws = .run a := by
  unfold parseArguments at h
  split at h
  · cases h
  · rename_i ws hw
    exact ⟨ws, hw, h⟩

/-- **A mode in front of a command line puts its arguments in the mode.** -/
theorem parseArguments_inMode (m : Mode) {words : List String} {a : Arguments}
    (h : parseArguments words = .run a) (hv : a.verbose = false) (hq : a.quiet = false) :
    parseArguments (m.words ++ words) = .run (a.inMode m) := by
  cases m with
  | plain => rwa [Arguments.inMode_plain hv hq]
  | quiet =>
    obtain ⟨ws, hw, ht⟩ := exists_classifyAll h
    exact (parseArguments_cons_flag (s := .quiet) (by decide) (classify_label (by decide))
      (by decide) rfl rfl hw).trans (takeWords_inMode .quiet ht hv hq).2
  | verbose =>
    obtain ⟨ws, hw, ht⟩ := exists_classifyAll h
    exact (parseArguments_cons_flag (s := .verbose) (by decide) (classify_label (by decide))
      (by decide) rfl rfl hw).trans (takeWords_inMode .verbose ht hv hq).2

/-! ## Checks in a mode -/

/-- **A check ends alike in every mode**: it is stopped, it fails with one message, or it gets to
the same outcomes. -/
theorem runCheck_cases (folder : Folder) (a : Arguments) :
    (∃ e, ∀ m, runCheck folder (a.inMode m) = .error e) ∨
      (∃ errors, ∀ m, runCheck folder (a.inMode m) = .ok (.failed errors)) ∨
      ∃ source markup outcomes,
        (∃ path bytes, a.controllerFile = some path ∧ folder path = .ok bytes ∧
          Controller.readSource bytes = .ok source) ∧
        folder a.fxmlFile = .ok markup ∧
        check a.settings (.encoded markup) source = .ok outcomes ∧
        ∀ m, runCheck folder (a.inMode m) = .ok (.ofOutcomes (a.inMode m) outcomes) := by
  cases hp : a.controllerFile with
  | none =>
    refine Or.inl ⟨.noController, fun m => ?_⟩
    simp only [runCheck, Arguments.inMode, hp]
  | some path =>
    cases hc : folder path with
    | error e =>
      refine Or.inr (Or.inl ⟨"Error: " ++ e.message path ++ "\n", fun m => ?_⟩)
      simp only [runCheck, Arguments.inMode, hp, hc]
    | ok bytes =>
      cases hs : Controller.readSource bytes with
      | error e =>
        refine Or.inr (Or.inl ⟨"Error: " ++ e.message ++ "\n", fun m => ?_⟩)
        simp only [runCheck, Arguments.inMode, hp, hc, hs]
      | ok source =>
        cases hm : folder a.fxmlFile with
        | error e =>
          refine Or.inr (Or.inl ⟨"Error: " ++ e.message a.fxmlFile ++ "\n", fun m => ?_⟩)
          simp only [runCheck, Arguments.inMode, hp, hc, hs, hm]
        | ok markup =>
          -- Only the outcomes are shown in one way or another.
          have hcheck : ∀ m, runCheck folder (a.inMode m) =
              Result.ofCheck (a.inMode m) (check a.settings (.encoded markup) source) := fun m =>
            runCheck_eq_ofCheck hp hc hs hm
          cases ho : check a.settings (.encoded markup) source with
          | ok outcomes =>
            exact Or.inr (Or.inr ⟨source, markup, outcomes, ⟨path, bytes, rfl, hc, hs⟩, rfl, ho,
              fun m => (hcheck m).trans (by rw [ho]; rfl)⟩)
          | error e =>
            cases e with
            | malformed cause p =>
              let message := (Markup.Error.malformed cause p).message
              exact Or.inr (Or.inl ⟨"Error: " ++ a.fxmlFile ++ ": " ++ message ++ "\n",
                fun m => (hcheck m).trans (by rw [ho]; rfl)⟩)
            | _ => exact Or.inl ⟨_, fun m => (hcheck m).trans (by rw [ho]; rfl)⟩

/-! ## Entries -/

/-- What a verbose run says about a requirement. -/
def verdict (s : Settings) (source : String) (r : Requirement) : String :=
  match r.acceptedBy? s (Controller.stripComments source) with
  | some rule => "ok (" ++ rule.name ++ ")"
  | none => "MISSING"

/-- The kind of a requirement with blanks behind it, eight characters in all. -/
def kindColumn : Requirement → String
  | .field .. => "field   "
  | .handler .. => "handler "

/-- The entry of a verbose run for a requirement. -/
def entry (s : Settings) (source : String) (r : Requirement) : String :=
  "  " ++ kindColumn r ++ " " ++ r.display ++ ": " ++ verdict s source r ++ "\n"

/-- What a verbose run shows as missing. -/
def shownMissing (s : Settings) (source : String) (requirements : List Requirement) :
    List Requirement :=
  requirements.filter fun r => verdict s source r = "MISSING"

/-- A requirement is shown as missing if no rule accepted it. -/
theorem verdict_eq_missing_iff {s : Settings} {source : String} {r : Requirement} :
    verdict s source r = "MISSING" ↔
      r.acceptedBy? s (Controller.stripComments source) = none := by
  unfold verdict
  split
  · rename_i rule h
    rw [h]
    refine ⟨fun he => ?_, fun he => nomatch he⟩
    have hlist := congrArg String.toList he
    simp at hlist
  · rename_i h
    exact ⟨fun _ => h, fun _ => rfl⟩

/-- The line of an outcome is the entry of its requirement. -/
theorem outcomeLine_eq_entry (s : Settings) (source : String) (r : Requirement) :
    outcomeLine ⟨r, r.acceptedBy? s (Controller.stripComments source)⟩ = entry s source r := by
  have hkind : padRight 8 r.kind = kindColumn r := by
    cases r with
    | field =>
      change padRight 8 "field" = "field   "
      decide +kernel
    | handler =>
      change padRight 8 "handler" = "handler "
      decide +kernel
  rw [outcomeLine, hkind]
  rfl

/-- **The lines of outcomes are the entries of the requirements**, in their order. -/
theorem map_outcomeLine (s : Settings) (source : String) (requirements : List Requirement) :
    (evaluate s requirements (Controller.stripComments source)).map outcomeLine =
      requirements.map (entry s source) := by
  rw [evaluate, List.map_map]
  exact List.map_congr_left fun r _ => outcomeLine_eq_entry s source r

/-- Outcomes are those of requirements. -/
theorem exists_extract_of_check {s : Settings} {markup : Markup} {source : String}
    {outcomes : List Outcome} (h : check s markup source = .ok outcomes) :
    ∃ requirements, extract s markup = .ok requirements ∧
      outcomes = evaluate s requirements (Controller.stripComments source) := by
  rw [check] at h
  cases hr : extract s markup with
  | error e =>
    rw [hr] at h
    cases h
  | ok requirements =>
    rw [hr] at h
    exact ⟨requirements, rfl, (Except.ok.inj h).symm⟩

/-- **What is missing is what is shown as missing**, in its order. -/
theorem missing_evaluate (s : Settings) (source : String) (requirements : List Requirement) :
    Outcome.missing (evaluate s requirements (Controller.stripComments source)) =
      (shownMissing s source requirements).map (·.display) := by
  have hmissing : ∀ r : Requirement,
      Outcome.isMissing ⟨r, r.acceptedBy? s (Controller.stripComments source)⟩ =
        decide (verdict s source r = "MISSING") := fun r => by
    rw [Bool.eq_iff_iff, decide_eq_true_iff, verdict_eq_missing_iff]
    exact Option.isNone_iff_eq_none
  rw [Outcome.missing, evaluate, List.filter_map, List.map_map, shownMissing]
  refine congrArg _ (List.filter_congr fun r _ => ?_)
  exact hmissing r

/-- **The mode of a run does not change its verdict.** Let a command line ask for no mode, and put
it in one by a word in front. A run that is stopped is stopped in every mode. Any other run has the
same status and the same messages in every mode; it writes nothing if it is quiet; and a verbose run
that answers writes an entry for each requirement in their order, and then what the plain run
writes: the report of those that are shown as missing. -/
theorem mode_keeps_verdict (folder : Folder) {words : List String} {a : Arguments}
    (h : parseArguments words = .run a) (hv : a.verbose = false) (hq : a.quiet = false) :
    (∀ e, run folder words = .error e →
      run folder ("--quiet" :: words) = .error e ∧ run folder ("--verbose" :: words) = .error e) ∧
    ∀ plain, run folder words = .ok plain →
      run folder ("--quiet" :: words) = .ok { plain with output := "" } ∧
      ∃ output, run folder ("--verbose" :: words) = .ok { plain with output := output } ∧
        (plain.status.code = 1 → output = "") ∧
        (plain.status.code = 0 ∨ plain.status.code = 2 →
          ∃ source markup requirements, Checks folder words a source markup ∧
            extract a.settings (.encoded markup) = .ok requirements ∧
            output = String.join (requirements.map (entry a.settings source)) ++ plain.output ∧
            plain.output = Report.render
              ((shownMissing a.settings source requirements).map (·.display))) := by
  have hrun : ∀ m : Mode, run folder (m.words ++ words) = runCheck folder (a.inMode m) :=
    fun m => by rw [run, parseArguments_inMode m h hv hq]
  have hplain : run folder words = _ := hrun .plain
  have hquiet : run folder ("--quiet" :: words) = _ := hrun .quiet
  have hverbose : run folder ("--verbose" :: words) = _ := hrun .verbose
  rw [hplain, hquiet, hverbose]
  obtain ⟨e, he⟩ | ⟨errors, he⟩ | ⟨source, markup, outcomes, hc, hm, ho, he⟩ :=
    runCheck_cases folder a
  · rw [he, he, he]
    constructor
    · rintro e' ⟨⟩
      exact ⟨rfl, rfl⟩
    · rintro plain ⟨⟩
  · rw [he, he, he]
    constructor
    · rintro e ⟨⟩
    · rintro plain ⟨⟩
      refine ⟨rfl, "", rfl, fun _ => rfl, ?_⟩
      rintro (hcode | hcode)
      · cases hcode
      · cases hcode
  · rw [he, he, he]
    constructor
    · rintro e ⟨⟩
    · rintro plain ⟨⟩
      obtain ⟨requirements, hr, rfl⟩ := exists_extract_of_check ho
      refine ⟨rfl, _, rfl, fun hcode => ?_, fun _ => ?_⟩
      · rw [code_ofOutcomes] at hcode
        split at hcode
        · cases hcode
        · cases hcode
      · refine ⟨source, markup, requirements, ⟨h, hc, hm⟩, hr, ?_, ?_⟩
        · simp [Result.ofOutcomes, describe, Arguments.inMode, map_outcomeLine]
        · simp [Result.ofOutcomes, describe, Arguments.inMode, missing_evaluate]

/-- A missing button in each of the modes. -/
theorem unwired_button_in_all_modes :
    parseArguments ["v.fxml", "C.java"] = .run ⟨"v.fxml", some "C.java", .standard, false, false⟩ ∧
      ∃ plain, run unwiredFolder ["v.fxml", "C.java"] = .ok plain ∧
        run unwiredFolder ["--quiet", "v.fxml", "C.java"] = .ok { plain with output := "" } ∧
        run unwiredFolder ["--verbose", "v.fxml", "C.java"] =
          .ok { plain with output := "  field    Button ok: MISSING\n" ++ plain.output } := by
  have ha : parseArguments ["v.fxml", "C.java"] =
      .run ⟨"v.fxml", some "C.java", .standard, false, false⟩ := by decide +kernel
  have hs : Controller.readSource [] = .ok "" := by decide +kernel
  have hchecks : Checks unwiredFolder ["v.fxml", "C.java"]
      ⟨"v.fxml", some "C.java", .standard, false, false⟩ "" (Text.Utf8.encode buttonMarkup) :=
    ⟨ha, ⟨"C.java", [], rfl, rfl, hs⟩, rfl⟩
  have hnone : (Requirement.field "Button" "ok").acceptedBy? .standard
      (Controller.stripComments "") = none := by decide +kernel
  have hrun : run unwiredFolder ["v.fxml", "C.java"] = .ok (.ofOutcomes
      ⟨"v.fxml", some "C.java", .standard, false, false⟩ [⟨.field "Button" "ok", none⟩]) := by
    rw [hchecks.run_eq_ofCheck, check, extract_buttonMarkup, ← hnone]
    rfl
  obtain ⟨-, hmodes⟩ := mode_keeps_verdict unwiredFolder ha rfl rfl
  obtain ⟨hquiet, output, hverbose, -, hanswer⟩ := hmodes _ hrun
  obtain ⟨source, markup, requirements, ⟨-, ⟨path, bytes, hp, hc, hs'⟩, hm⟩, hr, rfl, -⟩ :=
    hanswer (Or.inr rfl)
  -- The folder holds one controller and one markup.
  obtain rfl : "C.java" = path := Option.some.inj hp
  obtain rfl : [] = bytes := Except.ok.inj hc
  obtain rfl : "" = source := Except.ok.inj (hs.symm.trans hs')
  obtain rfl : Text.Utf8.encode buttonMarkup = markup := Except.ok.inj hm
  obtain rfl : _ = requirements := Except.ok.inj (extract_buttonMarkup.symm.trans hr)
  have hentry : String.join
      ([Requirement.field "Button" "ok"].map (entry .standard "")) =
        "  field    Button ok: MISSING\n" := by decide +kernel
  rw [hentry] at hverbose
  exact ⟨ha, _, hrun, hquiet, hverbose⟩

end FxmlWiring.CommandLine
