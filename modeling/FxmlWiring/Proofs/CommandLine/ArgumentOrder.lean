import FxmlWiring.Proofs.CommandLine.ExitStatus

/-! # The order of the arguments

A command line is a row of **items**: paths, and options that are one or two words. Taking an item
commutes with taking a path unless both are paths (`Taken.take_addPlain`), so the options may stand
anywhere between the paths (`foldlM_take_optionsFirst`). What all items together ask for is said by
the last value of each option (`Taken.foldlM_take_eq_after`). -/

namespace FxmlWiring.CommandLine

/-! ## Items -/

/-- An item of a command line. A value that is a word of its own does not look like a switch; an
attached one may be any text but the separator. -/
inductive Item where
  | path (p : String) (hp : p.toList.head? ≠ some '-')
  /-- A switch and its value, as two words. -/
  | separate (s : Switch) (hs : s.takesValue = true) (value : String)
      (hv : value.toList.head? ≠ some '-')
  /-- A switch and its value, as one word with an equals sign. -/
  | attached (s : Switch) (hs : s.takesValue = true) (value : String) (hv : value ≠ "--")
  | verbose
  | quiet
deriving DecidableEq

namespace Item

/-- The words of an item. -/
def words : Item → List String
  | path p _ => [p]
  | separate s _ value _ => [s.label, value]
  | attached s _ value _ => [s.label ++ "=" ++ value]
  | verbose => [Switch.verbose.label]
  | quiet => [Switch.quiet.label]

/-- What the words of an item are. -/
def tokens : Item → List Word
  | path p _ => [.plain p]
  | separate s _ value _ => [.switch s none, .plain value]
  | attached s _ value _ => [.switch s (some value)]
  | verbose => [.switch .verbose none]
  | quiet => [.switch .quiet none]

/-- The path that an item is. -/
def path? : Item → Option String
  | path p _ => some p
  | separate _ _ _ _ | attached _ _ _ _ | verbose | quiet => none

/-- The value that an item gives to a switch. -/
def value? (s : Switch) : Item → Option String
  | separate s' _ value _ | attached s' _ value _ => if s' = s then some value else none
  | path _ _ | verbose | quiet => none

end Item

/-- The words of a row of items. -/
def commandLine (items : List Item) : List String :=
  items.flatMap Item.words

/-- The paths of a row of items, in their order. -/
def pathsOf (items : List Item) : List String :=
  items.filterMap Item.path?

/-- The same items with all options before the paths. -/
def optionsFirst (items : List Item) : List Item :=
  items.filter (·.path?.isNone) ++ items.filter (·.path?.isSome)

/-- The last value that items give to a switch. -/
def lastValue? (s : Switch) (items : List Item) : Option String :=
  (items.filterMap (Item.value? s)).getLast?

/-- The settings with the last value of each option. -/
def overridden (s : Settings) (items : List Item) : Settings :=
  { s with
    idMarker := (lastValue? .idAttribute items).getD s.idMarker
    actionMarker := (lastValue? .actionAttribute items).getD s.actionMarker
    binding := (lastValue? .binding items).getD s.binding }

/-- A value counts unless a later item gives another one. -/
theorem getD_lastValue?_cons (s : Switch) (x : Item) (items : List Item) (default : String) :
    (lastValue? s (x :: items)).getD default =
      (lastValue? s items).getD ((x.value? s).getD default) := by
  rw [lastValue?, lastValue?, List.filterMap_cons]
  cases x.value? s with
  | none => rfl
  | some v => rw [List.getLast?_cons, Option.getD_some, Option.getD_some]

/-! ## Words of items -/

/-- A word that does not start like a switch is plain. -/
theorem classify_plain {word : String} (h : word.toList.head? ≠ some '-') :
    Word.classify word = .ok (.plain word) := by
  unfold Word.classify
  split
  · rename_i hw
    rw [hw] at h
    exact absurd rfl h
  · rfl

/-- A switch in its long spelling. -/
theorem classify_label {s : Switch} (hs : s ≠ .help) :
    Word.classify s.label = .ok (.switch s none) := by
  cases s with
  | help => exact absurd rfl hs
  | _ => decide +kernel

/-- No spelling of a switch holds an equals sign. -/
theorem lookup_spellings_eq_none {word : String} (h : '=' ∈ word.toList) :
    Switch.spellings.lookup word = none := by
  have hall : ∀ entry ∈ Switch.spellings, '=' ∉ entry.1.toList := by decide
  rw [List.lookup_eq_none_iff]
  rintro entry he
  rw [bne_iff_ne]
  rintro rfl
  exact hall entry he h

/-- A word is split at its first equals sign. -/
theorem splitValue_append {front : List Char} (hf : '=' ∉ front) (value : List Char) :
    Word.splitValue (front ++ '=' :: value) = (front, some value) := by
  have hp : ∀ c ∈ front, decide (c ≠ '=') = true := fun c hc =>
    decide_eq_true fun h => hf (h ▸ hc)
  have hv : Text.StopsAt (fun c => decide (c ≠ '=')) ('=' :: value) := Text.stopsAt_cons.2 rfl
  rw [Word.splitValue, Text.dropWhile_append hp hv, Text.takeWhile_append hp hv]

/-- A switch with a value behind an equals sign. -/
theorem classify_attached {s : Switch} (hs : s.takesValue = true) (value : String) :
    Word.classify (s.label ++ "=" ++ value) = .ok (.switch s (some value)) := by
  have hword : (s.label ++ "=" ++ value).toList = s.label.toList ++ '=' :: value.toList := by
    simp
  have hlookup : Switch.spellings.lookup (s.label ++ "=" ++ value) = none :=
    lookup_spellings_eq_none (by simp)
  have hlabel : ∃ t, s.label.toList = '-' :: '-' :: t ∧ '=' ∉ s.label.toList ∧
      Switch.spellings.lookup (String.ofList s.label.toList) = some s := by
    cases s with
    | binding | idAttribute | actionAttribute => exact ⟨_, rfl, by decide, by decide⟩
    | help | verbose | quiet => cases hs
  obtain ⟨t, ht, hne, hs⟩ := hlabel
  have hsplit := splitValue_append hne value.toList
  unfold Word.classify
  rw [hword, hlookup, hsplit]
  rw [ht] at hs ⊢
  simp only [List.cons_append, hs, List.cons.injEq, Char.reduceEq, false_and, and_false, if_false,
    String.ofList_toList]

/-- A word before others is looked at by itself, unless it is the separator. -/
theorem classifyAll_cons {word : String} {w : Word} (hs : word ≠ "--")
    (hw : Word.classify word = .ok w) (words : List String) :
    Word.classifyAll (word :: words) = (Word.classifyAll words).map (w :: ·) := by
  rw [Word.classifyAll.eq_3 _ _ hs, hw]

/-- The words of an item are what they are, whatever follows. -/
theorem classifyAll_words (x : Item) (words : List String) :
    Word.classifyAll (x.words ++ words) = (Word.classifyAll words).map (x.tokens ++ ·) := by
  have hsep : ∀ {word : String}, word.toList.head? ≠ some '-' → word ≠ "--" := by
    rintro word h rfl
    exact h rfl
  cases x with
  | path p hp => exact classifyAll_cons (hsep hp) (classify_plain hp) words
  | separate s hs value hv =>
    have hlabel : s.label ≠ "--" ∧ s ≠ .help := by
      cases s with
      | help | verbose | quiet => cases hs
      | binding | idAttribute | actionAttribute => decide
    have hvalue := classifyAll_cons (hsep hv) (classify_plain hv) words
    change Word.classifyAll (s.label :: value :: words) = _
    rw [classifyAll_cons hlabel.1 (classify_label hlabel.2), hvalue]
    cases Word.classifyAll words <;> rfl
  | attached s hs value hv =>
    have hne : s.label ++ "=" ++ value ≠ "--" := by
      intro h
      have hmem : '=' ∈ (s.label ++ "=" ++ value).toList := by simp
      rw [h] at hmem
      exact absurd hmem (by decide)
    exact classifyAll_cons hne (classify_attached hs value) words
  | verbose => exact classifyAll_cons (by decide) (classify_label (by decide)) words
  | quiet => exact classifyAll_cons (by decide) (classify_label (by decide)) words

/-- The words of a row of items. -/
theorem classifyAll_commandLine (items : List Item) :
    Word.classifyAll (commandLine items) = .ok (items.flatMap Item.tokens) := by
  induction items with
  | nil => rfl
  | cons x items ih =>
    rw [commandLine, List.flatMap_cons, classifyAll_words, ← commandLine, ih, List.flatMap_cons]
    rfl

/-! ## Taking items -/

namespace Taken

/-- A value is none of the paths. -/
theorem setValue_addPlain (t : Taken) (p : String) (s : Switch) (value : String) :
    (t.addPlain p).setValue s value = (t.setValue s value).addPlain p := by
  have hp : (t.setValue s value).paths = t.paths := by cases s <;> rfl
  rw [addPlain, addPlain, hp]
  split
  · cases s <;> rfl
  · cases s <;> rfl

/-- A switch without a value is none of the paths. -/
theorem setFlag_addPlain (t : Taken) (p : String) (s : Switch) :
    (t.addPlain p).setFlag s = (t.setFlag s).map (·.addPlain p) := by
  cases s with
  | verbose | quiet =>
    by_cases hp : t.paths.length < pathNames.length
    · simp only [addPlain, setFlag, if_pos hp]
      split
      · rfl
      · exact congrArg Except.ok (if_pos hp).symm
    · simp only [addPlain, setFlag, if_neg hp]
      split
      · rfl
      · exact congrArg Except.ok (if_neg hp).symm
  | help | binding | idAttribute | actionAttribute => rfl

/-- What has been taken after an item. -/
def take (t : Taken) : Item → Except UsageError Taken
  | .path p _ => .ok (t.addPlain p)
  | .separate s _ value _ | .attached s _ value _ => .ok (t.setValue s value)
  | .verbose => t.setFlag .verbose
  | .quiet => t.setFlag .quiet

/-- **An option may be taken before or after a path.** -/
theorem take_addPlain (t : Taken) (p : String) {x : Item} (hx : x.path? = none) :
    (t.addPlain p).take x = (t.take x).map (·.addPlain p) := by
  cases x with
  | path => cases hx
  | separate | attached => exact congrArg Except.ok (t.setValue_addPlain p _ _)
  | verbose => exact t.setFlag_addPlain p .verbose
  | quiet => exact t.setFlag_addPlain p .quiet

end Taken

/-- A switch without a value takes effect, and the words behind it are taken. -/
theorem takeWords_flag {s : Switch} (hs : s ≠ .help) (hv : s.takesValue = false) (t : Taken)
    (afterPath : Bool) (words : List Word) :
    takeWords t afterPath (.switch s none :: words) =
      match t.setFlag s with
      | .error e => .invalid e
      | .ok t => takeWords t false words := by
  rw [takeWords.eq_def]
  cases h : t.setFlag s <;> simp [hs, hv, h]

/-- Only the separator asks whether a path was before it. -/
theorem takeWords_afterPath {words : List Word} (h : Word.separator ∉ words) (t : Taken)
    (afterPath afterPath' : Bool) : takeWords t afterPath words = takeWords t afterPath' words := by
  cases words with
  | nil => rfl
  | cons w words =>
    cases w with
    | separator => exact absurd List.mem_cons_self h
    | plain | letters | unknown => rfl
    | switch s attached =>
      rw [takeWords.eq_def t afterPath, takeWords.eq_def t afterPath']
      cases attached <;> rfl

/-- No item is the separator. -/
theorem separator_not_mem_tokens (items : List Item) :
    Word.separator ∉ items.flatMap Item.tokens := by
  rw [List.mem_flatMap]
  rintro ⟨x, -, hx⟩
  cases x <;> simp [Item.tokens] at hx

/-- **The words of an item are taken as the item.** -/
theorem takeWords_tokens (t : Taken) (afterPath : Bool) (x : Item) {words : List Word}
    (h : Word.separator ∉ words) :
    takeWords t afterPath (x.tokens ++ words) =
      match t.take x with
      | .error e => .invalid e
      | .ok t => takeWords t false words := by
  cases x with
  | path p hp => exact takeWords_afterPath h _ _ _
  | separate s hs value hv =>
    have hne : s ≠ .help := by
      rintro rfl
      cases hs
    change takeWords t afterPath (.switch s none :: .plain value :: words) = _
    rw [takeWords]
    simp only [if_neg hne, if_pos hs, Taken.take]
  | attached s hs value hv =>
    change takeWords t afterPath (.switch s (some value) :: words) = _
    rw [takeWords, if_pos hs]
    rfl
  | verbose => exact takeWords_flag (by decide) rfl t afterPath words
  | quiet => exact takeWords_flag (by decide) rfl t afterPath words

/-- The words of a row of items are taken item by item. -/
theorem takeWords_items (t : Taken) (afterPath : Bool) (items : List Item) :
    takeWords t afterPath (items.flatMap Item.tokens) =
      match items.foldlM Taken.take t with
      | .error e => .invalid e
      | .ok t => t.finish := by
  induction items generalizing t afterPath with
  | nil => rfl
  | cons x items ih =>
    rw [List.flatMap_cons, takeWords_tokens t afterPath x (separator_not_mem_tokens items),
      List.foldlM_cons]
    cases t.take x with
    | error e => rfl
    | ok t => exact ih t false

/-- **A command line amounts to what its items make of it.** -/
theorem parseArguments_commandLine (items : List Item) :
    parseArguments (commandLine items) =
      match items.foldlM Taken.take {} with
      | .error e => .invalid e
      | .ok t => t.finish := by
  rw [parseArguments, classifyAll_commandLine]
  exact takeWords_items {} false items

/-! ## Options first -/

/-- Options may be taken before or after a path. -/
theorem foldlM_take_addPlain (t : Taken) (p : String) {items : List Item}
    (h : ∀ x ∈ items, x.path? = none) :
    items.foldlM Taken.take (t.addPlain p) = (items.foldlM Taken.take t).map (·.addPlain p) := by
  induction items generalizing t with
  | nil => rfl
  | cons x items ih =>
    obtain ⟨hx, h⟩ := List.forall_mem_cons.1 h
    rw [List.foldlM_cons, List.foldlM_cons, t.take_addPlain p hx]
    cases t.take x with
    | error e => rfl
    | ok t => exact ih t h

/-- **The options may stand anywhere between the paths.** -/
theorem foldlM_take_optionsFirst (t : Taken) (items : List Item) :
    (optionsFirst items).foldlM Taken.take t = items.foldlM Taken.take t := by
  -- A path at the front goes behind all options.
  induction items generalizing t with
  | nil => rfl
  | cons x items ih =>
    cases x with
    | path p hp =>
      have hoptions : ∀ x ∈ items.filter (·.path?.isNone), x.path? = none := fun x hx =>
        Option.isNone_iff_eq_none.1 (List.mem_filter.1 hx).2
      have ih := ih (t.addPlain p)
      rw [optionsFirst, List.foldlM_append, foldlM_take_addPlain t p hoptions] at ih
      change (items.filter (·.path?.isNone) ++
        .path p hp :: items.filter (·.path?.isSome)).foldlM Taken.take t =
          items.foldlM Taken.take (t.addPlain p)
      rw [List.foldlM_append, ← ih]
      cases (items.filter (·.path?.isNone)).foldlM Taken.take t <;> rfl
    | separate s hs value hv | attached s hs value hv => exact ih (t.setValue s value)
    | verbose | quiet =>
      change (_ :: optionsFirst items).foldlM Taken.take t = _
      rw [List.foldlM_cons, List.foldlM_cons]
      exact bind_congr ih

/-! ## What all items ask for -/

/-- The settings are overridden item by item. -/
theorem overridden_cons (s : Settings) (x : Item) (items : List Item) :
    overridden s (x :: items) = overridden (overridden s [x]) items := by
  have hone : ∀ (k : Switch) (default : String),
      (lastValue? k [x]).getD default = (x.value? k).getD default := fun k default => by
    rw [getD_lastValue?_cons]
    rfl
  simp only [overridden, getD_lastValue?_cons _ x items, hone]

namespace Taken

/-- What has been taken after items that fit. -/
def after (t : Taken) (items : List Item) : Taken :=
  { t with
    paths := t.paths ++ pathsOf items
    settings := overridden t.settings items
    verbose := t.verbose || decide (.verbose ∈ items)
    quiet := t.quiet || decide (.quiet ∈ items) }

theorem after_nil (t : Taken) : t.after [] = t := by
  simp [after, pathsOf, overridden, lastValue?]

theorem after_cons (t : Taken) (x : Item) (items : List Item) :
    t.after (x :: items) = (t.after [x]).after items := by
  have hp : pathsOf (x :: items) = pathsOf [x] ++ pathsOf items := by
    rw [pathsOf, pathsOf, pathsOf, ← List.filterMap_append]
    rfl
  simp [after, hp, overridden_cons t.settings x items, Bool.or_assoc]

/-- The items fit behind what has been taken: no third path, and not both verbose and quiet. -/
structure Admits (t : Taken) (items : List Item) : Prop where
  paths_le : (t.after items).paths.length ≤ pathNames.length
  flags : ¬ ((t.after items).verbose = true ∧ (t.after items).quiet = true)

/-- Items that fit do so one after the other. -/
theorem Admits.of_cons {t : Taken} {x : Item} {items : List Item} (h : t.Admits (x :: items)) :
    t.Admits [x] ∧ (t.after [x]).Admits items := by
  obtain ⟨hp, hf⟩ := h
  rw [after_cons] at hp hf
  refine ⟨⟨?_, fun hf' => hf ?_⟩, hp, hf⟩
  · have hle : (t.after [x]).paths.length ≤ ((t.after [x]).after items).paths.length := by
      simp [after]
    exact hle.trans hp
  · exact ⟨Bool.or_eq_true_iff.2 (Or.inl hf'.1), Bool.or_eq_true_iff.2 (Or.inl hf'.2)⟩

/-- A value overrides the setting of its switch. -/
theorem setValue_eq_after (t : Taken) {s : Switch} (hs : s.takesValue = true) {value : String}
    {x : Item} (hx : ∀ k, x.value? k = if s = k then some value else none) (hp : x.path? = none)
    (hv : x ≠ .verbose) (hq : x ≠ .quiet) : t.setValue s value = t.after [x] := by
  have hlast : ∀ (k : Switch) (default : String),
      (lastValue? k [x]).getD default = if s = k then value else default := fun k default => by
    rw [getD_lastValue?_cons, hx]
    split <;> rfl
  have hpaths : pathsOf [x] = [] := by rw [pathsOf, List.filterMap_cons, hp, List.filterMap_nil]
  simp only [after, hpaths, overridden, hlast, List.mem_singleton, Ne.symm hv, Ne.symm hq,
    decide_false, Bool.or_false, List.append_nil]
  cases s with
  | binding | idAttribute | actionAttribute => rfl
  | help | verbose | quiet => cases hs

/-- **An item that fits is taken.** -/
theorem take_eq_after {t : Taken} {x : Item} (h : t.Admits [x]) : t.take x = .ok (t.after [x]) := by
  cases x with
  | path p hp =>
    have hlt : t.paths.length < pathNames.length := by
      have hle := h.paths_le
      rw [after, List.length_append] at hle
      exact Nat.lt_of_succ_le hle
    rw [take, addPlain, if_pos hlt]
    simp [after, pathsOf, Item.path?, overridden, lastValue?, Item.value?]
  | separate s hs value hv | attached s hs value hv =>
    exact congrArg Except.ok
      (t.setValue_eq_after hs (fun k => rfl) rfl (fun h => nomatch h) fun h => nomatch h)
  | verbose =>
    have hq : ¬ t.quiet = true := by simpa [after] using h.flags
    rw [take, setFlag, if_neg hq]
    simp [after, pathsOf, Item.path?, overridden, lastValue?, Item.value?]
  | quiet =>
    have hv : ¬ t.verbose = true := by simpa [after] using h.flags
    rw [take, setFlag, if_neg hv]
    simp [after, pathsOf, Item.path?, overridden, lastValue?, Item.value?]

/-- **Items that fit are taken one after the other.** -/
theorem foldlM_take_eq_after {t : Taken} {items : List Item} (h : t.Admits items) :
    items.foldlM take t = .ok (t.after items) := by
  induction items generalizing t with
  | nil => exact congrArg Except.ok t.after_nil.symm
  | cons x items ih =>
    obtain ⟨hx, h⟩ := h.of_cons
    rw [List.foldlM_cons, take_eq_after hx, after_cons t x items]
    exact ih h

end Taken

/-- What the items ask for: to check the two files, with the last value of each option. -/
def argumentsOf (fxmlFile controllerFile : String) (items : List Item) : Arguments where
  fxmlFile := fxmlFile
  controllerFile := controllerFile
  settings := overridden .standard items
  verbose := decide (.verbose ∈ items)
  quiet := decide (.quiet ∈ items)

/-- **The order of the arguments does not matter.** A command line of two paths and options in any
order is run like the one with all options first. Unless it asks for both verbose and quiet, it runs
the check of the two files with the last value of each option, or the standard one. -/
theorem options_may_stand_anywhere (folder : Folder) {items : List Item}
    {fxmlFile controllerFile : String} (h : pathsOf items = [fxmlFile, controllerFile]) :
    run folder (commandLine items) = run folder (commandLine (optionsFirst items)) ∧
      (¬ (.verbose ∈ items ∧ .quiet ∈ items) → run folder (commandLine items) =
        runCheck folder (argumentsOf fxmlFile controllerFile items)) := by
  constructor
  · rw [run, run, parseArguments_commandLine, parseArguments_commandLine,
      foldlM_take_optionsFirst]
  · intro hflags
    have hfit : Taken.Admits {} items := by
      refine ⟨?_, ?_⟩
      · simp [Taken.after, h, Taken.pathNames]
      · simpa [Taken.after] using hflags
    have hfinish : (Taken.after {} items).finish =
        .run (argumentsOf fxmlFile controllerFile items) := by
      simp [Taken.after, Taken.finish, h, argumentsOf]
    rw [run, parseArguments_commandLine, Taken.foldlM_take_eq_after hfit]
    simp only [hfinish]

/-- Options before, between and behind the paths. -/
def scatteredItems : List Item :=
  [.attached .binding rfl "@A" (by decide), .path "v.fxml" (by decide), .verbose,
    .path "C.java" (by decide), .separate .binding rfl "@B" (by decide), .verbose]

/-- The last annotation counts, wherever it stands. -/
theorem scattered_options_are_collected :
    pathsOf scatteredItems = ["v.fxml", "C.java"] ∧
      ¬ (.verbose ∈ scatteredItems ∧ .quiet ∈ scatteredItems) ∧
      run unwiredFolder ["--annotation=@A", "v.fxml", "--verbose", "C.java", "--annotation", "@B",
          "--verbose"] =
        runCheck unwiredFolder
          ⟨"v.fxml", "C.java", { Settings.standard with binding := "@B" }, true, false⟩ := by
  have hflags : ¬ (.verbose ∈ scatteredItems ∧ .quiet ∈ scatteredItems) := by decide
  have hpaths : pathsOf scatteredItems = ["v.fxml", "C.java"] := rfl
  obtain ⟨-, hrun⟩ := options_may_stand_anywhere unwiredFolder hpaths
  exact ⟨hpaths, hflags, hrun hflags⟩

end FxmlWiring.CommandLine
