import FxmlWiring.Markup.Scan

/-! # Comments, instructions and `CDATA` sections

The parts of a document that stand between a fixed opening and the first fixed closing after it.
Comments and instructions may stand outside the root element as well. -/

namespace FxmlWiring.Markup

/-! ## Comments -/

/-- Scans the text of a comment and `-->`. Two hyphens may stand only there. -/
def scanCommentText : List Char → Except Halt (List Char)
  | [] => .error .endOfText
  | '-' :: '-' :: '>' :: s => .ok s
  | '-' :: '-' :: [] => .error .endOfMarkup
  | '-' :: '-' :: s => .error (.stray s)
  | c :: s => if isLegal c then scanCommentText s else .error (.stray (c :: s))

/-- Scans what follows `<!-`: a second hyphen, then the comment. -/
def scanComment : List Char → Except Halt (List Char)
  | [] => .error .endOfMarkup
  | '-' :: s => scanCommentText s
  | s => .error (.stray s)

/-! ## Instructions -/

/-- Scans the text of an instruction and `?>`. -/
def scanInstructionText : List Char → Except Halt (List Char)
  | [] => .error .endOfText
  | '?' :: '>' :: s => .ok s
  | c :: s => if isLegal c then scanInstructionText s else .error (.stray (c :: s))

/-- Whether a target is the name of the XML declaration in any case. -/
def isXmlTarget (target : List Char) : Bool :=
  target.map Char.toLower = ['x', 'm', 'l']

/-- Scans what follows `<?`: the target, then the text. The answer is the target. The name of the
XML declaration is a target in lower case only. -/
def scanInstruction (a : Alphabet) (s : List Char) : Scan (List Char) :=
  match scanName a s with
  | .error h => .error h
  | .ok (_, []) => .error .endOfText
  | .ok (target, c :: rest) =>
    if (isSpace c ∨ c = '?') ∧ isXmlTarget target ∧ target ≠ ['x', 'm', 'l'] then
      .error (.stray (c :: rest))
    else if isSpace c then (scanInstructionText rest).map (target, ·)
    else if c = '?' then
      match rest with
      | '>' :: s => .ok (target, s)
      | [] => .error .endOfMarkup
      | s => .error (.stray s)
    else .error (.stray (c :: rest))

/-! ## `CDATA` sections -/

/-- Scans what follows `<![` in content, up to the second bracket. Six code units have to be
left. -/
def scanCdataStart (a : Alphabet) (ending : Ending) (s : List Char) : Except Halt (List Char) :=
  if s.foldr (a.units · + ·) ending.units < 6 then .error .tooShort
  else expect ['C', 'D', 'A', 'T', 'A', '['] s
where
  /-- Takes the word off the text, or halts at the first other character. -/
  expect : List Char → List Char → Except Halt (List Char)
    | [], s => .ok s
    | w :: ws, c :: s => if w = c then expect ws s else .error (.stray (c :: s))
    | _ :: _, [] => .error (.stray [])

/-- Whether a text is too short to tell if a `CDATA` section closes or a line break goes on. -/
def endsUndecided (s : List Char) : Bool :=
  s = ['\r'] || s = [']'] || s = [']', ']']

/-- Reads the text of a `CDATA` section and `]]>`. -/
def readCdata (ending : Ending) : List Char → Except Fault (List Char)
  | [] => .error ⟨if ending.isTruncated then .partialCharacter else .unclosedCdata, []⟩
  | ']' :: ']' :: '>' :: s => .ok s
  | c :: s =>
    if !ending.isTruncated ∧ endsUndecided (c :: s) then .error ⟨.unclosedCdata, c :: s⟩
    else if isLegal c then readCdata ending s
    else .error ⟨.invalidToken, c :: s⟩

/-! ## Progress -/

theorem length_scanCommentText_lt {s r : List Char} (h : scanCommentText s = .ok r) :
    r.length < s.length := by
  fun_induction scanCommentText s <;> simp_all <;> omega

theorem length_scanComment_lt {s r : List Char} (h : scanComment s = .ok r) :
    r.length < s.length := by
  unfold scanComment at h
  split at h
  · simp at h
  · have := length_scanCommentText_lt h
    simp only [List.length_cons]
    omega
  · simp at h

theorem length_scanInstructionText_lt {s r : List Char} (h : scanInstructionText s = .ok r) :
    r.length < s.length := by
  fun_induction scanInstructionText s <;> grind

theorem length_scanInstruction_lt {a : Alphabet} {s t r : List Char}
    (h : scanInstruction a s = .ok (t, r)) : r.length < s.length := by
  unfold scanInstruction at h
  split at h
  · simp at h
  · simp at h
  · rename_i hn
    have hn := length_scanName_lt hn
    simp only [List.length_cons] at hn
    split at h
    · simp at h
    · split at h
      · cases ht : scanInstructionText _ with
        | error e =>
          rw [ht] at h
          simp [Except.map] at h
        | ok u =>
          have := length_scanInstructionText_lt ht
          rw [ht] at h
          simp only [Except.map, Except.ok.injEq, Prod.mk.injEq] at h
          obtain ⟨-, rfl⟩ := h
          omega
      · split at h
        · split at h
          · simp only [Except.ok.injEq, Prod.mk.injEq] at h
            obtain ⟨-, rfl⟩ := h
            simp only [List.length_cons] at hn
            omega
          · simp at h
          · simp at h
        · simp at h

theorem length_expect_le {w s r : List Char} (h : scanCdataStart.expect w s = .ok r) :
    r.length ≤ s.length := by
  fun_induction scanCdataStart.expect w s with
  | case1 => simp_all
  | case2 _ _ _ ih => exact Nat.le_succ_of_le (ih h)
  | case3 => simp at h
  | case4 => simp at h

theorem length_scanCdataStart_le {a : Alphabet} {ending : Ending} {s r : List Char}
    (h : scanCdataStart a ending s = .ok r) : r.length ≤ s.length := by
  unfold scanCdataStart at h
  split at h
  · simp at h
  · exact length_expect_le h

theorem length_readCdata_lt {ending : Ending} {s r : List Char} (h : readCdata ending s = .ok r) :
    r.length < s.length := by
  fun_induction readCdata ending s <;> simp_all <;> omega

end FxmlWiring.Markup
