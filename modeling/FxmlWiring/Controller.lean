import FxmlWiring.Text.Basic
import FxmlWiring.Text.LineBreak
import FxmlWiring.Text.Utf8

/-! # Controller text

A controller file holds UTF-8 text; every line break of it is read as a line feed, and a byte order
mark is a character like any other. Comments are taken out of the text before rules are looked for
in it.

A **block comment** runs from `/*` to the first `*/` after it; it takes the spaces and tabs on both
sides with it, and one line break if one follows. A **line comment** runs from `//` to the end of
the line and leaves the line break. `strip` removes comments from left to right; what is left is not
looked at again. The text is searched for comment marks only, so marks inside a string literal
count. -/

namespace FxmlWiring.Controller.Comment

open Text

/-- Ends a line comment: line feed, carriage return, next line, line and paragraph separator. -/
def endsLine (c : Char) : Bool :=
  c = '\n' || c = '\r' || c = '\u0085' || c = '\u2028' || c = '\u2029'

/-- A line break after a block comment: what ends a line, or a vertical tab or form feed. -/
def isBreak (c : Char) : Bool :=
  endsLine c || c = '\x0b' || c = '\x0c'

/-- The text less one leading line break, a carriage return with its line feed counting as one. -/
def dropBreak : List Char → List Char
  | '\r' :: '\n' :: s => s
  | c :: s => if isBreak c then s else c :: s
  | [] => []

/-- What follows the first `*/`. -/
def afterClose : List Char → Option (List Char)
  | '*' :: '/' :: s => some s
  | _ :: s => afterClose s
  | [] => none

/-- What follows a block comment at the front of the text. -/
def afterBlock (s : List Char) : Option (List Char) :=
  match s.dropWhile isIndent with
  | '/' :: '*' :: body => (afterClose body).map fun r => dropBreak (r.dropWhile isIndent)
  | _ => none

/-- What follows a line comment at the front of the text. -/
def afterLine : List Char → Option (List Char)
  | '/' :: '/' :: s => some (s.dropWhile (!endsLine ·))
  | _ => none

/-- What follows a comment at the front of the text, if one stands there. -/
def afterComment (s : List Char) : Option (List Char) :=
  (afterBlock s).or (afterLine s)

theorem length_dropBreak_le (s : List Char) : (dropBreak s).length ≤ s.length := by
  fun_cases dropBreak s <;> grind

theorem length_afterClose_lt {s r : List Char} (h : afterClose s = some r) :
    r.length < s.length := by
  fun_induction afterClose s with
  | case1 s => obtain rfl := Option.some.inj h; simp only [List.length_cons]; omega
  | case2 c s _ ih => exact Nat.lt_succ_of_lt (ih h)
  | case3 => simp at h

theorem length_afterBlock_lt {s r : List Char} (h : afterBlock s = some r) :
    r.length < s.length := by
  unfold afterBlock at h
  split at h
  · rename_i body hs
    obtain ⟨t, ht, rfl⟩ := Option.map_eq_some_iff.1 h
    have hindent := length_dropWhile_le isIndent s
    have hbody := length_afterClose_lt ht
    have hbreak := length_dropBreak_le (t.dropWhile isIndent)
    have hrest := length_dropWhile_le isIndent t
    simp only [hs, List.length_cons] at hindent
    omega
  · simp at h

theorem length_afterLine_lt {s r : List Char} (h : afterLine s = some r) :
    r.length < s.length := by
  unfold afterLine at h
  split at h
  · obtain rfl := Option.some.inj h
    rename_i s
    have := length_dropWhile_le (!endsLine ·) s
    simp only [List.length_cons]
    omega
  · simp at h

/-- A comment is never empty. -/
theorem length_afterComment_lt {s r : List Char} (h : afterComment s = some r) :
    r.length < s.length := by
  rcases Option.or_eq_some_iff.1 h with h | ⟨_, h⟩
  · exact length_afterBlock_lt h
  · exact length_afterLine_lt h

/-- The text without its comments: where a comment starts it is skipped, and any other character is
kept. -/
def strip : List Char → List Char
  | [] => []
  | c :: s =>
    match _h : afterComment (c :: s) with
    | some r => strip r
    | none => c :: strip s
termination_by s => s.length
decreasing_by
  · exact length_afterComment_lt (by assumption)
  · simp

@[simp] theorem strip_nil : strip [] = [] := by simp [strip]

/-- A comment leaves nothing behind. -/
theorem strip_of_afterComment {s r : List Char} (h : afterComment s = some r) :
    strip s = strip r := by
  cases s with
  | nil => simp [afterComment, afterBlock, afterLine] at h
  | cons c s =>
    rw [strip]
    split <;> simp_all

/-- A character that starts no comment is kept. -/
theorem strip_cons {c : Char} {s : List Char} (h : afterComment (c :: s) = none) :
    strip (c :: s) = c :: strip s := by
  rw [strip]
  split <;> simp_all

end FxmlWiring.Controller.Comment

namespace FxmlWiring.Controller

open Text

/-- The text of a controller file. -/
def readSource (bytes : List UInt8) : Except Utf8.Fault String :=
  (Utf8.decode bytes).map fun cs => .ofList (unifyBreaks cs)

/-- Controller text without its comments. -/
def stripComments (source : String) : String :=
  .ofList (Comment.strip source.toList)

end FxmlWiring.Controller
