import FxmlWiring.Proofs.Text.Position
import FxmlWiring.Report
import Mathlib.Data.List.Basic

/-! # Reading a report back

The items of a report are **read back** with the number in its header: so many lines stand in its
frame. `read?` accepts exactly the reports of items without line feeds, and gives these items
(`read?_eq_some_iff`). Items with line feeds may share a report with others, if these are as many
and have the same lines (`render_eq_render_iff`). -/

namespace FxmlWiring.Report

open Text

/-! ## Lines between line feeds -/

/-- The lines of a text, between its line feeds. A text that ends in a line feed has an empty last
line. -/
def feedLines (text : String) : List String :=
  (text.toList.splitOn '\n').map String.ofList

/-- A line feed separates the lines before it from those behind it. -/
theorem feedLines_line_append (s t : String) :
    feedLines (line s ++ t) = feedLines s ++ feedLines t := by
  have hlist : (line s ++ t).toList = s.toList ++ '\n' :: t.toList := by simp [line]
  rw [feedLines, hlist, List.splitOn_append_cons_self, List.map_append]
  rfl

/-- The lines of texts that are ended by line feeds, one after the other. -/
theorem feedLines_join (ls : List String) :
    feedLines (String.join (ls.map line)) = ls.flatMap feedLines ++ [""] := by
  induction ls with
  | nil => rfl
  | cons l ls ih =>
    rw [List.map_cons, String.join_cons, feedLines_line_append, ih, List.flatMap_cons,
      List.append_assoc]

/-- A text without line feeds is one line. -/
theorem feedLines_eq_singleton {s : String} (h : '\n' ∉ s.toList) : feedLines s = [s] := by
  rw [feedLines, List.splitOn_eq_singleton h, List.map_singleton, String.ofList_toList]

/-- Texts without line feeds are their own lines. -/
theorem flatMap_feedLines {ls : List String} (h : ∀ l ∈ ls, '\n' ∉ l.toList) :
    ls.flatMap feedLines = ls := by
  rw [List.flatMap_congr fun l hl => feedLines_eq_singleton (h l hl), List.flatMap_singleton']

/-- **Texts have one line each, and one more for each of their line feeds.** -/
theorem length_flatMap_feedLines (ls : List String) :
    (ls.flatMap feedLines).length = ls.length + (ls.flatMap String.toList).count '\n' := by
  induction ls with
  | nil => rfl
  | cons l ls ih =>
    have hl : (feedLines l).length = l.toList.count '\n' + 1 := by
      rw [feedLines, List.length_map, length_splitOn]
    rw [List.flatMap_cons, List.length_append, hl, ih, List.flatMap_cons, List.count_append,
      List.length_cons]
    omega

/-- No line has a line feed in it. -/
theorem not_mem_of_mem_feedLines {s l : String} (h : l ∈ feedLines s) : '\n' ∉ l.toList := by
  obtain ⟨part, hpart, rfl⟩ := List.mem_map.1 h
  rw [String.toList_ofList]
  exact not_mem_of_mem_splitOn hpart

/-- **A text is made of its lines.** -/
theorem feedLines_injective : Function.Injective feedLines := by
  intro s t h
  have hsplit : s.toList.splitOn '\n' = t.toList.splitOn '\n' :=
    List.map_injective_iff.2 (fun _ _ => String.ofList_injective) h
  have hjoined := congrArg (['\n'].intercalate ·) hsplit
  simp only [List.intercalate_splitOn] at hjoined
  exact String.toList_inj.1 hjoined

/-! ## Frames -/

/-- The number at the front of a header: the value of its decimal digits. -/
def count (head : String) : Nat :=
  Nat.ofDigitChars 10 (head.toList.takeWhile Char.isDigit) 0

/-- A header is its number in decimal digits and some words. -/
theorem toList_header (n : Nat) :
    (header n).toList = Nat.toDigits 10 n ++ " MISSING ITEMS: ".toList := by
  rw [header, String.toList_append, Nat.toString_eq_repr, Nat.toList_repr]

/-- A header says its number. -/
@[simp] theorem count_header (n : Nat) : count (header n) = n := by
  have hdigits : ∀ c ∈ Nat.toDigits 10 n, c.isDigit = true := fun c hc =>
    Nat.isDigit_of_mem_toDigits (by decide) (by decide) hc
  have hstop : " MISSING ITEMS: ".toList.takeWhile Char.isDigit = [] := by decide
  rw [count, toList_header, List.takeWhile_append_of_pos hdigits, hstop, List.append_nil,
    Nat.ofDigitChars_ten_toDigits]

/-- No line feed is in a header. -/
theorem not_mem_header (n : Nat) : '\n' ∉ (header n).toList := by
  rw [toList_header, List.mem_append, not_or]
  constructor
  · intro h
    exact absurd (Nat.isDigit_of_mem_toDigits (by decide) (by decide) h) (by decide)
  · decide

/-- The text has the frame of a report: a blank line, the header, a blank line, the lines of the
body, and a closing blank line, each ended by a line feed. -/
def Frames (text head : String) (body : List String) : Prop :=
  feedLines text = "" :: head :: "" :: (body ++ ["", ""])

/-- A text is framed in one way only. -/
theorem Frames.unique {text head head' : String} {body body' : List String}
    (h : Frames text head body) (h' : Frames text head' body') : head = head' ∧ body = body' := by
  simpa using h.symm.trans h'

/-- **A report frames the lines of its items.** -/
theorem frames_render (items : List String) :
    Frames (render items) (header items.length) (items.flatMap feedLines) := by
  have hblank : feedLines "" = [""] := rfl
  rw [Frames, render, feedLines_join, lines]
  simp [feedLines_eq_singleton (not_mem_header _), hblank]

/-! ## Reading -/

/-- Reads a report back: as many lines as the header says, if nothing but the closing blank line
follows them. -/
def read? (text : String) : Option (List String) :=
  match feedLines text with
  | "" :: head :: "" :: rest =>
    if head = header (count head) ∧ rest.drop (count head) = ["", ""] then
      some (rest.take (count head))
    else none
  | _ => none

/-- What is read is the body of a frame whose header says its length. -/
theorem read?_eq_some_iff_frames {text : String} {items : List String} :
    read? text = some items ↔ Frames text (header items.length) items := by
  constructor
  · intro h
    unfold read? at h
    split at h
    · rename_i head rest hlines
      split at h
      · rename_i hframe
        obtain ⟨hhead, hdrop⟩ := hframe
        obtain rfl := Option.some.inj h
        have hrest : rest.take (count head) ++ ["", ""] = rest := by
          rw [← hdrop, List.take_append_drop]
        -- Behind that many lines there are two more, so there are as many.
        have hlength : (rest.take (count head)).length = count head := by
          have := congrArg List.length hdrop
          rw [List.length_drop, List.length_cons] at this
          rw [List.length_take]
          omega
        rw [Frames, hlength, hrest, ← hhead, hlines]
      · cases h
    · cases h
  · intro h
    rw [read?, h]
    simp

/-- **Exactly the reports of items without line feeds are read back**, as these items. -/
theorem read?_eq_some_iff {text : String} {items : List String} :
    read? text = some items ↔ (∀ item ∈ items, '\n' ∉ item.toList) ∧ render items = text := by
  rw [read?_eq_some_iff_frames]
  constructor
  · intro h
    have hitems : ∀ item ∈ items, '\n' ∉ item.toList := by
      intro item hi
      have hmem : item ∈ feedLines text := by
        rw [h]
        simp [hi]
      exact not_mem_of_mem_feedLines hmem
    refine ⟨hitems, feedLines_injective ?_⟩
    rw [frames_render, flatMap_feedLines hitems, h]
  · rintro ⟨hitems, rfl⟩
    have h := frames_render items
    rwa [flatMap_feedLines hitems] at h

/-- A text that does not start with a blank line is no report. -/
theorem read?_eq_none {text : String} (h : text.toList.head? ≠ some '\n') : read? text = none := by
  rw [Option.eq_none_iff_forall_ne_some]
  intro items hread
  obtain ⟨-, rfl⟩ := read?_eq_some_iff.1 hread
  refine h ?_
  simp [render, lines, line, String.join_cons]

/-- **Reports are the same exactly if the items are as many and have the same lines.** -/
theorem render_eq_render_iff {items others : List String} :
    render items = render others ↔
      items.length = others.length ∧ items.flatMap feedLines = others.flatMap feedLines := by
  constructor
  · intro h
    have hframes := frames_render items
    rw [h] at hframes
    obtain ⟨hhead, hbody⟩ := hframes.unique (frames_render others)
    have hcount := congrArg count hhead
    rw [count_header, count_header] at hcount
    exact ⟨hcount, hbody⟩
  · rintro ⟨hlength, hbody⟩
    refine feedLines_injective ?_
    rw [frames_render, frames_render, hlength, hbody]

/-- Two items with line feeds, cut in one way and in another. -/
example : render ["a\nb", "c"] = render ["a", "b\nc"] := by decide +kernel

/-- **No other items have the report of items without line feeds.** -/
theorem eq_of_render_eq {items others : List String}
    (hitems : ∀ item ∈ items, '\n' ∉ item.toList) (h : render items = render others) :
    items = others := by
  obtain ⟨hlength, hlines⟩ := render_eq_render_iff.1 h
  rw [flatMap_feedLines hitems] at hlines
  -- The others have no more lines than items, and so no line feeds.
  have hcount : (others.flatMap String.toList).count '\n' = 0 := by
    have := length_flatMap_feedLines others
    rw [← hlines] at this
    omega
  have hothers : ∀ other ∈ others, '\n' ∉ other.toList := fun other ho hn =>
    List.count_eq_zero.1 hcount (List.mem_flatMap.2 ⟨other, ho, hn⟩)
  rw [hlines, flatMap_feedLines hothers]

end FxmlWiring.Report
