import FxmlWiring.Proofs.Markup.Balance
import FxmlWiring.Proofs.Markup.PrologFaultPlace

/-! # Where the limit is found

A token that makes the account intolerable is in the text that is read; inside a replacement text,
the reference to the entity takes its place. So the limit is found at a place in the document
(`Source.limit?_suffix`). -/

namespace FxmlWiring.Markup

open Text

/-- A limit is found at a place in the text. -/
def Interruption.IsIn (text : List Char) : Interruption → Prop
  | fault => True
  | limit place => place <:+ text

theorem Interruption.IsIn.mono {s t : List Char} (h : s <:+ t) {i : Interruption} (hi : i.IsIn s) :
    i.IsIn t := by
  cases i with
  | fault => trivial
  | limit place => exact List.IsSuffix.trans hi h

/-- An interruption that is moved is where it is moved to. -/
theorem Interruption.movedTo_isIn {text here : List Char} (h : here <:+ text) (i : Interruption) :
    (i.movedTo here).IsIn text := by
  cases i with
  | fault => trivial
  | limit place => exact h

/-- The account of a text is kept, or reaches the limit in the text. -/
abbrev MeteredIn {α : Type} (text : List Char) (P : α → Prop) (r : Except Interruption α) : Prop :=
  Gives (Interruption.IsIn text) P r

variable {d : Declarations} {a : Alphabet} {ending : Ending} {text : List Char} {x : Account}

/-- A token in the text reaches the limit in the text. -/
theorem charge_in {here : List Char} (h : here <:+ text) (x : Account) (place : Option Place)
    (bytes : Nat) : MeteredIn text (fun _ => True) (x.charge place bytes here) := by
  unfold Account.charge
  split
  · trivial
  · split
    · trivial
    · exact h

/-- What goes on after a token in the text. -/
theorem charge_bind_in {α : Type} {P : α → Prop} {here : List Char} (h : here <:+ text)
    {place : Option Place} {bytes : Nat} {f : Account → Except Interruption α}
    (hf : ∀ y, MeteredIn text P (f y)) : MeteredIn text P (x.charge place bytes here >>= f) :=
  (charge_in h x place bytes).bind fun y _ => hf y

/-! ## Attributes -/

theorem meterValue_in {tagAt : List Char} (h : tagAt <:+ text) (place : Option Place)
    (closed : Entities) (s : List Char) (x : Account) :
    MeteredIn text (fun _ => True) (meterValue d a place tagAt closed s x) := by
  fun_induction meterValue d a place tagAt closed s x with
  | case1 | case2 | case4 | case6 => trivial
  | case3 a place closed x s r rest _ ih ihp ihe =>
    refine charge_bind_in h fun y => ?_
    cases r with
    | character code =>
      dsimp only
      split
      · exact ih y
      · trivial
    | entity name =>
      dsimp only
      split
      · exact ihp y
      · split
        · rename_i inner hl
          exact (ihe y name inner hl).bind fun z _ => ih z
        · trivial
        · split
          · trivial
          · exact ih y
  | case5 _ _ _ _ _ _ _ _ _ _ _ ih | case7 _ _ _ _ _ _ _ _ _ _ _ ih =>
    exact charge_bind_in h ih

theorem meterAttributes_in {tagAt : List Char} (h : tagAt <:+ text) (place : Option Place)
    (closed : Entities) (seen : List (List Char)) (ws : List WrittenAttribute) (x : Account) :
    MeteredIn text (fun _ => True) (meterAttributes d a place tagAt closed seen ws x) := by
  induction ws generalizing seen x with
  | nil => trivial
  | cons w ws ih =>
    have hw : MeteredIn text (fun _ => True) (meterAttribute d a place tagAt closed w x) := by
      unfold meterAttribute
      split
      · trivial
      · exact meterValue_in h place closed w.value x
    rw [meterAttributes]
    split
    · trivial
    · exact hw.bind fun y _ => ih _ y

/-! ## Content -/

theorem skipPairedBreak_cons_suffix (c : Char) (s : List Char) :
    skipPairedBreak a c s <:+ c :: s :=
  (skipPairedBreak_suffix a c s).trans (List.suffix_cons c s)

theorem meterCdata_in {here : List Char} (h : here <:+ text) (place : Place) (x : Account) :
    MeteredIn text (fun _ => True) (meterCdata a ending place here x) := by
  fun_induction meterCdata a ending place here x with
  | case1 | case3 | case4 => trivial
  | case2 x s => exact charge_in h x _ _
  | case5 x c s _ _ _ rest ih =>
    have hrest : rest <:+ c :: s := by
      dsimp only [rest]
      split
      · exact skipPairedBreak_cons_suffix c s
      · exact (List.dropWhile_suffix _).trans (List.suffix_cons c s)
    exact charge_bind_in h fun y => ih y (hrest.trans h)

theorem meterSection_in (text : List Char) (place : Place) (x : Account) :
    MeteredIn text (fun _ => True) (meterSection a ending place text x) := by
  unfold meterSection
  split
  · rename_i s
    split
    · trivial
    · rename_i rest h
      have hrest : rest <:+ '<' :: '!' :: '[' :: s :=
        ((scanCdataStart_in ending s).of_ok h).trans ⟨['<', '!', '['], rfl⟩
      exact charge_bind_in List.suffix_rfl fun y => meterCdata_in hrest place y
  · trivial

theorem meterMarkup_in (text rest : List Char) (place : Place) (x : Account) :
    MeteredIn text (fun _ => True) (meterMarkup a ending place text rest x) := by
  unfold meterMarkup
  split
  · exact meterSection_in _ _ _
  · exact charge_in List.suffix_rfl x _ _

theorem meterEnd_in (text : List Char) (place : Place) (x : Account) :
    MeteredIn text (fun _ => True) (meterEnd a ending place text x) := by
  unfold meterEnd
  split
  · trivial
  · exact charge_in List.suffix_rfl x _ _

theorem skipData_suffix {s r : List Char} (h : skipData a ending s = some r) : r <:+ s := by
  fun_induction skipData a ending s with
  | case1 | case3 | case4 =>
    obtain rfl := Option.some.inj h
    exact List.suffix_rfl
  | case2 => cases h
  | case5 c s _ _ _ ih => exact (ih h).trans (List.suffix_cons c s)

theorem dataEnd?_suffix {s r : List Char} (h : dataEnd? a ending s = some r) : r <:+ s := by
  unfold dataEnd? at h
  split at h
  · cases h
  · cases h
  · rename_i c s _
    split at h
    · obtain rfl := Option.some.inj h
      exact skipPairedBreak_cons_suffix c s
    · exact (skipData_suffix h).trans (List.suffix_cons c s)

/-- The account of content is kept, with what follows the content in the text. -/
abbrev ContentMeteredIn (text : List Char) (r : Except Interruption (Account × List Char)) : Prop :=
  MeteredIn text (·.2 <:+ text) r

theorem ContentMeteredIn.mono {s t : List Char} {r : Except Interruption (Account × List Char)}
    (h : s <:+ t) (hr : ContentMeteredIn s r) : ContentMeteredIn t r :=
  Gives.mono (fun _ => Interruption.IsIn.mono h) (fun _ hrest => List.IsSuffix.trans hrest h) hr

/-- **The limit on content is found in its text**, and so is what follows the content. -/
theorem meterContent_in (place : Place) (closed : Entities) (stack : List (List Char))
    (text : List Char) (x : Account) :
    ContentMeteredIn text (meterContent d a ending place closed stack text x) := by
  -- What is wrong, or was the last token, goes no further.
  have hgo : ∀ {a : Alphabet} {ending : Ending} {text rest : List Char} {t : ContentToken}
      {r : Except Interruption (Account × List Char)},
      scanContent a ending text = .ok (t, rest) → ContentMeteredIn rest r →
        ContentMeteredIn text r :=
    fun h hr => ContentMeteredIn.mono ((scanContent_in _).of_ok h).2 hr
  fun_induction meterContent d a ending place closed stack text x with
  | case1 =>
    refine (meterEnd_in _ _ _).bind fun y _ => ?_
    split
    · exact List.nil_suffix
    · trivial
  | case2 => exact (meterSection_in _ _ _).bind fun _ _ => trivial
  | case3 a ending place closed stack text x _ rest h _ ih =>
    exact (meterMarkup_in _ _ _ _).bind fun y _ => hgo h (ih y)
  | case4 => trivial
  | case5 a ending place closed stack text x _ _ _ _ rest h ih =>
    exact charge_bind_in List.suffix_rfl fun y => (ih y).mono (dataEnd?_suffix h)
  | case6 => exact charge_bind_in List.suffix_rfl fun _ => trivial
  | case7 a ending place closed stack text x _ r rest h ih ihp ihe =>
    refine charge_bind_in List.suffix_rfl fun y => ?_
    cases r with
    | character code =>
      dsimp only
      split
      · exact hgo h (ih y)
      · trivial
    | entity name =>
      dsimp only
      split
      · exact hgo h (ihp y)
      · split
        · -- The limit in the replacement text is one at the reference.
          rename_i inner hl
          have hinner : MeteredIn text (fun _ => True)
              ((meterContent d .internal .complete .entity (closed.without name) [] inner
                y).mapError (·.movedTo text)) := by
            cases meterContent d .internal .complete .entity (closed.without name) [] inner y with
            | error i => exact i.movedTo_isIn List.suffix_rfl
            | ok z => trivial
          exact hinner.bind fun z _ => hgo h (ih z.1)
        · exact hgo h (ih y)
        · trivial
        · split
          · trivial
          · exact hgo h (ih y)
  | case8 a ending place closed stack text x _ tag rest h ih ihs =>
    refine charge_bind_in List.suffix_rfl fun y => ?_
    refine (meterAttributes_in List.suffix_rfl _ _ _ _ _).bind fun z _ => ?_
    split
    · split
      · exact ((scanContent_in _).of_ok h).2
      · exact hgo h (ih z)
    · exact hgo h (ihs z)
  | case9 a ending place closed stack text x _ name nameAt rest h ih =>
    refine charge_bind_in List.suffix_rfl fun y => ?_
    cases stack with
    | nil => trivial
    | cons element stack =>
      dsimp only
      split
      · split
        · exact ((scanContent_in _).of_ok h).2
        · exact hgo h (ih y stack)
      · trivial

/-! ## Around the root element -/

namespace Prolog

theorem Scanned.tokenEnd_in {scanned : Scanned} (h : scan a ending text = .ok scanned) :
    scanned.tokenEnd ending <:+ text :=
  (scanned.tokenEnd_suffix ending).trans ((scan_in text).of_ok h).rest

theorem meterDefault_in (stage : Stage) (t : Token) (text : List Char) (x : Account) :
    MeteredIn text (fun _ => True) (meterDefault a d stage t text x) := by
  unfold meterDefault
  split
  · split
    · exact meterValue_in List.suffix_rfl _ _ _ _
    · trivial
  · split
    · exact meterValue_in List.suffix_rfl _ _ _ _
    · trivial
  · trivial

/-- **The limit before the root element is found in the text**, and so is the root element. -/
theorem meterProlog_in (stage : Stage) (d : Declarations) (text : List Char) (x : Account) :
    MeteredIn text (·.2.2 <:+ text) (meterProlog a ending stage d text x) := by
  fun_induction meterProlog a ending stage d text x with
  | case1 | case2 => trivial
  | case3 => exact List.suffix_rfl
  | case4 ending stage d text x _ scanned hs _ ih =>
    simp only [dite_eq_ite] at ih
    refine charge_bind_in List.suffix_rfl fun y => ?_
    refine (meterDefault_in stage scanned.token text y).bind fun z _ => ?_
    split
    · trivial
    · rename_i stage' d' _
      have hend := Scanned.tokenEnd_in hs
      exact (ih z stage' d').mono (fun _ => Interruption.IsIn.mono hend)
        fun _ hr => List.IsSuffix.trans hr hend

/-- **The limit after the root element is found in the text.** -/
theorem meterEpilog_in (text : List Char) (x : Account) :
    MeteredIn text (fun _ => True) (meterEpilog a ending text x) := by
  fun_induction meterEpilog a ending text x with
  | case1 | case3 | case4 => trivial
  | case2 => exact charge_in List.suffix_rfl _ _ _
  | case5 text x _ _ scanned hs _ ih =>
    have hend := Scanned.tokenEnd_in hs
    refine charge_bind_in List.suffix_rfl fun y => ?_
    have hy := (ih y).mono (fun _ => Interruption.IsIn.mono hend) fun _ h => h
    split
    · exact hy
    · exact hy
    · exact hy
    · trivial

end Prolog

/-- **The limit is found in the body of a source.** -/
theorem Source.limit?_suffix {s : Source} {standalone : Bool}
    (h : s.limit? standalone = some text) : text <:+ s.body := by
  have hm : MeteredIn s.body (fun _ => True) (s.meter standalone) := by
    refine (Prolog.meterProlog_in _ _ _ _).bind fun (d, x, root) hroot => ?_
    refine ((meterContent_in _ _ _ _ _).mono hroot).bind fun (y, rest) hrest => ?_
    exact (Prolog.meterEpilog_in rest y).mono (fun _ => Interruption.IsIn.mono hrest) fun _ h => h
  rw [limit?] at h
  split at h
  · rename_i place hp
    obtain rfl := Option.some.inj h
    exact hm.of_error hp
  · cases h
  · cases h

end FxmlWiring.Markup
