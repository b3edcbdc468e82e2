import FxmlWiring.Proofs.Markup.Balance
import FxmlWiring.Proofs.Markup.ContentRun

/-! # What references amount to

A reference to an entity makes the bytes of its replacement text each time that it is read, and
those that the references in there make. So references in a row come to an account that can be told
beforehand, unless the limit is reached on the way (`meterContent_references`); and whether a
document of such references reaches the limit can be told from the account that it comes to
(`Source.limit?_eq_none_of_comesTo`, `Source.exists_limit?_of_comesTo`). -/

namespace FxmlWiring.Markup

open Text

/-! ## Coming to an account -/

namespace Account

/-- All bytes grow with those that are added. -/
theorem output_add (x : Account) (place : Place) (bytes : Nat) :
    (x.add place bytes).output = x.output + bytes := by
  cases place <;> simp only [add, output] <;> omega

/-- Bytes may be added in two steps. -/
theorem add_add (x : Account) (place : Place) (m n : Nat) :
    (x.add place m).add place n = x.add place (m + n) := by
  cases place <;> simp only [add, Nat.add_assoc]

/-- It does not matter what is added first. -/
theorem add_comm (x : Account) (place place' : Place) (m n : Nat) :
    (x.add place m).add place' n = (x.add place' n).add place m := by
  cases place <;> cases place' <;> simp only [add, Nat.add_right_comm]

end Account

/-- An interruption by the limit, by an account with no more bytes than this one. -/
def Interruption.IsLimitBefore (y : Account) (i : Interruption) : Prop :=
  8388608 ≤ y.output ∧ ∃ text, i = .limit text

/-- Keeping an account reaches the limit before it has more bytes than `y`, or gives this. -/
abbrev ComesTo {α : Type} (y : Account) (P : α → Prop) (r : Except Interruption α) : Prop :=
  Gives (Interruption.IsLimitBefore y) P r

theorem ComesTo.mono {α : Type} {y z : Account} {P : α → Prop} {r : Except Interruption α}
    (h : ComesTo y P r) (hle : y.output ≤ z.output) : ComesTo z P r :=
  Gives.mono (fun _ hi => ⟨hi.1.trans hle, hi.2⟩) (fun _ hv => hv) h

/-- An account that comes to less than the limit is kept to the end. -/
theorem ComesTo.exists_ok {α : Type} {y : Account} {P : α → Prop} {r : Except Interruption α}
    (h : ComesTo y P r) (hy : y.output < 8388608) : ∃ v, r = .ok v ∧ P v := by
  cases r with
  | error i => exact absurd h.1 (Nat.not_le.2 hy)
  | ok v => exact ⟨v, rfl, h⟩

variable {a : Alphabet} {d : Declarations} {x y z : Account} {place : Place}

/-- A token adds its bytes, and makes the account intolerable or goes on. -/
theorem charge_comesTo {α : Type} {P : α → Prop} {bytes : Nat} {text : List Char}
    {f : Account → Except Interruption α} (hle : (x.add place bytes).output ≤ z.output)
    (hf : (x.add place bytes).isTolerated = true → ComesTo z P (f (x.add place bytes))) :
    ComesTo z P (x.charge (some place) bytes text >>= f) := by
  rw [Account.charge]
  split
  · rename_i ht
    exact hf ht
  · rename_i ht
    rw [Account.isTolerated, Bool.or_eq_true, decide_eq_true_eq, not_or, Nat.not_lt] at ht
    exact ⟨ht.1.trans hle, text, rfl⟩

/-! ## References -/

/-- A reference to an entity. -/
def entityReference (name : List Char) : List Char :=
  '&' :: name ++ [';']

/-- References to an entity in a row. -/
def references (n : Nat) (name : List Char) : List Char :=
  (List.replicate n (entityReference name)).flatten

theorem references_succ (n : Nat) (name tail : List Char) :
    references (n + 1) name ++ tail = entityReference name ++ (references n name ++ tail) := by
  simp [references, List.replicate_succ]

/-- The bytes of what stands before the rest of a text. -/
theorem Alphabet.sizeTo_append (a : Alphabet) (s rest : List Char) :
    a.sizeTo (s ++ rest) rest = a.size s := by
  simp [sizeTo]

/-- Content goes on at a reference. -/
theorem endOfContent?_entityReference (name tail : List Char) :
    endOfContent? .complete (entityReference name ++ tail) = none := by
  simp [endOfContent?, Ending.isTruncated, entityReference]

/-- A reference is scanned as one. -/
theorem scanContent_entityReference (ha : a.Separates) (hu : ∀ c, 0 < a.units c) {name : List Char}
    (hn : a.IsName name) (tail : List Char) :
    scanContent a .complete (entityReference name ++ tail) =
      .ok (.reference (.entity name), tail) := by
  obtain ⟨t, ht, hl⟩ :=
    (Starts.reference (a := a) (.entity hn) tail).exists_scanContent ha hu .complete
  cases t with
  | reference r =>
    obtain rfl := Lexeme.reference.inj hl
    exact ht
  | _ => cases hl

/-- The replacement text of an entity makes so many bytes wherever it is read, and no elements. -/
structure Entities.Makes (d : Declarations) (closed : Entities) (name : List Char) (bytes : Nat) :
    Prop where
  notPredefined : Reference.predefined? name = none
  adds_nothing : (Reference.entity name).adds? d closed = some []
  exists_text : ∃ inner, closed.lookup name = some (.internal inner) ∧
    ∀ x : Account, ComesTo (x.add .entity bytes) (·.1 = x.add .entity bytes)
      (meterContent d .internal .complete .entity (closed.without name) [] inner x)

/-- The account after references in a row. -/
def Account.afterReferences (x : Account) (place : Place) (n written made : Nat) : Account :=
  (x.add place (n * written)).add .entity (n * made)

theorem Account.afterReferences_succ (x : Account) (place : Place) (n written made : Nat) :
    x.afterReferences place (n + 1) written made =
      ((x.add place written).add .entity made).afterReferences place n written made := by
  rw [afterReferences, afterReferences, add_comm _ .entity place, add_add, add_add, Nat.succ_mul,
    Nat.succ_mul, Nat.add_comm written, Nat.add_comm made]

variable {closed : Entities} {stack : List (List Char)} {name inner text rest tail : List Char}
  {made : Nat} {P : Account × List Char → Prop}

/-- The account of content from a reference on. -/
theorem meterContent_of_scan (he : endOfContent? .complete text = none)
    (h : scanContent a .complete text = .ok (.reference (.entity name), rest))
    (hp : Reference.predefined? name = none) (hl : closed.lookup name = some (.internal inner)) :
    meterContent d a .complete place closed stack text x = (do
      let x ← x.charge (some place) (a.sizeTo text rest) text
      let (x, _) ←
        (meterContent d .internal .complete .entity (closed.without name) [] inner
          x).mapError (·.movedTo text)
      meterContent d a .complete place closed stack rest x) := by
  rw [meterContent]
  simp only [he]
  split
  case h_4 hscan =>
    obtain ⟨ht, rfl⟩ := Prod.mk.inj (Except.ok.inj (h.symm.trans hscan))
    obtain rfl := ContentToken.reference.inj ht
    -- The name is not predefined, and it is looked up.
    simp only [hp]
    refine congrArg _ (funext fun x => ?_)
    rw [if_neg (by simp)]
    split <;> simp_all
  all_goals simp_all

/-- A limit in a replacement text is one at the reference. -/
theorem ComesTo.mapError {α : Type} {Q : α → Prop} {r : Except Interruption α}
    (h : ComesTo y Q r) (here : List Char) : ComesTo y Q (r.mapError (·.movedTo here)) := by
  cases r with
  | error i =>
    obtain ⟨hy, text, rfl⟩ := h
    exact ⟨hy, here, rfl⟩
  | ok v => exact h

/-- **A reference adds its own bytes and those that it makes.** -/
theorem meterContent_entityReference (ha : a.Separates) (hu : ∀ c, 0 < a.units c)
    (hn : a.IsName name) (hm : closed.Makes d name made)
    (hle : ((x.add place (a.size (entityReference name))).add .entity made).output ≤ z.output)
    (htail : ComesTo z P (meterContent d a .complete place closed stack tail
      ((x.add place (a.size (entityReference name))).add .entity made))) :
    ComesTo z P
      (meterContent d a .complete place closed stack (entityReference name ++ tail) x) := by
  obtain ⟨hp, -, inner, hl, hinner⟩ := hm
  rw [meterContent_of_scan (endOfContent?_entityReference name tail)
    (scanContent_entityReference ha hu hn tail) hp hl, a.sizeTo_append]
  rw [Account.output_add] at hle
  refine charge_comesTo (by omega) fun _ => ?_
  have hmade := ((hinner (x.add place (a.size (entityReference name)))).mono
    (z := z) (by rwa [Account.output_add])).mapError (entityReference name ++ tail)
  refine hmade.bind fun v hv => ?_
  obtain ⟨y, rest⟩ := v
  obtain rfl : y = _ := hv
  exact htail

/-- **References in a row come to what all of them add.** -/
theorem meterContent_references (ha : a.Separates) (hu : ∀ c, 0 < a.units c)
    (hn : a.IsName name) (hm : closed.Makes d name made) (n : Nat) {x : Account}
    (hle : (x.afterReferences place n (a.size (entityReference name)) made).output ≤ z.output)
    (htail : ComesTo z P (meterContent d a .complete place closed stack tail
      (x.afterReferences place n (a.size (entityReference name)) made))) :
    ComesTo z P (meterContent d a .complete place closed stack (references n name ++ tail) x) := by
  induction n generalizing x with
  | zero =>
    have hx : x.afterReferences place 0 (a.size (entityReference name)) made = x := by
      rw [Account.afterReferences, Nat.zero_mul, Nat.zero_mul]
      cases place <;> rfl
    rwa [hx] at htail
  | succ n ih =>
    -- The first reference leaves an account from which the others come to the same.
    rw [Account.afterReferences_succ] at hle htail
    rw [references_succ]
    refine meterContent_entityReference ha hu hn hm ?_ (ih hle htail)
    refine le_trans ?_ hle
    simp only [Account.afterReferences, Account.output_add]
    omega

/-- References in a row are read as what stands behind them. -/
theorem readContent_references (ha : a.Separates) (hu : ∀ c, 0 < a.units c) (hn : a.IsName name)
    (hm : closed.Makes d name made) (n : Nat) (stack : List OpenElement) (nodes : List Node) :
    readContent d a .complete place closed stack nodes (references n name ++ tail) =
      readContent d a .complete place closed stack nodes tail := by
  induction n with
  | zero => rfl
  | succ n ih =>
    rw [references_succ, readContent_adds (endOfContent?_entityReference name _)
      (scanContent_entityReference ha hu hn _) hm.adds_nothing]
    exact ih

/-! ## Replacement texts -/

namespace Alphabet

theorem separates_internal : internal.Separates :=
  ⟨separates_utf8.continues_of_starts, separates_utf8.not_continues⟩

theorem units_internal_pos (c : Char) : 0 < internal.units c :=
  units_utf8_pos c

end Alphabet

/-- An entity adds what is read of its text. -/
theorem Reference.adds?_eq_some {added : List Node} (hp : predefined? name = none)
    (hl : closed.lookup name = some (.internal inner))
    (h : readContent d .internal .complete .entity (closed.without name) [] [] inner =
      .ok (added, rest)) : (Reference.entity name).adds? d closed = some added := by
  simp only [adds?, hp, hl, h]
  rfl

/-- Content of an entity ends with its text. -/
theorem readContent_nil (d : Declarations) (a : Alphabet) (closed : Entities) (nodes : List Node) :
    readContent d a .complete .entity closed [] nodes [] = .ok (nodes, []) := by
  rw [readContent]
  rfl

/-- The account of an entity ends with its text. -/
theorem meterContent_nil (d : Declarations) (a : Alphabet) (closed : Entities) (x : Account) :
    meterContent d a .complete .entity closed [] [] x = .ok (x, []) := by
  rw [meterContent]
  rfl

/-- A character that stands for itself, in a row with others. -/
def isPlainData (c : Char) : Bool :=
  isLegal c && !(c ∈ ['<', '&', ']', '\n', '\r'])

theorem isPlainData_iff {c : Char} : isPlainData c = true ↔
    isLegal c = true ∧ c ≠ '<' ∧ c ≠ '&' ∧ c ≠ ']' ∧ c ≠ '\n' ∧ c ≠ '\r' := by
  simp [isPlainData]

section Characters

variable {c : Char} {s : List Char} (hs : ∀ x ∈ c :: s, isPlainData x = true)
include hs

/-- Content goes on at a character. -/
theorem endOfContent?_plain : endOfContent? .complete (c :: s) = none := by
  obtain ⟨-, -, -, hbracket, -, hreturn⟩ := isPlainData_iff.1 (hs c List.mem_cons_self)
  simp [endOfContent?, Ending.isTruncated, hbracket, hreturn]

/-- Characters are scanned one by one. -/
theorem scanContent_plain :
    scanContent .internal .complete (c :: s) = .ok (.ignorable, s) := by
  obtain ⟨hlegal, hlt, hamp, hbracket, -⟩ := isPlainData_iff.1 (hs c List.mem_cons_self)
  have hstarts : Starts .internal (c :: s) .ignorable s := .character hlegal ⟨hlt, hamp⟩
    fun hpre => hbracket (List.cons_prefix_cons.1 hpre).1.symm
  obtain ⟨t, ht, hl⟩ := hstarts.exists_scanContent Alphabet.separates_internal
    Alphabet.units_internal_pos .complete
  cases t with
  | ignorable => exact ht
  | _ => cases hl

omit hs in
/-- Characters in a row are one token of the account. -/
theorem skipData_plain (hs : ∀ x ∈ s, isPlainData x = true) :
    skipData .internal .complete s = some [] := by
  induction s with
  | nil => rfl
  | cons c s ih =>
    obtain ⟨hc, hs⟩ := List.forall_mem_cons.1 hs
    obtain ⟨hlegal, hlt, hamp, hbracket, hfeed, -⟩ := isPlainData_iff.1 hc
    rw [skipData, if_neg, if_neg]
    · exact ih hs
    · simp [hbracket]
    · simp [hlt, hamp, hlegal, Alphabet.breaksLine, hfeed, Alphabet.internal]
    · rintro t rfl
      exact absurd rfl hbracket

theorem dataEnd?_plain : dataEnd? .internal .complete (c :: s) = some [] := by
  obtain ⟨hc, hrow⟩ := List.forall_mem_cons.1 hs
  obtain ⟨-, -, -, hbracket, hfeed, -⟩ := isPlainData_iff.1 hc
  rw [dataEnd?, if_neg (by simp [Alphabet.breaksLine, hfeed, Alphabet.internal]),
    skipData_plain hrow]
  rintro t rfl
  exact absurd rfl hbracket

end Characters

/-- Characters are read as nothing. -/
theorem readContent_plain {s : List Char} (hs : ∀ x ∈ s, isPlainData x = true)
    (closed : Entities) (nodes : List Node) :
    readContent d .internal .complete .entity closed [] nodes s = .ok (nodes, []) := by
  induction s with
  | nil => exact readContent_nil d .internal closed nodes
  | cons c s ih =>
    rw [readContent_ignorable (endOfContent?_plain hs) (scanContent_plain hs)]
    exact ih (List.forall_mem_cons.1 hs).2

/-- The account of character data at the front of content. -/
theorem meterContent_of_data {c : Char} {s : List Char}
    (he : endOfContent? .complete (c :: s) = none) (hc : c ≠ '<')
    (h : scanContent a .complete (c :: s) = .ok (.ignorable, rest))
    (hd : dataEnd? a .complete (c :: s) = some tail) :
    meterContent d a .complete place closed stack (c :: s) x = (do
      let x ← x.charge (some place) (a.sizeTo (c :: s) tail) (c :: s)
      meterContent d a .complete place closed stack tail x) := by
  rw [meterContent]
  simp only [he]
  split
  case h_2 hscan =>
    rw [if_neg (by simpa using hc)]
    split
    · rename_i hd'
      cases hd.symm.trans hd'
    · rename_i hd'
      obtain rfl := Option.some.inj (hd.symm.trans hd')
      rfl
  all_goals simp_all

/-- **An entity whose text is characters in a row** makes their bytes. -/
theorem Entities.Makes.characters {c : Char} {s : List Char}
    (hs : ∀ x ∈ c :: s, isPlainData x = true) (hp : Reference.predefined? name = none)
    (hl : closed.lookup name = some (.internal (c :: s))) :
    closed.Makes d name (Alphabet.internal.size (c :: s)) := by
  refine ⟨hp, Reference.adds?_eq_some hp hl (readContent_plain hs _ []), _, hl, fun x => ?_⟩
  have hlt := (isPlainData_iff.1 (hs c List.mem_cons_self)).2.1
  have hsize : Alphabet.internal.sizeTo (c :: s) [] = Alphabet.internal.size (c :: s) := by
    simp [Alphabet.sizeTo]
  rw [meterContent_of_data (endOfContent?_plain hs) hlt (scanContent_plain hs) (dataEnd?_plain hs),
    hsize]
  refine charge_comesTo (Nat.le_refl _) fun _ => ?_
  rw [meterContent_nil]
  rfl

/-- **An entity whose text is references to another one** makes the bytes of all of them. -/
theorem Entities.Makes.references {name' : List Char} {n : Nat}
    (hn : Alphabet.internal.IsName name) (hp : Reference.predefined? name' = none)
    (hl : closed.lookup name' = some (.internal (references n name)))
    (hm : (closed.without name').Makes d name made) :
    closed.Makes d name' (n * (Alphabet.internal.size (entityReference name) + made)) := by
  have hi := Alphabet.separates_internal
  have hu := Alphabet.units_internal_pos
  have hread : readContent d .internal .complete .entity (closed.without name') [] []
      (Markup.references n name ++ []) = .ok ([], []) :=
    (readContent_references hi hu hn hm n [] []).trans (readContent_nil d .internal _ [])
  rw [List.append_nil] at hread
  refine ⟨hp, Reference.adds?_eq_some hp hl hread, _, hl, fun x => ?_⟩
  have hx : x.afterReferences .entity n (Alphabet.internal.size (entityReference name)) made =
      x.add .entity (n * (Alphabet.internal.size (entityReference name) + made)) := by
    rw [Account.afterReferences, Account.add_add, Nat.mul_add]
  rw [← List.append_nil (Markup.references n name)]
  refine meterContent_references hi hu hn hm n ?_ ?_
  · rw [hx]
  · rw [hx, meterContent_nil]
    rfl

/-! ## Documents of references -/

/-- A tag that opens an element without attributes. -/
def openingTag (root : List Char) : List Char :=
  '<' :: (root ++ ['>'])

/-- A tag that closes an element. -/
def closingTag (root : List Char) : List Char :=
  "</".toList ++ root ++ ['>']

variable {root : List Char}

section Tags

variable (ha : a.Separates) (hu : ∀ c, 0 < a.units c) (hr : a.IsName root)
include ha hu hr

theorem exists_scanContent_openingTag (tail : List Char) : ∃ tag : StartTag,
    scanContent a .complete (openingTag root ++ tail) = .ok (.startTag tag, tail) ∧
      tag.name = root ∧ tag.attributes = [] ∧ tag.isEmpty = false := by
  have htag : a.dialect.IsTag false root [] (openingTag root) :=
    ⟨[], [], hr, .nil, List.forall_mem_nil _, rfl⟩
  obtain ⟨t, ht, hl⟩ := (Starts.startTag htag tail).exists_scanContent ha hu .complete
  cases t with
  | startTag tag =>
    obtain ⟨hname, hattributes, hempty⟩ := Lexeme.startTag.inj hl
    exact ⟨tag, ht, hname, List.map_eq_nil_iff.1 hattributes, hempty⟩
  | _ => cases hl

theorem exists_scanContent_closingTag (tail : List Char) : ∃ nameAt,
    scanContent a .complete (closingTag root ++ tail) = .ok (.endTag root nameAt, tail) := by
  have htag : a.dialect.IsEndTag root (closingTag root) :=
    ⟨[], hr, List.forall_mem_nil _, by simp [closingTag]⟩
  obtain ⟨t, ht, hl⟩ := (Starts.endTag htag tail).exists_scanContent ha hu .complete
  cases t with
  | endTag name nameAt =>
    obtain rfl := Lexeme.endTag.inj hl
    exact ⟨nameAt, ht⟩
  | _ => cases hl

omit ha hu hr in
theorem endOfContent?_openingTag (root tail : List Char) :
    endOfContent? .complete (openingTag root ++ tail) = none :=
  endOfContent?_eq_none (by simp [openingTag])

omit ha hu hr in
theorem endOfContent?_closingTag (root tail : List Char) :
    endOfContent? .complete (closingTag root ++ tail) = none :=
  endOfContent?_eq_none (by simp [closingTag])

/-- The account of content from a tag without attributes on. -/
theorem meterContent_openingTag (tail : List Char) :
    meterContent d a .complete place closed stack (openingTag root ++ tail) x = (do
      let x ← x.charge (some place) (a.size (openingTag root)) (openingTag root ++ tail)
      meterContent d a .complete place closed (root :: stack) tail x) := by
  obtain ⟨tag, ht, hname, hattributes, hempty⟩ := exists_scanContent_openingTag ha hu hr tail
  rw [meterContent]
  simp only [endOfContent?_openingTag]
  split
  case h_5 hscan =>
    obtain ⟨ht', rfl⟩ := Prod.mk.inj (Except.ok.inj (ht.symm.trans hscan))
    obtain rfl := ContentToken.startTag.inj ht'
    rw [a.sizeTo_append]
    simp [hattributes, hempty, hname, meterAttributes, bind, Except.bind]
  all_goals simp_all

/-- The account of content from the closing tag of the root element on. -/
theorem meterContent_closingTag (tail : List Char) :
    meterContent d a .complete .document closed [root] (closingTag root ++ tail) x = (do
      let x ← x.charge (some .document) (a.size (closingTag root)) (closingTag root ++ tail)
      .ok (x, tail)) := by
  obtain ⟨nameAt, ht⟩ := exists_scanContent_closingTag ha hu hr tail
  rw [meterContent]
  simp only [endOfContent?_closingTag]
  split
  case h_6 hscan =>
    obtain ⟨ht', rfl⟩ := Prod.mk.inj (Except.ok.inj (ht.symm.trans hscan))
    obtain ⟨rfl, rfl⟩ := ContentToken.endTag.inj ht'
    rw [a.sizeTo_append]
    simp
  all_goals simp_all

/-- **A root element of references is read** as an empty one. -/
theorem readContent_root (hn : a.IsName name) (hm : closed.Makes d name made) (n : Nat)
    (tail : List Char) :
    readContent d a .complete .document closed [] []
        (openingTag root ++ (references n name ++ (closingTag root ++ tail))) =
      .ok ([.element (.ofList root) [] []], tail) := by
  obtain ⟨tag, ht, rfl, hattributes, hempty⟩ :=
    exists_scanContent_openingTag ha hu hr (references n name ++ (closingTag root ++ tail))
  obtain ⟨nameAt, ht'⟩ := exists_scanContent_closingTag ha hu hr tail
  have has : readAttributes d a closed (openingTag tag.name ++ (references n name ++
      (closingTag tag.name ++ tail))) tag.name [] tag.attributes = .ok [] := by
    rw [hattributes]
    rfl
  rw [readContent_startTag (endOfContent?_openingTag _ _) ht hempty has,
    readContent_references ha hu hn hm,
    readContent_endTag (e := ⟨tag.name, [], []⟩) (endOfContent?_closingTag _ _) ht', readOn,
    if_pos ⟨rfl, rfl⟩]
  rfl

end Tags

/-- The account after a root element of references. -/
def Account.afterRoot (x : Account) (a : Alphabet) (root name : List Char) (n made : Nat) :
    Account :=
  ((x.add .document (a.size (openingTag root))).afterReferences .document n
    (a.size (entityReference name)) made).add .document (a.size (closingTag root))

/-- **A root element of references comes to what all of them add.** -/
theorem meterContent_root (ha : a.Separates) (hu : ∀ c, 0 < a.units c) (hr : a.IsName root)
    (hn : a.IsName name) (hm : closed.Makes d name made) (n : Nat) (x : Account)
    (tail : List Char) :
    ComesTo (x.afterRoot a root name n made)
      (fun v => v = (x.afterRoot a root name n made, tail) ∧
        (x.afterRoot a root name n made).isTolerated = true)
      (meterContent d a .complete .document closed []
        (openingTag root ++ (references n name ++ (closingTag root ++ tail))) x) := by
  rw [meterContent_openingTag ha hu hr]
  refine charge_comesTo ?_ fun _ => ?_
  · simp only [Account.afterRoot, Account.afterReferences, Account.output_add]
    omega
  · refine meterContent_references ha hu hn hm n ?_ ?_
    · rw [Account.afterRoot, Account.output_add _ .document (a.size (closingTag root))]
      omega
    · rw [meterContent_closingTag ha hu hr]
      exact charge_comesTo (Nat.le_refl _) fun ht => ⟨rfl, ht⟩

namespace Source

/-- **A document whose root element holds references only** comes to what all of them add. -/
theorem meter_comesTo {s : Source} {standalone : Bool} (hs : s.ending = .complete)
    (ha : s.alphabet.Separates) (hu : ∀ c, 0 < s.alphabet.units c) (hr : s.alphabet.IsName root)
    (hn : s.alphabet.IsName name) (hm : d.entities.Makes d name made) {n : Nat}
    (hp : Prolog.meterProlog s.alphabet .complete .opening { standalone } s.body
      ⟨s.alphabet.sizeTo s.shown s.body, 0⟩ =
        .ok (d, x, openingTag root ++ (references n name ++ closingTag root))) :
    ComesTo (x.afterRoot s.alphabet root name n made)
      (fun y => y = x.afterRoot s.alphabet root name n made ∧
        (x.afterRoot s.alphabet root name n made).isTolerated = true) (s.meter standalone) := by
  have hroot := meterContent_root ha hu hr hn hm n x []
  rw [List.append_nil] at hroot
  rw [meter, hs]
  simp only [hp, bind, Except.bind]
  refine Gives.bind hroot fun v hv => ?_
  obtain ⟨rfl, ht⟩ := hv
  have he : Prolog.meterEpilog s.alphabet .complete [] (x.afterRoot s.alphabet root name n made) =
      .ok (x.afterRoot s.alphabet root name n made) := by rw [Prolog.meterEpilog, if_pos rfl]
  dsimp only
  rw [he]
  exact ⟨rfl, ht⟩

/-- A document whose root element holds references only is read. -/
theorem readRoot_references {s : Source} {standalone : Bool} (hs : s.ending = .complete)
    (ha : s.alphabet.Separates) (hu : ∀ c, 0 < s.alphabet.units c) (hr : s.alphabet.IsName root)
    (hn : s.alphabet.IsName name) (hm : d.entities.Makes d name made) {n : Nat}
    (hp : Prolog.readProlog s.alphabet .complete .opening { standalone } s.body =
      .ok (d, openingTag root ++ (references n name ++ closingTag root))) :
    s.readRoot standalone = .ok (.element (.ofList root) [] []) := by
  have hroot := readContent_root ha hu hr hn hm n []
  rw [List.append_nil] at hroot
  have he : Prolog.readEpilog s.alphabet .complete [] = .ok () := by
    rw [Prolog.readEpilog, if_pos rfl, if_pos rfl]
  rw [readRoot, hs, hp]
  simp only [hroot, he]

variable {s : Source} {standalone : Bool} {P : Account → Prop}

/-- The limit is not reached by an account that comes to less. -/
theorem limit?_eq_none_of_comesTo (h : ComesTo y P (s.meter standalone)) (hy : y.output < 8388608) :
    s.limit? standalone = none := by
  obtain ⟨v, hv, -⟩ := h.exists_ok hy
  rw [limit?, hv]

/-- The limit is reached by an account that comes to something intolerable. -/
theorem exists_limit?_of_comesTo
    (h : ComesTo y (fun v => v = y ∧ y.isTolerated = true) (s.meter standalone))
    (hy : y.isTolerated = false) : ∃ text, s.limit? standalone = some text := by
  rw [limit?]
  cases hm : s.meter standalone with
  | error i =>
    obtain ⟨-, text, rfl⟩ := h.of_error hm
    exact ⟨text, rfl⟩
  | ok v =>
    obtain ⟨-, ht⟩ := h.of_ok hm
    cases hy.symm.trans ht

end Source

end FxmlWiring.Markup
