import FxmlWiring.Proofs.Markup.Scan
import FxmlWiring.Proofs.Tree.Preorder
import FxmlWiring.Tree.Writer
import Mathlib.Data.List.Infix

/-! # Trees that can be written, and what they are written as

A tree is **writable** if its names are names of markup and its texts can stand where they are to
stand. `Node.Written` relates nodes to every text that they may be written as: the attributes of an
element stand in any order, and an element without children may be closed by its own tag. -/

namespace FxmlWiring

open Markup

/-! ## Writable trees -/

/-- Only characters that may stand in a document. -/
def AreLegal (s : String) : Prop :=
  ∀ c ∈ s.toList, isLegal c = true

instance (s : String) : Decidable (AreLegal s) :=
  decidable_of_iff (s.toList.all isLegal = true) List.all_eq_true

/-- An attribute that can be written. -/
structure Attribute.IsWritable (x : Attribute) : Prop where
  isName : Alphabet.utf8.IsName x.name.toList
  areLegal : AreLegal x.value

instance (x : Attribute) : Decidable x.IsWritable :=
  decidable_of_iff (Alphabet.utf8.IsName x.name.toList ∧ AreLegal x.value)
    ⟨fun h => ⟨h.1, h.2⟩, fun h => ⟨h.1, h.2⟩⟩

/-- Attributes that can be written in one tag: no two of them have one name. -/
structure Attribute.AreWritable (as : List Attribute) : Prop where
  nodup : (as.map (·.name)).Nodup
  isWritable : ∀ x ∈ as, x.IsWritable

instance (as : List Attribute) : Decidable (Attribute.AreWritable as) :=
  decidable_of_iff ((as.map (·.name)).Nodup ∧ ∀ x ∈ as, x.IsWritable)
    ⟨fun h => ⟨h.1, h.2⟩, fun h => ⟨h.1, h.2⟩⟩

/-- The order of the attributes does not matter. -/
theorem Attribute.AreWritable.perm {as bs : List Attribute} (h : AreWritable as)
    (hp : bs.Perm as) : AreWritable bs where
  nodup := (hp.map _).nodup_iff.2 h.nodup
  isWritable x hx := h.isWritable x (hp.mem_iff.1 hx)

namespace Node

mutual

/-- A node that can be written. A closing of its own kind would end a `CDATA` section or a comment
too early. -/
def IsWritable : Node → Prop
  | element tag attributes cs =>
    Alphabet.utf8.IsName tag.toList ∧ Attribute.AreWritable attributes ∧ AreWritable cs
  | text s => AreLegal s
  | cdata s => AreLegal s ∧ ¬ "]]>".toList <:+: s.toList
  | comment s => AreLegal s ∧ ¬ "--".toList <:+: s.toList ∧ s.toList.getLast? ≠ some '-'

/-- Nodes that can be written. -/
def AreWritable : List Node → Prop
  | [] => True
  | n :: ns => n.IsWritable ∧ AreWritable ns

end

mutual

instance decidableIsWritable (n : Node) : Decidable n.IsWritable :=
  match n with
  | element tag attributes cs =>
    have := decidableAreWritable cs
    inferInstanceAs (Decidable (Alphabet.utf8.IsName tag.toList ∧
      Attribute.AreWritable attributes ∧ AreWritable cs))
  | text s => inferInstanceAs (Decidable (AreLegal s))
  | cdata s => inferInstanceAs (Decidable (AreLegal s ∧ ¬ "]]>".toList <:+: s.toList))
  | comment s => inferInstanceAs (Decidable (AreLegal s ∧ ¬ "--".toList <:+: s.toList ∧
      s.toList.getLast? ≠ some '-'))

instance decidableAreWritable (ns : List Node) : Decidable (AreWritable ns) :=
  match ns with
  | [] => inferInstanceAs (Decidable True)
  | n :: ns =>
    have := decidableIsWritable n
    have := decidableAreWritable ns
    inferInstanceAs (Decidable (n.IsWritable ∧ AreWritable ns))

end

mutual

/-- The elements of a writable tree have writable attributes. -/
theorem IsWritable.attributes {t : Node} (h : t.IsWritable) (depth : Nat) :
    ∀ e ∈ t.preorder depth, Attribute.AreWritable e.2.2 := by
  cases t with
  | element tag as cs =>
    obtain ⟨-, has, hcs⟩ := h
    exact List.forall_mem_cons.2 ⟨has, hcs.attributes (depth + 1)⟩
  | text s => exact List.forall_mem_nil _
  | cdata s => exact List.forall_mem_nil _
  | comment s => exact List.forall_mem_nil _

/-- The elements of writable trees have writable attributes. -/
theorem AreWritable.attributes {ts : List Node} (h : AreWritable ts) (depth : Nat) :
    ∀ e ∈ preorderAll depth ts, Attribute.AreWritable e.2.2 := by
  cases ts with
  | nil => exact List.forall_mem_nil _
  | cons t ts =>
    obtain ⟨ht, hts⟩ := h
    exact List.forall_mem_append.2 ⟨ht.attributes depth, hts.attributes depth⟩

end

/-! ## What trees are written as -/

/-- A `CDATA` section as it is written. -/
theorem write_cdata (s : String) :
    (cdata s).write = "<![CDATA[".toList ++ s.toList ++ "]]>".toList :=
  rfl

/-- A comment as it is written. -/
theorem write_comment (s : String) :
    (comment s).write = "<!--".toList ++ s.toList ++ "-->".toList :=
  rfl

/-- What nodes may be written as, one after another. -/
inductive Written : List Node → List Char → Prop
  | nil : Written [] []
  | element (tag : String) {as bs : List Attribute} {cs ns : List Node} {v w : List Char}
      (hp : bs.Perm as) (hv : Written cs v) (hw : Written ns w) :
      Written (element tag as cs :: ns)
        ('<' :: tag.toList ++ bs.flatMap Attribute.write ++ '>' :: v ++ "</".toList ++
          tag.toList ++ ['>'] ++ w)
  | empty (tag : String) {as bs : List Attribute} {ns : List Node} {w : List Char}
      (hp : bs.Perm as) (hw : Written ns w) :
      Written (element tag as [] :: ns)
        ('<' :: tag.toList ++ bs.flatMap Attribute.write ++ "/>".toList ++ w)
  | text (s : String) {ns : List Node} {w : List Char} (hw : Written ns w) :
      Written (text s :: ns) ((text s).write ++ w)
  | cdata (s : String) {ns : List Node} {w : List Char} (hw : Written ns w) :
      Written (cdata s :: ns) ((cdata s).write ++ w)
  | comment (s : String) {ns : List Node} {w : List Char} (hw : Written ns w) :
      Written (comment s :: ns) ((comment s).write ++ w)

mutual

/-- A node in front of others is written as `write` does it. -/
theorem Written.cons (n : Node) {ns : List Node} {w : List Char} (hw : Written ns w) :
    Written (n :: ns) (n.write ++ w) := by
  cases n with
  | element tag as cs =>
    exact .element tag (List.Perm.refl as) (written_writeAll cs) hw
  | text s => exact .text s hw
  | cdata s => exact .cdata s hw
  | comment s => exact .comment s hw

/-- Nodes are written as `writeAll` does it. -/
theorem written_writeAll (ns : List Node) : Written ns (writeAll ns) := by
  cases ns with
  | nil => exact .nil
  | cons n ns =>
    exact .cons n (written_writeAll ns)

end

end Node

end FxmlWiring
