import FxmlWiring.Proofs.Tree.Preorder
import Mathlib.Data.List.Induction
import Mathlib.Data.List.Nodup
import Mathlib.Data.List.Perm.Basic

/-! # Trees built by hand

A tree built by hand sets the attributes of each element one after another (`Node.build`). What is
left of them is, for each local name, the attribute that was set last (`Attribute.mem_table_iff`).
So two lists that have the **same last** attribute for each local name build the same table up to
its order (`Attribute.table_perm`), and trees that are **alike** apart from such lists and from
nodes that are no elements have the same elements (`Node.sameElements_build`). -/

namespace FxmlWiring

namespace Attribute

/-! ## What is left of attributes that are set one after another -/

/-- The same attribute is the last one for each key. -/
def SameLast {κ : Type} [DecidableEq κ] (key : Attribute → κ) (as bs : List Attribute) : Prop :=
  ∀ k, (as.filter (key · = k)).getLast? = (bs.filter (key · = k)).getLast?

/-- Only the keys of the attributes matter. -/
theorem sameLast_iff {κ : Type} [DecidableEq κ] {key : Attribute → κ} {as bs : List Attribute} :
    SameLast key as bs ↔ ∀ c ∈ as ++ bs,
      (as.filter (key · = key c)).getLast? = (bs.filter (key · = key c)).getLast? := by
  refine ⟨fun h c _ => h (key c), fun h k => ?_⟩
  by_cases hk : ∃ c ∈ as ++ bs, key c = k
  · obtain ⟨c, hc, rfl⟩ := hk
    exact h c hc
  · have hnone : ∀ c ∈ as ++ bs, ¬ decide (key c = k) = true :=
      fun c hc hck => hk ⟨c, hc, of_decide_eq_true hck⟩
    rw [List.filter_eq_nil_iff.2 fun c hc => hnone c (List.mem_append_left bs hc),
      List.filter_eq_nil_iff.2 fun c hc => hnone c (List.mem_append_right as hc)]

instance {κ : Type} [DecidableEq κ] (key : Attribute → κ) (as bs : List Attribute) :
    Decidable (SameLast key as bs) :=
  decidable_of_iff _ sameLast_iff.symm

/-- The local name of an attribute. -/
abbrev localKey (a : Attribute) : List Char :=
  localName a.name

/-- Setting an attribute keeps the local names different. -/
theorem nodup_set {table : List Attribute} (h : (table.map localKey).Nodup) (a : Attribute) :
    ((set table a).map localKey).Nodup := by
  unfold set
  split
  · -- The new value is put in the place of the old one.
    have hkey : (table.map fun b => if b.name = a.name then a else b).map localKey =
        table.map localKey := by
      rw [List.map_map]
      refine List.map_congr_left fun b _ => ?_
      by_cases hb : b.name = a.name <;> simp [localKey, hb]
    rwa [hkey]
  · rw [List.map_append, List.nodup_append]
    refine ⟨h.sublist (List.filter_sublist.map localKey), List.nodup_singleton _, ?_⟩
    intro x hx y hy
    obtain ⟨b, hb, rfl⟩ := List.mem_map.1 hx
    obtain rfl : y = localKey a := by simpa using hy
    simpa using (List.mem_filter.1 hb).2

/-- What is in a table after an attribute was set: this one, and those of other local names. -/
theorem mem_set_iff {table : List Attribute} (h : (table.map localKey).Nodup) {a b : Attribute} :
    b ∈ set table a ↔ b = a ∨ b ∈ table ∧ localKey b ≠ localKey a := by
  unfold set
  split
  · rename_i hany
    obtain ⟨d, hd, hda⟩ := List.any_eq_true.1 hany
    have hda : d.name = a.name := of_decide_eq_true hda
    -- The only attribute with the local name is the one whose value is replaced.
    have honly : ∀ c ∈ table, c.name = a.name ↔ localKey c = localKey a := by
      refine fun c hc => ⟨fun hn => congrArg localName hn, fun hk => ?_⟩
      rw [List.inj_on_of_nodup_map h hc hd (hk.trans (congrArg localName hda).symm), hda]
    constructor
    · intro hb
      obtain ⟨c, hc, rfl⟩ := List.mem_map.1 hb
      split
      · exact Or.inl rfl
      · rename_i hn
        exact Or.inr ⟨hc, fun hk => hn ((honly c hc).2 hk)⟩
    · rintro (rfl | ⟨hb, hk⟩)
      · exact List.mem_map.2 ⟨d, hd, if_pos hda⟩
      · exact List.mem_map.2 ⟨b, hb, if_neg fun hn => hk ((honly b hb).1 hn)⟩
  · simp [localKey, or_comm]

/-- A table has each local name once. -/
theorem nodup_table (as : List Attribute) : ((table as).map localKey).Nodup := by
  induction as using List.reverseRecOn with
  | nil => exact List.nodup_nil
  | append_singleton as a ih =>
    rw [table_append_singleton]
    exact nodup_set ih a

/-- **The last one wins**: a table has those attributes that are the last of their local name. -/
theorem mem_table_iff {as : List Attribute} {b : Attribute} :
    b ∈ table as ↔ (as.filter (localKey · = localKey b)).getLast? = some b := by
  induction as using List.reverseRecOn with
  | nil => simp
  | append_singleton as a ih =>
    rw [table_append_singleton, mem_set_iff (nodup_table as), ih, List.filter_append]
    by_cases hk : localKey a = localKey b
    · simp [hk, eq_comm]
    · have hne : b ≠ a := by
        rintro rfl
        exact hk rfl
      simp [hk, hne, Ne.symm hk]

/-- Attributes with the same last ones build the same table, up to its order. -/
theorem table_perm {as bs : List Attribute} (h : SameLast localKey as bs) :
    (table as).Perm (table bs) := by
  refine (List.perm_ext_iff_of_nodup (nodup_table as).of_map (nodup_table bs).of_map).2 fun b => ?_
  rw [mem_table_iff, mem_table_iff, h (localKey b)]

/-- The names in a table are different. -/
theorem nodup_name_table (as : List Attribute) : ((table as).map (·.name)).Nodup := by
  refine List.Nodup.of_map localName ?_
  rw [List.map_map]
  exact nodup_table as

/-- Different names of an element have different local names. -/
def LocalNamesDiffer (as : List Attribute) : Prop :=
  ∀ a ∈ as, ∀ b ∈ as, localKey a = localKey b → a.name = b.name

instance (as : List Attribute) : Decidable (LocalNamesDiffer as) :=
  inferInstanceAs (Decidable (∀ a ∈ as, ∀ b ∈ as, _ → _))

/-- What has the same last attribute for each name has the same names. -/
theorem SameLast.exists_name {as bs : List Attribute} (h : SameLast (·.name) as bs) {b : Attribute}
    (hb : b ∈ bs) : ∃ a ∈ as, a.name = b.name := by
  have hmem : b ∈ bs.filter (·.name = b.name) := by simp [hb]
  have hlast := (h b.name).trans (List.getLast?_eq_some_getLast (List.ne_nil_of_mem hmem))
  obtain ⟨ha, hn⟩ := List.mem_filter.1 (List.mem_of_getLast? hlast)
  exact ⟨_, ha, of_decide_eq_true hn⟩

/-- Where different names have different local names, the last attribute of each local name is the
last of its name. -/
theorem SameLast.localKey_of_name {as bs : List Attribute} (h : SameLast (·.name) as bs)
    (hd : LocalNamesDiffer as) : SameLast localKey as bs := by
  intro k
  by_cases hk : ∃ a ∈ as, localKey a = k
  · obtain ⟨a, ha, rfl⟩ := hk
    have has : as.filter (localKey · = localKey a) = as.filter (·.name = a.name) := by
      refine List.filter_congr fun c hc => decide_eq_decide.2 ⟨hd c hc a ha, fun hn => ?_⟩
      exact congrArg localName hn
    have hbs : bs.filter (localKey · = localKey a) = bs.filter (·.name = a.name) := by
      refine List.filter_congr fun b hb => decide_eq_decide.2 ⟨fun hb' => ?_, fun hn => ?_⟩
      · obtain ⟨c, hc, hcb⟩ := h.exists_name hb
        exact hcb.symm.trans (hd c hc a ha ((congrArg localName hcb).trans hb'))
      · exact congrArg localName hn
    rw [has, hbs]
    exact h a.name
  · -- Neither list has the local name.
    have has : as.filter (localKey · = k) = [] :=
      List.filter_eq_nil_iff.2 fun a ha hak => hk ⟨a, ha, of_decide_eq_true hak⟩
    have hbs : bs.filter (localKey · = k) = [] := by
      refine List.filter_eq_nil_iff.2 fun b hb hbk => hk ?_
      obtain ⟨a, ha, hab⟩ := h.exists_name hb
      exact ⟨a, ha, (congrArg localName hab).trans (of_decide_eq_true hbk)⟩
    rw [has, hbs]

end Attribute

namespace Node

open Attribute

/-! ## Trees -/

mutual

/-- The tree that is built by setting the attributes of each element one after another. -/
def build : Node → Node
  | element tag as cs => element tag (table as) (buildAll cs)
  | text c => text c
  | cdata c => cdata c
  | comment c => comment c

/-- Trees built side by side. -/
def buildAll : List Node → List Node
  | [] => []
  | t :: ts => t.build :: buildAll ts

end

/-- Rows of trees that are alike: the same tags in the same shape, attributes as the relation says,
and any nodes that are no elements between them. -/
inductive Alike (R : List Attribute → List Attribute → Prop) : List Node → List Node → Prop
  | nil : Alike R [] []
  | element (tag : String) {as bs : List Attribute} {cs ds ts us : List Node} (ha : R as bs)
      (hc : Alike R cs ds) (h : Alike R ts us) :
      Alike R (element tag as cs :: ts) (element tag bs ds :: us)
  | skipLeft {n : Node} {ts us : List Node} (hn : n.isElement = false) (h : Alike R ts us) :
      Alike R (n :: ts) us
  | skipRight {n : Node} {ts us : List Node} (hn : n.isElement = false) (h : Alike R ts us) :
      Alike R ts (n :: us)

/-- Only elements are listed. -/
theorem preorder_of_isElement_eq_false {n : Node} (hn : n.isElement = false) (depth : Nat) :
    n.preorder depth = [] := by
  cases n with
  | element tag as cs => cases hn
  | text c => rfl
  | cdata c => rfl
  | comment c => rfl

/-- The elements of alike trees agree one by one. -/
theorem Alike.forall₂_preorderAll {R : List Attribute → List Attribute → Prop} {ts us : List Node}
    (h : Alike R ts us) (depth : Nat) :
    List.Forall₂ (fun x y => x.1 = y.1 ∧ x.2.1 = y.2.1 ∧ R x.2.2 y.2.2)
      (preorderAll depth ts) (preorderAll depth us) := by
  induction h generalizing depth with
  | nil => exact .nil
  | element tag ha _ _ ihc ih =>
    rw [preorderAll, preorderAll, preorder, preorder]
    exact List.rel_append (.cons ⟨rfl, rfl, ha⟩ (ihc (depth + 1))) (ih depth)
  | skipLeft hn _ ih => simpa [preorderAll, preorder_of_isElement_eq_false hn] using ih depth
  | skipRight hn _ ih => simpa [preorderAll, preorder_of_isElement_eq_false hn] using ih depth

/-- Alike trees are alike under another relation, if this follows for the attributes of their
elements. -/
theorem Alike.imp_of_mem {R R' : List Attribute → List Attribute → Prop} {ts us : List Node}
    (h : Alike R ts us) (depth : Nat)
    (himp : ∀ e ∈ preorderAll depth ts, ∀ bs, R e.2.2 bs → R' e.2.2 bs) : Alike R' ts us := by
  induction h generalizing depth with
  | nil => exact .nil
  | element tag ha _ _ ihc ih =>
    simp only [preorderAll, preorder, List.cons_append, List.mem_cons, List.mem_append] at himp
    refine .element tag (himp _ (Or.inl rfl) _ ha) (ihc (depth + 1) fun e he => ?_)
      (ih depth fun e he => ?_)
    · exact himp e (Or.inr (Or.inl he))
    · exact himp e (Or.inr (Or.inr he))
  | skipLeft hn _ ih =>
    refine .skipLeft hn (ih depth fun e he => himp e ?_)
    rw [preorderAll]
    exact List.mem_append_right _ he
  | skipRight hn _ ih => exact .skipRight hn (ih depth himp)

mutual

/-- Building changes the attributes of each element, and nothing else. -/
theorem preorder_build (depth : Nat) (t : Node) :
    t.build.preorder depth =
      (t.preorder depth).map fun e => (e.1, e.2.1, table e.2.2) := by
  cases t with
  | element tag as cs => rw [build, preorder, preorder, preorderAll_buildAll, List.map_cons]
  | text c => rfl
  | cdata c => rfl
  | comment c => rfl

/-- Building side by side changes the attributes of each element, and nothing else. -/
theorem preorderAll_buildAll (depth : Nat) (ts : List Node) :
    preorderAll depth (buildAll ts) =
      (preorderAll depth ts).map fun e => (e.1, e.2.1, table e.2.2) := by
  cases ts with
  | nil => rfl
  | cons t ts =>
    rw [buildAll, preorderAll, preorderAll, preorder_build, preorderAll_buildAll, List.map_append]

end

/-- The names of an element's attributes are different in a tree that was built. -/
theorem nodup_name_of_mem_preorder_build {t : Node} {e : Nat × String × List Attribute}
    (he : e ∈ t.build.preorder 0) : (e.2.2.map (·.name)).Nodup := by
  rw [preorder_build] at he
  obtain ⟨e', -, rfl⟩ := List.mem_map.1 he
  exact nodup_name_table e'.2.2

/-- **Alike trees are built of the same elements** if their attributes have the same last ones. -/
theorem sameElements_build {t u : Node} (h : Alike (SameLast localKey) [t] [u]) :
    SameElements (t.build.preorder 0) (u.build.preorder 0) := by
  have hl := h.forall₂_preorderAll 0
  simp only [preorderAll, List.append_nil] at hl
  rw [preorder_build, preorder_build, SameElements, List.forall₂_map_left_iff,
    List.forall₂_map_right_iff]
  exact hl.imp fun x y hxy => ⟨hxy.1, hxy.2.1, (table_perm hxy.2.2).symm⟩

end Node

end FxmlWiring
