import FxmlWiring.Tree.Node
import Mathlib.Data.List.Nodup
import Mathlib.Data.List.Pairwise

/-! # Places in a tree

A **place** is the way to a node from the root: the number of the child to go down to, again and
again. Two elements may look alike, but they have different places. `located` lists the elements of
a tree with their places in **document order** (`pairwise_located`), each of them once
(`mem_located_iff`, `nodup_located`). -/

namespace FxmlWiring.Node

/-- The way from the root of a tree to one of its nodes. -/
abbrev Place := List Nat

/-- The node at a place, if there is one. -/
def at? (t : Node) : Place → Option Node
  | [] => some t
  | i :: p => t.children[i]?.bind (·.at? p)

/-- One place comes before another in document order: it is above the other, or below an earlier
sibling. -/
inductive Place.Before : Place → Place → Prop
  | above (p : Place) (i : Nat) (q : Place) : Before p (p ++ i :: q)
  | beside (p : Place) {i j : Nat} (h : i < j) (q r : Place) : Before (p ++ i :: q) (p ++ j :: r)

mutual

/-- The elements of a tree with their places: an element, then all that is below it. -/
def located : Node → List (Place × Node)
  | element tag as cs => ([], element tag as cs) :: locatedAll 0 cs
  | text _ | cdata _ | comment _ => []

/-- The elements of children side by side, with their places below the parent. The first child has
the number. -/
def locatedAll (i : Nat) : List Node → List (Place × Node)
  | [] => []
  | t :: ts => t.located.map (Prod.map (i :: ·) id) ++ locatedAll (i + 1) ts

end

/-! ## Document order -/

/-- No place comes before itself. -/
theorem Place.Before.ne {p q : Place} (h : p.Before q) : p ≠ q := by
  cases h with
  | above p i q => simp
  | beside p h q r => simp [Nat.ne_of_lt h]

/-- Places below one child are ordered like the places in it. -/
theorem Place.Before.cons {p q : Place} (h : p.Before q) (i : Nat) :
    Place.Before (i :: p) (i :: q) := by
  cases h with
  | above p j q => exact .above (i :: p) j q
  | beside p h q r => exact .beside (i :: p) h q r

/-- A place below a child starts with the number of the child. -/
theorem exists_of_mem_locatedAll {i : Nat} {ts : List Node} {x : Place × Node}
    (h : x ∈ locatedAll i ts) :
    ∃ k t y, ts[k]? = some t ∧ y ∈ t.located ∧ x = ((i + k) :: y.1, y.2) := by
  induction ts generalizing i with
  | nil => cases h
  | cons t ts ih =>
    rw [locatedAll, List.mem_append, List.mem_map] at h
    rcases h with ⟨y, hy, rfl⟩ | h
    · exact ⟨0, t, y, rfl, hy, rfl⟩
    · obtain ⟨k, t', y, hk, hy, rfl⟩ := ih h
      exact ⟨k + 1, t', y, hk, hy, by rw [Nat.add_right_comm, Nat.add_assoc]⟩

/-- Every element of a child is below the parent. -/
theorem mem_locatedAll {i k : Nat} {ts : List Node} {t : Node} {y : Place × Node}
    (hk : ts[k]? = some t) (hy : y ∈ t.located) : ((i + k) :: y.1, y.2) ∈ locatedAll i ts := by
  induction ts generalizing i k with
  | nil => cases hk
  | cons t' ts ih =>
    rw [locatedAll, List.mem_append, List.mem_map]
    cases k with
    | zero =>
      obtain rfl := Option.some.inj hk
      exact Or.inl ⟨y, hy, rfl⟩
    | succ k =>
      have := ih (i := i + 1) hk
      rw [Nat.add_right_comm] at this
      exact Or.inr this

mutual

/-- **Elements are listed in document order.** -/
theorem pairwise_located (t : Node) : t.located.Pairwise fun x y => x.1.Before y.1 := by
  cases t with
  | element tag as cs =>
    rw [located, List.pairwise_cons]
    refine ⟨fun x hx => ?_, pairwise_locatedAll 0 cs⟩
    obtain ⟨k, -, y, -, -, rfl⟩ := exists_of_mem_locatedAll hx
    exact .above [] _ y.1
  | text s => exact .nil
  | cdata s => exact .nil
  | comment s => exact .nil

/-- The elements of children are listed in document order. -/
theorem pairwise_locatedAll (i : Nat) (ts : List Node) :
    (locatedAll i ts).Pairwise fun x y => x.1.Before y.1 := by
  cases ts with
  | nil => exact .nil
  | cons t ts =>
    rw [locatedAll, List.pairwise_append, List.pairwise_map]
    refine ⟨(pairwise_located t).imp fun h => h.cons i, pairwise_locatedAll (i + 1) ts, ?_⟩
    intro x hx z hz
    obtain ⟨y, -, rfl⟩ := List.mem_map.1 hx
    obtain ⟨k, -, w, -, -, rfl⟩ := exists_of_mem_locatedAll hz
    exact .beside [] (by omega) y.1 w.1

end

/-- Without the places, the elements of the first child stand before those of the others. -/
theorem map_snd_locatedAll_cons (i : Nat) (t : Node) (ts : List Node) :
    (locatedAll i (t :: ts)).map Prod.snd =
      t.located.map Prod.snd ++ (locatedAll (i + 1) ts).map Prod.snd := by
  rw [locatedAll, List.map_append, List.map_map]
  rfl

/-- The elements of children are those of the child elements. -/
theorem map_snd_locatedAll (i : Nat) (ts : List Node) :
    (locatedAll i ts).map Prod.snd =
      (ts.filter isElement).flatMap fun t => t.located.map Prod.snd := by
  induction ts generalizing i with
  | nil => rfl
  | cons t ts ih =>
    rw [map_snd_locatedAll_cons, ih]
    cases t with
    | element tag as cs => rfl
    | text c => rfl
    | cdata c => rfl
    | comment c => rfl

/-- No place is listed twice. -/
theorem nodup_located (t : Node) : (t.located.map Prod.fst).Nodup :=
  List.pairwise_map.2 (t.pairwise_located.imp Place.Before.ne)

/-- **What is listed are the elements at their places.** -/
theorem mem_located_iff {t n : Node} {p : Place} :
    (p, n) ∈ t.located ↔ t.at? p = some n ∧ n.isElement = true := by
  -- The induction goes down the way to the node.
  induction p generalizing t with
  | nil =>
    have hne : ∀ cs, ([], n) ∉ locatedAll 0 cs := by
      intro cs h
      obtain ⟨k, -, y, -, -, h⟩ := exists_of_mem_locatedAll h
      cases h
    cases t with
    | element tag as cs =>
      rw [located, List.mem_cons, at?]
      constructor
      · rintro (h | h)
        · obtain rfl := (Prod.mk.inj h).2
          exact ⟨rfl, rfl⟩
        · exact absurd h (hne cs)
      · rintro ⟨h, -⟩
        exact Or.inl (by rw [Option.some.inj h])
    | text c => exact ⟨fun h => (nomatch h), by rintro ⟨h, hn⟩; cases h; cases hn⟩
    | cdata c => exact ⟨fun h => (nomatch h), by rintro ⟨h, hn⟩; cases h; cases hn⟩
    | comment c => exact ⟨fun h => (nomatch h), by rintro ⟨h, hn⟩; cases h; cases hn⟩
  | cons i p ih =>
    cases t with
    | element tag as cs =>
      rw [located, List.mem_cons, at?, children]
      constructor
      · rintro (h | h)
        · cases h
        · obtain ⟨k, t, y, hk, hy, h⟩ := exists_of_mem_locatedAll h
          obtain ⟨hp, rfl⟩ := Prod.mk.inj h
          obtain ⟨rfl, rfl⟩ := List.cons.inj hp
          rw [Nat.zero_add, hk]
          exact ih.1 hy
      · rintro ⟨h, hn⟩
        obtain ⟨t, hk, ht⟩ := Option.bind_eq_some_iff.1 h
        have hm := mem_locatedAll (i := 0) hk (ih.2 ⟨ht, hn⟩)
        rw [Nat.zero_add] at hm
        exact Or.inr hm
    | _ => simp [located, at?, children]

end FxmlWiring.Node
