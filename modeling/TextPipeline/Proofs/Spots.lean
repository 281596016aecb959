import Mathlib.Data.List.Infix
import TextPipeline.Proofs.Describing

/-! The spots of a tree: its nodes where they stand, in the order in which a recursion comes to them. A
spot is told from the others by the numbers of the children on the way to it, so two nodes that are equal
are still two spots, and one spot is above another if the way to it is the beginning of the way to the
other. -/

namespace TextPipeline.Tree

/-- A node where it stands in a tree: the numbers of the children on the way to it from the root, its
number among the children of its parent, and its parent. -/
structure Spot where
  place : List Nat
  node : Node
  index : Option Nat
  parent : Option Node

namespace Spot

/-- What a walk says of the spot when it comes to it. -/
def visit (s : Spot) : Visit := ⟨.node s.node, s.parent, s.index⟩

/-- The same spot as a part of a larger tree, of which the tree is the child of number `i`. -/
def under (i : Nat) (s : Spot) : Spot := { s with place := i :: s.place }

/-- Whether a spot stands above another one. -/
def above (s t : Spot) : Bool := s.place.isPrefixOf t.place && s.place != t.place

variable {i j : Nat} {s t : Spot}

@[simp] theorem place_under : (s.under i).place = i :: s.place := rfl

@[simp] theorem node_under : (s.under i).node = s.node := rfl

@[simp] theorem visit_under : (s.under i).visit = s.visit := rfl

theorem above_under : (s.under i).above (t.under i) = s.above t := by
  simp [above, bne]

/-- Nothing stands above the root. -/
theorem not_above_root (h : t.place = []) : s.above t = false := by
  cases hs : s.place <;> simp [above, h, hs]

/-- The root stands above everything else. -/
theorem root_above (h : s.place = []) (ht : t.place ≠ []) : s.above t = true := by
  simp [above, h, ht.symm]

/-- Spots with other beginnings of their ways do not stand above each other. -/
theorem not_above (h : s.place.head? ≠ t.place.head?) (hs : s.place ≠ []) : s.above t = false := by
  obtain ⟨i, p, hp⟩ := List.exists_cons_of_ne_nil hs
  cases ht : t.place with
  | nil => exact not_above_root ht
  | cons j q =>
    have hij : i ≠ j := by simpa [hp, ht] using h
    simp [above, hp, ht, hij]

end Spot

mutual

/-- The spots of a tree: the root, and then those of its first child, and so on, or in reverse those of its
last child. -/
def spots (reverse : Bool) (index : Option Nat) (parent : Option Node) : Value → List Spot
  | .node ⟨t, .list cs, v, d, p⟩ =>
    ⟨[], ⟨t, .list cs, v, d, p⟩, index, parent⟩ :: spotsAll reverse ⟨t, .list cs, v, d, p⟩ 0 cs
  | .node ⟨t, .sequence kind cs, v, d, p⟩ =>
    ⟨[], ⟨t, .sequence kind cs, v, d, p⟩, index, parent⟩ :: spotsAll reverse ⟨t, .sequence kind cs, v, d, p⟩ 0 cs
  | .node n => [⟨[], n, index, parent⟩]
  | _ => []

/-- The spots below a node, among its children from number `i` on. -/
def spotsAll (reverse : Bool) (parent : Node) (i : Nat) : List Value → List Spot
  | [] => []
  | c :: rest =>
    let first := (spots reverse (some i) (some parent) c).map (Spot.under i)
    let others := spotsAll reverse parent (i + 1) rest
    if reverse then others ++ first else first ++ others

end

variable {reverse : Bool} {index : Option Nat} {parent : Option Node} {n : Node} {cs : List Value}

theorem spots_node (h : Holds n.children cs) :
    spots reverse index parent (.node n) = ⟨[], n, index, parent⟩ :: spotsAll reverse n 0 cs := by
  obtain ⟨t, field, v, d, p⟩ := n
  cases h with
  | list | sequence => rw [spots]
  | absent | set | mapping | str | bytes => simp [spots, spotsAll]

theorem spotsAll_cons (i : Nat) (c : Value) :
    spotsAll false n i (c :: cs) =
      (spots false (some i) (some n) c).map (Spot.under i) ++ spotsAll false n (i + 1) cs := by
  rw [spotsAll]
  rfl

/-- In reverse, the spots below the last child come first. -/
theorem spotsAll_concat (i : Nat) (c : Value) :
    spotsAll true n i (cs ++ [c]) =
      (spots true (some (i + cs.length)) (some n) c).map (Spot.under (i + cs.length)) ++
        spotsAll true n i cs := by
  induction cs generalizing i with
  | nil => simp [spotsAll]
  | cons d cs ih =>
    rw [List.cons_append, spotsAll, spotsAll, ih, List.length_cons, Nat.add_right_comm, Nat.add_assoc]
    simp only [if_true, List.append_assoc]

/-- The ways to the spots below a node start with the numbers of its children. -/
theorem place_of_mem_spotsAll {i : Nat} {s : Spot} (h : s ∈ spotsAll reverse n i cs) :
    ∃ j p, s.place = j :: p ∧ i ≤ j ∧ j < i + cs.length := by
  induction cs generalizing i with
  | nil => simp [spotsAll] at h
  | cons c cs ih =>
    have hmem : s ∈ (spots reverse (some i) (some n) c).map (Spot.under i) ∨
        s ∈ spotsAll reverse n (i + 1) cs := by
      rw [spotsAll] at h
      split at h <;> rcases List.mem_append.mp h with h | h <;> simp only [h, true_or, or_true]
    rw [List.length_cons]
    rcases hmem with hfirst | hrest
    · obtain ⟨t, -, rfl⟩ := List.mem_map.mp hfirst
      exact ⟨i, t.place, rfl, Nat.le_refl i, by omega⟩
    · obtain ⟨j, p, hplace, hle, hlt⟩ := ih hrest
      exact ⟨j, p, hplace, by omega, by omega⟩

theorem place_ne_nil_of_mem_spotsAll {i : Nat} {s : Spot} (h : s ∈ spotsAll reverse n i cs) :
    s.place ≠ [] := by
  obtain ⟨j, p, hplace, -⟩ := place_of_mem_spotsAll h
  rw [hplace]
  exact List.cons_ne_nil j p

theorem exists_of_mem_spotsAll {i : Nat} {s : Spot} (h : s ∈ spotsAll reverse n i cs) :
    ∃ c ∈ cs, ∃ index parent, ∃ t ∈ spots reverse index parent c, t.node = s.node := by
  induction cs generalizing i with
  | nil => simp [spotsAll] at h
  | cons c cs ih =>
    have hmem : s ∈ (spots reverse (some i) (some n) c).map (Spot.under i) ∨
        s ∈ spotsAll reverse n (i + 1) cs := by
      rw [spotsAll] at h
      split at h <;> rcases List.mem_append.mp h with h | h <;> simp only [h, true_or, or_true]
    rcases hmem with hfirst | hrest
    · obtain ⟨t, ht, rfl⟩ := List.mem_map.mp hfirst
      exact ⟨c, List.mem_cons_self, some i, some n, t, ht, rfl⟩
    · obtain ⟨d, hd, hspot⟩ := ih hrest
      exact ⟨d, List.mem_cons_of_mem _ hd, hspot⟩

/-- What is so of every node of a tree is so of those at its spots. -/
theorem Every.of_mem_spots {P : Node → Prop} {tree : Value} (h : Every P tree) {s : Spot}
    (hs : s ∈ spots reverse index parent tree) : P s.node := by
  induction h generalizing index parent s with
  | node hholds hn _ ih =>
    rw [spots_node hholds] at hs
    rcases List.mem_cons.mp hs with rfl | hbelow
    · exact hn
    · obtain ⟨c, hc, _, _, t, ht, hsame⟩ := exists_of_mem_spotsAll hbelow
      exact hsame ▸ ih c hc ht

/-- A walk comes to the spots of a tree in their order. -/
theorem preorder_spots {P : Node → Prop} {tree : Value} (h : Every P tree) (index : Option Nat)
    (parent : Option Node) :
    preorder parent index tree = (spots false index parent tree).map Spot.visit := by
  induction h generalizing index parent with
  | @node n cs hholds hn hcs ih =>
    have hbelow (i : Nat) : preorderAll n i cs = (spotsAll false n i cs).map Spot.visit := by
      clear hholds
      induction cs generalizing i with
      | nil => rw [preorderAll, spotsAll]; rfl
      | cons c cs ihcs =>
        obtain ⟨-, hrest⟩ := List.forall_mem_cons.mp hcs
        obtain ⟨ihc, ihrest⟩ := List.forall_mem_cons.mp ih
        rw [preorderAll, spotsAll_cons, ihc, ihcs hrest ihrest, List.map_append, List.map_map]
        rfl
    rw [hholds.preorder_eq, hbelow, spots_node hholds]
    rfl

end TextPipeline.Tree
