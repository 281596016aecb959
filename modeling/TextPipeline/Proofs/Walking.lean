import Mathlib.Algebra.GroupWithZero.Nat
import TextPipeline.Tree.Literal

/-! A walk over a tree comes to its nodes in the order of the recursion over it. The walk keeps a stack
of nodes still to come, so the statement that is proved by induction speaks of the trees of a whole
stack. -/

namespace TextPipeline

theorem Outcome.of_bind_ok {α β : Type} {x : Outcome α} {f : α → Outcome β} {b : β}
    (h : x >>= f = .ok b) : ∃ a, x = .ok a ∧ f a = .ok b := by
  cases x with
  | error e => cases h
  | ok a => exact ⟨a, rfl, h⟩

theorem Outcome.of_bind_error {α β : Type} {x : Outcome α} {f : α → Outcome β} {e : Fault}
    (h : x >>= f = .error e) : x = .error e ∨ ∃ a, x = .ok a ∧ f a = .error e := by
  cases x with
  | error e' =>
    obtain rfl : e' = e := Except.error.inj h
    exact .inl rfl
  | ok a => exact .inr ⟨a, rfl, h⟩

namespace Tree

mutual

/-- Whether a value is a node, and so are its children at every depth. -/
def IsTree : Value → Prop
  | .node ⟨_, .list cs, _, _, _⟩ => AreTrees cs
  | .node ⟨_, .sequence _ cs, _, _, _⟩ => AreTrees cs
  | .node n => children n = .ok []
  | _ => False

/-- Whether values are trees. -/
def AreTrees : List Value → Prop
  | [] => True
  | c :: rest => IsTree c ∧ AreTrees rest

end

theorem AreTrees.forall {cs : List Value} (h : AreTrees cs) : ∀ c ∈ cs, IsTree c := by
  induction cs with
  | nil => simp
  | cons c cs ih => exact List.forall_mem_cons.mpr ⟨h.1, ih h.2⟩

/-- What a tree is to a walk: a node, its children, and the order of the nodes below it. -/
theorem IsTree.cases {tree : Value} (h : IsTree tree) :
    ∃ n cs, tree = .node n ∧ children n = .ok cs ∧ AreTrees cs ∧ sizeAll cs + 1 ≤ size tree ∧
      ∀ parent index, preorder parent index tree = ⟨tree, parent, index⟩ :: preorderAll n 0 cs := by
  unfold IsTree at h
  split at h
  · exact ⟨_, _, rfl, rfl, h, by simp [size], fun _ _ => by rw [preorder]⟩
  · exact ⟨_, _, rfl, rfl, h, by simp [size], fun _ _ => by rw [preorder]⟩
  · rename_i n hlist hsequence
    refine ⟨n, [], rfl, h, trivial, ?_, fun _ _ => ?_⟩
    · obtain ⟨t, c, v, d, p⟩ := n
      cases c <;> simp [size, sizeAll]
    · rw [preorder, preorderAll]
      · exact fun t cs v d p hn => hlist t cs v d p (Value.node.inj hn)
      · exact fun t kind cs v d p hn => hsequence t kind cs v d p (Value.node.inj hn)
  · exact h.elim

/-- The nodes of the trees on a stack, a tree after the other. -/
def preorderOf (stack : List Visit) : List Visit :=
  stack.flatMap fun visit => preorder visit.parent visit.index visit.node

theorem preorderOf_visits (parent : Node) (i : Nat) (cs : List Value) :
    preorderOf (visits parent i cs) = preorderAll parent i cs := by
  induction cs generalizing i with
  | nil => rw [preorderAll]; rfl
  | cons c cs ih => rw [preorderAll, ← ih]; rfl

theorem map_size_visits (parent : Node) (i : Nat) (cs : List Value) :
    ((visits parent i cs).map (size ·.node)).sum = sizeAll cs := by
  induction cs generalizing i with
  | nil => rfl
  | cons c cs ih => rw [visits, List.map_cons, List.sum_cons, ih, sizeAll]

theorem node_mem_of_mem_visits {parent : Node} {i : Nat} {cs : List Value} {visit : Visit}
    (h : visit ∈ visits parent i cs) : visit.node ∈ cs := by
  induction cs generalizing i with
  | nil => simp [visits] at h
  | cons c cs ih =>
    rcases List.mem_cons.mp h with rfl | h
    · exact List.mem_cons_self
    · exact List.mem_cons_of_mem _ (ih h)

/-- A walk with enough fuel takes the trees on its stack one after the other. -/
theorem walkFrom_preorder {fuel : Nat} {stack : List Visit} (h : ∀ visit ∈ stack, IsTree visit.node)
    (hfuel : (stack.map (size ·.node)).sum ≤ fuel) :
    walkFrom (fun _ n => .ok n) fuel stack = ⟨preorderOf stack, none⟩ := by
  induction fuel generalizing stack with
  | zero =>
    cases stack with
    | nil => rfl
    | cons visit stack =>
      obtain ⟨n, cs, -, -, -, hsize, -⟩ := (h visit (by simp)).cases
      rw [List.map_cons, List.sum_cons] at hfuel
      omega
  | succ fuel ih =>
    cases stack with
    | nil => rfl
    | cons visit stack =>
      obtain ⟨hvisit, hstack⟩ := List.forall_mem_cons.mp h
      obtain ⟨n, cs, hnode, hchildren, hcs, hsize, horder⟩ := hvisit.cases
      rw [List.map_cons, List.sum_cons] at hfuel
      have hbelow : (do
          let edited ← (fun _ n => .ok n : Visit → Node → Outcome Node) visit (← asNode visit.node)
          return visits edited 0 (← children edited)) = .ok (visits n 0 cs) := by
        rw [hnode]
        show (do return visits n 0 (← children n)) = _
        rw [hchildren]
        rfl
      have hall : ∀ v ∈ visits n 0 cs ++ stack, IsTree v.node := fun v hv => by
        rcases List.mem_append.mp hv with hv | hv
        · exact hcs.forall _ (node_mem_of_mem_visits hv)
        · exact hstack v hv
      have hrest := ih hall (by
        rw [List.map_append, List.sum_append, map_size_visits]
        omega)
      have hpre : preorderOf (visit :: stack) =
          visit :: (preorderOf (visits n 0 cs) ++ preorderOf stack) := by
        rw [preorderOf_visits, preorderOf, List.flatMap_cons, horder]
        rfl
      rw [walkFrom, hbelow]
      dsimp only
      rw [hrest, hpre, preorderOf, List.flatMap_append]
      rfl

/-- A walk comes to the nodes of a tree in the order of the recursion over it. -/
theorem walk_preorder {tree : Value} (h : IsTree tree) : walk tree = ⟨preorder none none tree, none⟩ := by
  rw [walk, walkFrom_preorder (by simpa using h) (by simp), preorderOf, List.flatMap_singleton]

theorem collect_preorder {α : Type} {tree : Value} (h : IsTree tree) (f : Node → Outcome (List α)) :
    collect f tree = (do
      let made ← (preorder none none tree).mapM fun visit => do f (← asNode visit.node)
      return made.flatten) := by
  rw [collect, walk_preorder h]

/-- What is made of the nodes of several trees is what is collected of each of them. -/
theorem mapM_preorderAll {α : Type} {f : Node → Outcome (List α)} {cs : List Value} (h : AreTrees cs)
    {made : List (List α)} (hmade : cs.mapM (collect f) = .ok made) (parent : Node) (i : Nat) :
    ∃ all, (preorderAll parent i cs).mapM (fun visit => do f (← asNode visit.node)) = .ok all ∧
      all.flatten = made.flatten := by
  induction cs generalizing i made with
  | nil =>
    obtain rfl : [] = made := Except.ok.inj hmade
    exact ⟨[], rfl, rfl⟩
  | cons c cs ih =>
    obtain ⟨hc, hcs⟩ := h
    rw [List.mapM_cons] at hmade
    obtain ⟨first, hfirst, hmade⟩ := Outcome.of_bind_ok hmade
    obtain ⟨rest, hrest, hmade⟩ := Outcome.of_bind_ok hmade
    obtain rfl : first :: rest = made := Except.ok.inj hmade
    obtain ⟨later, hlater, hflatten⟩ := ih hcs hrest (i + 1)
    rw [collect_preorder hc] at hfirst
    obtain ⟨visited, hvisited, hfirst⟩ := Outcome.of_bind_ok hfirst
    obtain rfl : visited.flatten = first := Except.ok.inj hfirst
    -- where a tree stands does not matter for what is made of its nodes
    obtain ⟨n, ds, -, -, -, -, horder⟩ := hc.cases
    have hplaced : (preorder (some parent) (some i) c).mapM
        (fun visit => do f (← asNode visit.node)) = .ok visited := by
      rw [horder, List.mapM_cons] at hvisited ⊢
      exact hvisited
    refine ⟨visited ++ later, ?_, by rw [List.flatten_append, hflatten, List.flatten_cons]⟩
    rw [preorderAll, List.mapM_append, hplaced, hlater]
    rfl

/-- What is collected of a tree is what its first node gives and then what its children give. -/
theorem collect_node {α : Type} {f : Node → Outcome (List α)} {n : Node} {cs : List Value}
    (htree : IsTree (.node n)) (hcs : children n = .ok cs) {first : List α} (hfirst : f n = .ok first)
    {made : List (List α)} (hmade : cs.mapM (collect f) = .ok made) :
    collect f (.node n) = .ok (first ++ made.flatten) := by
  obtain ⟨m, ds, hm, hds, htrees, -, horder⟩ := htree.cases
  obtain rfl := Value.node.inj hm
  obtain rfl := Except.ok.inj (hds.symm.trans hcs)
  obtain ⟨all, hall, hflatten⟩ := mapM_preorderAll htrees hmade n 0
  have hnode : (do f (← asNode (Value.node n))) = .ok first := hfirst
  rw [collect_preorder htree, horder, List.mapM_cons, hnode, hall, ← hflatten]
  rfl

end Tree

end TextPipeline
