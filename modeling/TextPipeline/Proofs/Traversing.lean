import TextPipeline.Proofs.Inspecting
import TextPipeline.Proofs.Spots

/-! A walk over a tree and what may be done on the way. The walk comes to what stands in the tree in the order
of the places, to each of them once, with its parent and its number. Whoever goes along may change the
value, the data and the position of the node that was just come to, with everything in mind that was come to
before, and the walk goes on as if nothing had been changed. Changing the literals of a tree is such a
walk. -/

namespace TextPipeline.Tree

section Places

variable {tree v : Value} {n : Node} {cs : List Value} {index : Option Nat} {parent : Option Node}
  {place : List Nat}

theorem length_entriesBelow {entries : Entries} {k : Nat} {items : List Value}
    (h : Value.entriesBelow entries k = .ok items) : items.length = k := by
  induction k generalizing items with
  | zero =>
    obtain rfl := Except.ok.inj h
    rfl
  | succ k ih =>
    obtain ⟨last, -, h⟩ := Outcome.of_bind_ok h
    obtain ⟨before, hbefore, h⟩ := Outcome.of_bind_ok h
    obtain rfl := Except.ok.inj h
    rw [List.length_append, ih hbefore, List.length_singleton]

/-- A node without children to walk to has a field for children that holds none. -/
theorem Holds.of_children (h : Tree.children n = .ok []) : Holds n.children [] := by
  obtain ⟨t, field, v, d, p⟩ := n
  cases field with
  | none => exact .absent
  | list items =>
    obtain rfl : items = [] := Except.ok.inj h
    exact .list []
  | sequence kind items =>
    obtain rfl : items = [] := Except.ok.inj h
    exact .sequence kind []
  | set items =>
    cases items with
    | nil => exact .set
    | cons => cases h
  | mapping kind entries =>
    have hlength : ([] : List Value).length = entries.length := length_entriesBelow h
    obtain rfl := List.length_eq_zero_iff.mp hlength.symm
    exact .mapping kind
  | str | bytes => exact .of_iterate h
  | _ => cases h

theorem IsTree.holds (h : IsTree tree) : ∃ n cs, tree = .node n ∧ Holds n.children cs ∧ AreTrees cs := by
  unfold IsTree at h
  split at h
  · exact ⟨_, _, rfl, .list _, h⟩
  · exact ⟨_, _, rfl, .sequence _ _, h⟩
  · exact ⟨_, [], rfl, .of_children h, trivial⟩
  · exact h.elim

theorem IsTree.every (h : IsTree tree) : Every (fun _ => True) tree := by
  induction hsize : sizeOf tree using Nat.strongRecOn generalizing tree with
  | ind size ih =>
    obtain ⟨n, cs, rfl, hholds, hcs⟩ := h.holds
    refine .node hholds trivial fun c hc => ?_
    have htree := hcs.forall c hc
    obtain ⟨m, -, rfl, -, -⟩ := htree.holds
    exact ih _ (hsize ▸ hholds.elements.child_lt hc) htree rfl

theorem mem_spotsAll_iff {i : Nat} {s : Spot} :
    s ∈ spotsAll false n i cs ↔
      ∃ j c t, cs[j]? = some c ∧ t ∈ spots false (some (i + j)) (some n) c ∧ s = t.under (i + j) := by
  induction cs generalizing i with
  | nil => simp [spotsAll]
  | cons c cs ih =>
    rw [spotsAll_cons, List.mem_append, ih, List.mem_map]
    constructor
    · rintro (⟨t, ht, rfl⟩ | ⟨j, d, t, hd, ht, rfl⟩)
      · exact ⟨0, c, t, rfl, ht, rfl⟩
      · exact ⟨j + 1, d, t, by simpa using hd, by rwa [Nat.add_comm j 1, ← Nat.add_assoc],
          by rw [Nat.add_comm j 1, ← Nat.add_assoc]⟩
    · rintro ⟨j, d, t, hd, ht, rfl⟩
      cases j with
      | zero =>
        obtain rfl : c = d := by simpa using hd
        exact .inl ⟨t, ht, rfl⟩
      | succ j =>
        rw [Nat.add_comm j 1, ← Nat.add_assoc] at ht ⊢
        exact .inr ⟨j, d, t, by simpa using hd, ht, rfl⟩

/-- The spots of a tree stand in the order of their places, no two of them at the same place. -/
theorem places_increase {P : Node → Prop} (h : Every P tree) :
    ((spots false index parent tree).map Spot.place).Pairwise (· < ·) := by
  induction h generalizing index parent with
  | @node n cs hholds hn hcs ih =>
    have hbelow (i : Nat) : ((spotsAll false n i cs).map Spot.place).Pairwise (· < ·) := by
      clear hholds
      induction cs generalizing i with
      | nil => simp [spotsAll]
      | cons c cs ihcs =>
        obtain ⟨hc, hrest⟩ := List.forall_mem_cons.mp hcs
        obtain ⟨ihc, ihrest⟩ := List.forall_mem_cons.mp ih
        rw [spotsAll_cons, List.map_append, List.pairwise_append]
        refine ⟨?_, ihcs hrest ihrest (i + 1), ?_⟩
        · rw [List.map_map]
          have hc := @ihc (some i) (some n)
          rw [List.pairwise_map] at hc ⊢
          exact hc.imp fun hlt => List.cons_lt_cons_iff.mpr (.inr ⟨rfl, hlt⟩)
        · -- what stands below a later child starts with a larger number
          intro p hp q hq
          obtain ⟨s, hs, rfl⟩ := List.mem_map.mp hp
          obtain ⟨t, -, rfl⟩ := List.mem_map.mp hs
          obtain ⟨u, hu, rfl⟩ := List.mem_map.mp hq
          obtain ⟨j, q, hplace, hle, -⟩ := place_of_mem_spotsAll hu
          rw [hplace]
          exact List.cons_lt_cons_iff.mpr (.inl (by omega))
    rw [spots_node hholds, List.map_cons, List.pairwise_cons]
    refine ⟨fun p hp => ?_, hbelow 0⟩
    obtain ⟨s, hs, rfl⟩ := List.mem_map.mp hp
    obtain ⟨j, q, hplace, -⟩ := place_of_mem_spotsAll hs
    rw [hplace]
    exact List.nil_lt_cons j q

/-- Everything that stands in a tree stands at one of its spots. -/
theorem Stands.mem_places {P : Node → Prop} (hstands : Stands tree place v) (h : Every P tree) :
    place ∈ (spots false index parent tree).map Spot.place := by
  induction hstands generalizing index parent with
  | root =>
    cases h with
    | node hholds _ _ =>
      rw [spots_node hholds]
      exact List.mem_cons_self
  | @child n cs i c v place hcs hc _ ih =>
    cases h with
    | node hholds _ hevery =>
      obtain rfl := hcs.unique hholds.elements
      have hplace : place ∈ (spots false (some (0 + i)) (some n) c).map Spot.place :=
        ih (hevery c (List.mem_of_getElem? hc))
      obtain ⟨s, hs, rfl⟩ := List.mem_map.mp hplace
      rw [spots_node hholds, List.map_cons]
      refine List.mem_cons_of_mem _ (List.mem_map.mpr ⟨s.under (0 + i), ?_, ?_⟩)
      · exact mem_spotsAll_iff.mpr ⟨i, c, s, hc, hs, rfl⟩
      · rw [Spot.place_under, Nat.zero_add]

/-- What a walk has to say when it comes to what stands at a place: of the root that it has neither a parent
nor a number, and of anything else which child of which node it is. -/
inductive VisitAt (tree : Value) : List Nat → Visit → Prop
  | root : VisitAt tree [] ⟨tree, none, none⟩
  | child {p : Node} {cs : List Value} {i : Nat} {c : Value} {place : List Nat} :
    Stands tree place (.node p) → Elements p.children cs → cs[i]? = some c →
      VisitAt tree (place ++ [i]) ⟨c, some p, some i⟩

/-- Each spot but the root is where it says that it is. -/
theorem visitAt_of_mem_spots {P : Node → Prop} (h : Every P tree) {s : Spot}
    (hs : s ∈ spots false index parent tree) :
    (s.place = [] ∧ s.visit = ⟨tree, parent, index⟩) ∨ (s.place ≠ [] ∧ VisitAt tree s.place s.visit) := by
  induction h generalizing index parent s with
  | @node n cs hholds hn hcs ih =>
    rw [spots_node hholds] at hs
    rcases List.mem_cons.mp hs with rfl | hs
    · exact .inl ⟨rfl, rfl⟩
    · obtain ⟨j, c, t, hc, ht, rfl⟩ := mem_spotsAll_iff.mp hs
      simp only [Nat.zero_add] at ht ⊢
      refine .inr ⟨List.cons_ne_nil _ _, ?_⟩
      rw [Spot.place_under, Spot.visit_under]
      rcases ih c (List.mem_of_getElem? hc) ht with ⟨hplace, hvisit⟩ | ⟨hplace, hvisit⟩
      · rw [hplace, hvisit]
        rw [← List.nil_append [j]]
        exact .child (.root _) hholds.elements hc
      · generalize t.place = place, t.visit = visit at hplace hvisit
        cases hvisit with
        | root => exact absurd rfl hplace
        | child hstands hds hd =>
          rw [← List.cons_append]
          exact .child (.child hholds.elements hc hstands) hds hd

end Places

section Along

/-- Walks the nodes on `stack`, at most `fuel` of them, as `walkFrom` does. What becomes of a node may depend
on everything that was `seen` before. -/
def walkAlong (edit : List Visit → Visit → Node → Outcome Node) :
    Nat → List Visit → List Visit → Walked
  | _, _, [] => ⟨[], none⟩
  | 0, _, _ :: _ => ⟨[], some endless⟩
  | fuel + 1, seen, visit :: stack =>
    let below := do
      let edited ← edit seen visit (← asNode visit.node)
      return visits edited 0 (← children edited)
    match below with
    | .ok below => (walkAlong edit fuel (seen ++ [visit]) (below ++ stack)).after visit
    | .error fault => ⟨[visit], some fault⟩

theorem walkFrom_eq_walkAlong (edit : Visit → Node → Outcome Node) (fuel : Nat) (seen stack : List Visit) :
    walkFrom edit fuel stack = walkAlong (fun _ => edit) fuel seen stack := by
  induction fuel generalizing seen stack with
  | zero => cases stack <;> rfl
  | succ fuel ih =>
    cases stack with
    | nil => rfl
    | cons visit stack =>
      have hrest : walkFrom edit fuel = walkAlong (fun _ => edit) fuel (seen ++ [visit]) :=
        funext (ih (seen ++ [visit]))
      rw [walkAlong, ← hrest]
      rfl

/-- Changes of the value, the data and the position of the nodes that a walk comes to. -/
structure Touch where
  value : List Visit → Visit → Node → Value
  data : List Visit → Visit → Node → Value
  position : List Visit → Visit → Node → Value

namespace Touch

variable (r : Touch)

/-- A node after the change. -/
def apply (seen : List Visit) (visit : Visit) (n : Node) : Node :=
  { n with
    value := r.value seen visit n
    data := r.data seen visit n
    position := r.position seen visit n }

/-- The change as something that is done on a walk, which it never ends. -/
def edit (seen : List Visit) (visit : Visit) (n : Node) : Outcome Node := .ok (r.apply seen visit n)

end Touch

variable (r : Touch)

mutual

/-- A tree by recursion, with a change of each node when it is come to: a node, then its first child with
everything below, and so on. The children are told their parent as the change left it. -/
def tour (seen : List Visit) (parent : Option Node) (index : Option Nat) : Value → List Visit
  | .node ⟨t, .list cs, v, d, p⟩ =>
    let visit : Visit := ⟨.node ⟨t, .list cs, v, d, p⟩, parent, index⟩
    visit :: tourAll (seen ++ [visit]) (r.apply seen visit ⟨t, .list cs, v, d, p⟩) 0 cs
  | .node ⟨t, .sequence kind cs, v, d, p⟩ =>
    let visit : Visit := ⟨.node ⟨t, .sequence kind cs, v, d, p⟩, parent, index⟩
    visit :: tourAll (seen ++ [visit]) (r.apply seen visit ⟨t, .sequence kind cs, v, d, p⟩) 0 cs
  | tree => [⟨tree, parent, index⟩]

/-- The same of the children of `parent` from number `i` on, one after the other. -/
def tourAll (seen : List Visit) (parent : Node) (i : Nat) : List Value → List Visit
  | [] => []
  | c :: rest =>
    let first := tour seen (some parent) (some i) c
    first ++ tourAll (seen ++ first) parent (i + 1) rest

end

/-- The same of the trees on a stack. -/
def tourOf (seen : List Visit) : List Visit → List Visit
  | [] => []
  | visit :: stack =>
    let first := tour r seen visit.parent visit.index visit.node
    first ++ tourOf (seen ++ first) stack

variable {r} {n : Node} {cs : List Value} {seen : List Visit} {parent : Option Node} {index : Option Nat}

theorem tour_node (h : Holds n.children cs) :
    tour r seen parent index (.node n) = ⟨.node n, parent, index⟩ ::
      tourAll r (seen ++ [⟨.node n, parent, index⟩]) (r.apply seen ⟨.node n, parent, index⟩ n) 0 cs := by
  obtain ⟨t, field, v, d, p⟩ := n
  cases h with
  | list | sequence => rw [tour]
  | absent | set | mapping | str | bytes => simp [tour, tourAll]

theorem tourOf_append (stack later : List Visit) :
    tourOf r seen (stack ++ later) = tourOf r seen stack ++ tourOf r (seen ++ tourOf r seen stack) later := by
  induction stack generalizing seen with
  | nil => simp [tourOf]
  | cons visit stack ih => simp only [List.cons_append, tourOf, ih, List.append_assoc]

theorem tourOf_visits (p : Node) (i : Nat) (cs : List Value) :
    tourOf r seen (visits p i cs) = tourAll r seen p i cs := by
  induction cs generalizing seen i with
  | nil => rw [visits, tourOf, tourAll]
  | cons c cs ih => rw [visits, tourOf, tourAll, ih]

/-- A walk with enough fuel takes the trees on its stack one after the other, whatever is changed on the
way. -/
theorem walkAlong_touch {fuel : Nat} {stack : List Visit} (h : ∀ visit ∈ stack, IsTree visit.node)
    (hfuel : (stack.map (size ·.node)).sum ≤ fuel) :
    walkAlong r.edit fuel seen stack = ⟨tourOf r seen stack, none⟩ := by
  induction fuel generalizing seen stack with
  | zero =>
    cases stack with
    | nil => rfl
    | cons visit stack =>
      obtain ⟨n, cs, hnode, hholds, -⟩ := (h visit List.mem_cons_self).holds
      have hsize := hholds.size_le
      rw [List.map_cons, List.sum_cons, hnode] at hfuel
      omega
  | succ fuel ih =>
    cases stack with
    | nil => rfl
    | cons visit stack =>
      obtain ⟨hvisit, hstack⟩ := List.forall_mem_cons.mp h
      obtain ⟨n, cs, hnode, hholds, hcs⟩ := hvisit.holds
      have hsize := hholds.size_le
      rw [List.map_cons, List.sum_cons, hnode] at hfuel
      -- the change leaves the children alone
      have hbelow : (do
          let edited ← r.edit seen visit (← asNode visit.node)
          return visits edited 0 (← children edited)) = .ok (visits (r.apply seen visit n) 0 cs) := by
        have hchildren : children (r.apply seen visit n) = .ok cs := hholds.children
        rw [hnode]
        show (do return visits (r.apply seen visit n) 0 (← children (r.apply seen visit n))) = _
        rw [hchildren]
        rfl
      have hall : ∀ v ∈ visits (r.apply seen visit n) 0 cs ++ stack, IsTree v.node := by
        intro v hv
        rcases List.mem_append.mp hv with hv | hv
        · exact hcs.forall _ (node_mem_of_mem_visits hv)
        · exact hstack v hv
      have hrest := @ih (seen ++ [visit]) _ hall (by
        rw [List.map_append, List.sum_append, map_size_visits]
        omega)
      have hvisit : visit = ⟨.node n, visit.parent, visit.index⟩ := by rw [← hnode]
      rw [walkAlong, hbelow]
      dsimp only
      rw [hrest, tourOf_append, tourOf_visits, tourOf, hnode, tour_node hholds, ← hvisit]
      simp only [Walked.after, List.cons_append, List.append_assoc, List.nil_append]

/-- What a walk says when it comes to a node, apart from the value, the data and the position of its
parent. -/
def Visit.outline (visit : Visit) : Value × Option Nat × Option (Value × Value) :=
  (visit.node, visit.index, visit.parent.map fun p => (p.type, p.children))

/-- What is changed on the way is seen by nobody who looks at what is come to and where. -/
theorem tour_outline {P : Node → Prop} {tree : Value} (h : Every P tree) {parent' : Option Node}
    (hparent : parent.map (fun p => (p.type, p.children)) = parent'.map fun p => (p.type, p.children)) :
    (tour r seen parent index tree).map Visit.outline =
      (preorder parent' index tree).map Visit.outline := by
  induction h generalizing seen parent index parent' with
  | @node n cs hholds _ hcs ih =>
    have hbelow (seen : List Visit) (p p' : Node) (hp : (p.type, p.children) = (p'.type, p'.children))
        (i : Nat) : (tourAll r seen p i cs).map Visit.outline =
          (preorderAll p' i cs).map Visit.outline := by
      clear hholds
      induction cs generalizing seen i with
      | nil => rw [tourAll, preorderAll]
      | cons c cs ihcs =>
        obtain ⟨-, hrest⟩ := List.forall_mem_cons.mp hcs
        obtain ⟨ihc, ihrest⟩ := List.forall_mem_cons.mp ih
        have hparents : (some p).map (fun p => (p.type, p.children)) =
            (some p').map fun p => (p.type, p.children) := congrArg some hp
        rw [tourAll, preorderAll, List.map_append, List.map_append, ihcs hrest ihrest, ihc hparents]
    rw [tour_node hholds, hholds.preorder_eq, List.map_cons, List.map_cons, hbelow _ (r.apply seen _ n) n rfl 0]
    simp only [Visit.outline, hparent]

end Along

section Literals

/-- Whether a node is a literal that is to be changed: it has a value, and the type asked for if there is
one. -/
def isWanted (only : Option Value) (n : Node) : Bool :=
  n.isLiteral && (match only with | none => true | some t => n.type.equals t)

/-- The same of what a walk comes to. -/
def Visit.isWanted (only : Option Value) (visit : Visit) : Bool :=
  match visit.node with
  | .node n => Tree.isWanted only n
  | _ => false

/-- Two fields for children that are alike but for the children: both hold equally many of them in a list or
in a sequence of one type, or they are the same. -/
inductive SameShape : Value → Value → Prop
  | list {cs ds : List Value} : cs.length = ds.length → SameShape (.list cs) (.list ds)
  | sequence {kind : SequenceKind} {cs ds : List Value} : cs.length = ds.length →
    SameShape (.sequence kind cs) (.sequence kind ds)
  | same (field : Value) : SameShape field field

variable (g : Node → Value) (only : Option Value)

/-- A node, and what it is after its value was changed if it is wanted: all else is as it was. -/
structure Rewritten (n m : Node) : Prop where
  type : m.type = n.type
  children : SameShape n.children m.children
  value : m.value = if isWanted only n then g n else n.value
  data : m.data = n.data
  position : m.position = n.position

/-- A tree, and what it is after the wanted literals were changed: nodes stand in it where nodes stood, and
they are what became of these. -/
structure Changed (tree tree' : Value) : Prop where
  kept : ∀ place n, Stands tree place (.node n) →
    ∃ m, Stands tree' place (.node m) ∧ Rewritten g only n m
  added : ∀ place v, Stands tree' place v → ∃ n, Stands tree place (.node n)

/-- One node after the change of its value. -/
def changedNode (n : Node) : Node := if isWanted only n then { n with value := g n } else n

variable {g only}

variable (only) in
theorem mapNode_if (f : Node → Outcome Value) (n : Node) : mapNode f only n =
    if isWanted only n then (f n).map fun v => ({ n with value := v }, 1) else .ok (n, 0) := by
  show (if isWanted only n then _ else _) = _
  split
  · cases f n <;> rfl
  · rfl

variable (g only) in
theorem mapNode_eq (n : Node) : mapNode (fun n => .ok (g n)) only n =
    .ok (changedNode g only n, if isWanted only n then 1 else 0) := by
  rw [mapNode_if, changedNode]
  split <;> rfl

theorem changedNode_children (n : Node) : (changedNode g only n).children = n.children := by
  unfold changedNode
  split <;> rfl

/-- A changed node with other children in the place of its own. -/
theorem rewritten_changedNode {n : Node} {field : Value} (h : SameShape n.children field) :
    Rewritten g only n { changedNode g only n with children := field } := by
  unfold changedNode
  constructor
  · split <;> rfl
  · exact h
  · split <;> rfl
  · split <;> rfl
  · split <;> rfl

/-- A tree is changed if its root is, and each of its children. -/
theorem Changed.node {n m : Node} {cs ds : List Value} (hcs : Elements n.children cs)
    (hds : Elements m.children ds) (hroot : Rewritten g only n m)
    (hbelow : List.Forall₂ (Changed g only) cs ds) : Changed g only (.node n) (.node m) := by
  have hlength := hbelow.length_eq
  constructor
  · intro place p hstands
    cases hstands with
    | root => exact ⟨m, .root _, hroot⟩
    | @child _ es i c _ place hes hc hc' =>
      obtain rfl := hcs.unique hes
      obtain ⟨hi, rfl⟩ := List.getElem?_eq_some_iff.mp hc
      have hchild : Changed g only cs[i] ds[i] := hbelow.get hi (hlength ▸ hi)
      obtain ⟨q, hq, hrewritten⟩ := hchild.kept place p hc'
      exact ⟨q, .child hds (List.getElem?_eq_getElem (hlength ▸ hi)) hq, hrewritten⟩
  · intro place v hstands
    cases hstands with
    | root => exact ⟨n, .root _⟩
    | @child _ es i c _ place hes hc hc' =>
      obtain rfl := hds.unique hes
      obtain ⟨hi, rfl⟩ := List.getElem?_eq_some_iff.mp hc
      have hchild : Changed g only cs[i] ds[i] := hbelow.get (hlength ▸ hi) hi
      obtain ⟨p, hp⟩ := hchild.added place v hc'
      exact ⟨p, .child hcs (List.getElem?_eq_getElem (hlength ▸ hi)) hp⟩

variable (g only) in
/-- What is made of a tree by changing its literals: the tree that results, and the number of literals
changed, which are those wanted among the nodes that a walk comes to. -/
def Maps (M : Type → Type) [Monad M] (tree : Value) : Prop :=
  ∃ tree' k, Changed g only tree tree' ∧
    (∀ parent index, (preorder parent index tree).countP (Visit.isWanted only) = k) ∧
    ∀ shared : Handle → M Mapped,
      mapLiteralsWith shared (fun n => .ok (g n)) only tree = pure ⟨tree', k, none⟩

variable {M : Type → Type} [Monad M] [LawfulMonad M]

theorem mapLiteralsAll_maps {cs : List Value} (h : ∀ c ∈ cs, Maps g only M c) :
    ∃ ds k, List.Forall₂ (Changed g only) cs ds ∧
      (∀ parent i, (preorderAll parent i cs).countP (Visit.isWanted only) = k) ∧
      ∀ shared : Handle → M Mapped,
        mapLiteralsAll shared (fun n => .ok (g n)) only cs = pure (ds, k, none) := by
  induction cs with
  | nil => exact ⟨[], 0, .nil, fun _ _ => by rw [preorderAll]; rfl, fun _ => rfl⟩
  | cons c cs ih =>
    obtain ⟨hc, hrest⟩ := List.forall_mem_cons.mp h
    obtain ⟨c', k, hchanged, hcount, hmap⟩ := hc
    obtain ⟨ds, l, hall, hcounts, hmaps⟩ := ih hrest
    refine ⟨c' :: ds, k + l, .cons hchanged hall, fun parent i => ?_, fun shared => ?_⟩
    · rw [preorderAll, List.countP_append, hcount, hcounts]
    · rw [mapLiteralsAll, hmap shared, pure_bind]
      dsimp only
      rw [hmaps shared, pure_bind]

theorem mapNode_children {f : Node → Outcome Value} {n m : Node} {k : Nat}
    (h : mapNode f only n = .ok (m, k)) : m.children = n.children := by
  rw [mapNode_if] at h
  split at h
  · cases hf : f n with
    | ok v =>
      rw [hf] at h
      obtain ⟨rfl, -⟩ := Prod.mk.inj (Except.ok.inj h)
      rfl
    | error fault =>
      rw [hf] at h
      cases h
  · obtain ⟨rfl, -⟩ := Prod.mk.inj (Except.ok.inj h)
    rfl

/-- Of a node without children only the node itself is changed. -/
theorem mapLiteralsWith_leaf {f : Node → Outcome Value} {n : Node} (hlist : ∀ cs, n.children ≠ .list cs)
    (hsequence : ∀ kind cs, n.children ≠ .sequence kind cs) (h : Holds n.children [])
    (shared : Handle → M Mapped) :
    mapLiteralsWith shared f only (.node n) =
      match mapNode f only n with
      | .error fault => pure ⟨.node n, 0, some fault⟩
      | .ok (m, k) => pure ⟨.node m, k, none⟩ := by
  have hchildren (m : Node) (k : Nat) (hm : mapNode f only n = .ok (m, k)) : children m = .ok [] :=
    Holds.children (by rw [mapNode_children hm]; exact h)
  have hfield (m : Node) (k : Nat) (hm : mapNode f only n = .ok (m, k)) : m.children = n.children :=
    mapNode_children hm
  obtain ⟨t, field, v, d, p⟩ := n
  rcases hnode : mapNode f only ⟨t, field, v, d, p⟩ with fault | ⟨m, k⟩
  · cases h with
    | list => exact absurd rfl (hlist [])
    | sequence kind => exact absurd rfl (hsequence kind [])
    | mapping | absent | set | str | bytes =>
      unfold mapLiteralsWith
      simp only [hnode]
  · cases h with
    | list => exact absurd rfl (hlist [])
    | sequence kind => exact absurd rfl (hsequence kind [])
    | mapping kind =>
      unfold mapLiteralsWith
      simp only [hnode, hchildren m k hnode, mapLiteralsEntries, pure_bind]
      have hm : m.children = .mapping kind [] := hfield m k hnode
      show pure (Mapped.mk (.node { m with children := .mapping kind [] }) k none) = _
      rw [← hm]
    | absent | set | str | bytes =>
      unfold mapLiteralsWith
      simp only [hnode, hchildren m k hnode]

/-- Changing the literals of a tree changes those that are wanted, and nothing else. -/
theorem Every.maps {P : Node → Prop} {tree : Value} (h : Every P tree) : Maps g only M tree := by
  induction h with
  | @node n cs hholds _ _ ih =>
    obtain ⟨ds, k, hbelow, hcount, hmaps⟩ := mapLiteralsAll_maps ih
    have hwanted (parent : Option Node) (index : Option Nat) :
        (preorder parent index (.node n)).countP (Visit.isWanted only) =
          (if isWanted only n then 1 else 0) + k := by
      rw [hholds.preorder_eq, List.countP_cons, hcount, Nat.add_comm]
      rfl
    have hlength := hbelow.length_eq
    have hnode := mapNode_eq g only n
    by_cases hchildless : (∀ cs, n.children ≠ .list cs) ∧ ∀ kind cs, n.children ≠ .sequence kind cs
    · obtain ⟨hlist, hsequence⟩ := hchildless
      obtain rfl : cs = [] := by
        generalize n.children = field at hholds hlist hsequence
        cases hholds with
        | list => exact absurd rfl (hlist cs)
        | sequence kind => exact absurd rfl (hsequence kind cs)
        | _ => rfl
      have hroot : Rewritten g only n (changedNode g only n) := by
        have hsame : { changedNode g only n with children := n.children } = changedNode g only n := by
          have hchildren : (changedNode g only n).children = n.children := changedNode_children n
          rw [← hchildren]
        exact hsame ▸ rewritten_changedNode (.same n.children)
      refine ⟨_, _, .node hholds.elements ?_ hroot .nil, fun parent index => ?_, fun shared => by
        rw [mapLiteralsWith_leaf hlist hsequence hholds, hnode]⟩
      · rw [changedNode_children]
        exact hholds.elements
      · rw [hwanted, ← hcount n 0, preorderAll]
        rfl
    · obtain ⟨t, field, v, d, p⟩ := n
      cases hholds with
      | list =>
        refine ⟨_, _, .node (.list cs) (.list ds) (rewritten_changedNode (.list hlength)) hbelow, hwanted,
          fun shared => ?_⟩
        rw [mapLiteralsWith, hnode]
        dsimp only
        rw [hmaps shared, pure_bind]
      | sequence kind =>
        refine ⟨_, _, .node (.sequence kind cs) (.sequence kind ds)
          (rewritten_changedNode (.sequence hlength)) hbelow, hwanted, fun shared => ?_⟩
        rw [mapLiteralsWith, hnode]
        dsimp only
        rw [hmaps shared, pure_bind]
      | absent | set | mapping | str | bytes => exact absurd (by simp) hchildless

/-- What is asked of the wanted nodes among those that a walk comes to, one after the other: how many of
them answer, and the fault of the first that does not, which ends it. -/
def asksAlong (f : Node → Outcome Value) (only : Option Value) : List Visit → Nat × Option Fault
  | [] => (0, none)
  | visit :: rest =>
    match visit.node with
    | .node n =>
      if isWanted only n then
        match f n with
        | .ok _ => ((asksAlong f only rest).1 + 1, (asksAlong f only rest).2)
        | .error fault => (0, some fault)
      else asksAlong f only rest
    | _ => asksAlong f only rest

theorem asksAlong_append (f : Node → Outcome Value) (first later : List Visit) :
    asksAlong f only (first ++ later) =
      match asksAlong f only first with
      | (k, some fault) => (k, some fault)
      | (k, none) => (k + (asksAlong f only later).1, (asksAlong f only later).2) := by
  induction first with
  | nil => simp [asksAlong]
  | cons visit first ih =>
    rw [List.cons_append, asksAlong, asksAlong]
    split
    · split
      · split
        · rw [ih]
          split <;> rename_i hfirst <;> simp only [hfirst]
          rw [Nat.add_right_comm]
        · rfl
      · exact ih
    · exact ih

variable (only) in
/-- Changing the literals of a tree asks for the values of the wanted ones along the walk. -/
def Asks (M : Type → Type) [Monad M] (f : Node → Outcome Value) (tree : Value) : Prop :=
  ∃ tree' calls, (∀ parent index, asksAlong f only (preorder parent index tree) = calls) ∧
    ∀ shared : Handle → M Mapped, mapLiteralsWith shared f only tree = pure ⟨tree', calls.1, calls.2⟩

theorem mapLiteralsAll_asks {f : Node → Outcome Value} {cs : List Value} (h : ∀ c ∈ cs, Asks only M f c) :
    ∃ ds calls, (∀ parent i, asksAlong f only (preorderAll parent i cs) = calls) ∧
      ∀ shared : Handle → M Mapped, mapLiteralsAll shared f only cs = pure (ds, calls.1, calls.2) := by
  induction cs with
  | nil => exact ⟨[], (0, none), fun _ _ => by rw [preorderAll]; rfl, fun _ => rfl⟩
  | cons c cs ih =>
    obtain ⟨⟨c', ⟨k, fault⟩, hfirst, hmap⟩, hrest⟩ := List.forall_mem_cons.mp h
    obtain ⟨ds, later, hlater, hmaps⟩ := ih hrest
    cases fault with
    | some fault =>
      refine ⟨c' :: cs, (k, some fault), fun parent i => ?_, fun shared => ?_⟩
      · rw [preorderAll, asksAlong_append, hfirst]
      · rw [mapLiteralsAll, hmap shared, pure_bind]
    | none =>
      refine ⟨c' :: ds, (k + later.1, later.2), fun parent i => ?_, fun shared => ?_⟩
      · rw [preorderAll, asksAlong_append, hfirst, hlater]
      · rw [mapLiteralsAll, hmap shared, pure_bind]
        dsimp only
        rw [hmaps shared, pure_bind]

variable (only) in
/-- A node is asked if it is wanted, and what comes after it if it answers. -/
theorem mapNode_asks (f : Node → Outcome Value) (n : Node) (rest : List Visit) (parent : Option Node)
    (index : Option Nat) :
    (∃ m k, mapNode f only n = .ok (m, k) ∧
      asksAlong f only (⟨.node n, parent, index⟩ :: rest) =
        (k + (asksAlong f only rest).1, (asksAlong f only rest).2)) ∨
    ∃ fault, mapNode f only n = .error fault ∧
      asksAlong f only (⟨.node n, parent, index⟩ :: rest) = (0, some fault) := by
  rw [mapNode_if, asksAlong]
  cases hwanted : isWanted only n with
  | false => exact .inl ⟨n, 0, rfl, by simp [hwanted]⟩
  | true =>
    cases hf : f n with
    | ok v => exact .inl ⟨{ n with value := v }, 1, rfl, by simp [hwanted, hf, Nat.add_comm]⟩
    | error fault => exact .inr ⟨fault, rfl, by simp [hwanted, hf]⟩

/-- A node with a row of children is asked before these. -/
theorem Asks.of_row {f : Node → Outcome Value} {n : Node} {cs : List Value} (hholds : Holds n.children cs)
    (hbelow : ∀ c ∈ cs, Asks only M f c) (row : List Value → Value)
    (hmap : ∀ shared : Handle → M Mapped, mapLiteralsWith shared f only (.node n) =
      match mapNode f only n with
      | .error fault => pure ⟨.node n, 0, some fault⟩
      | .ok (m, k) => do
        let (below, count, fault) ← mapLiteralsAll shared f only cs
        return ⟨.node { m with children := row below }, k + count, fault⟩) :
    Asks only M f (.node n) := by
  obtain ⟨ds, calls, hcalls, hmaps⟩ := mapLiteralsAll_asks hbelow
  have hasks := mapNode_asks only f n (preorderAll n 0 cs)
  rcases hnode : mapNode f only n with fault | ⟨m, k⟩
  · refine ⟨.node n, (0, some fault), fun parent index => ?_, fun shared => by rw [hmap, hnode]⟩
    rcases hasks parent index with ⟨m, k, hm, -⟩ | ⟨fault', hf, hasked⟩
    · cases hm.symm.trans hnode
    · cases hf.symm.trans hnode
      rw [hholds.preorder_eq, hasked]
  · refine ⟨.node { m with children := row ds }, (k + calls.1, calls.2), fun parent index => ?_,
      fun shared => ?_⟩
    · rcases hasks parent index with ⟨m', k', hm, hasked⟩ | ⟨fault, hf, -⟩
      · cases hm.symm.trans hnode
        rw [hholds.preorder_eq, hasked, hcalls]
      · cases hf.symm.trans hnode
    · rw [hmap, hnode]
      dsimp only
      rw [hmaps shared, pure_bind]

/-- A node without children is the only one that is asked. -/
theorem Asks.of_leaf {f : Node → Outcome Value} {n : Node} (hlist : ∀ cs, n.children ≠ .list cs)
    (hsequence : ∀ kind cs, n.children ≠ .sequence kind cs) (h : Holds n.children []) :
    Asks only M f (.node n) := by
  have hasks := mapNode_asks only f n (preorderAll n 0 [])
  have hrest : asksAlong f only (preorderAll n 0 []) = (0, none) := by rw [preorderAll]; rfl
  rcases hnode : mapNode f only n with fault | ⟨m, k⟩
  · refine ⟨.node n, (0, some fault), fun parent index => ?_, fun shared => by
      rw [mapLiteralsWith_leaf hlist hsequence h, hnode]⟩
    rcases hasks parent index with ⟨m, k, hm, -⟩ | ⟨fault', hf, hasked⟩
    · cases hm.symm.trans hnode
    · cases hf.symm.trans hnode
      rw [h.preorder_eq, hasked]
  · refine ⟨.node m, (k, none), fun parent index => ?_, fun shared => by
      rw [mapLiteralsWith_leaf hlist hsequence h, hnode]⟩
    rcases hasks parent index with ⟨m', k', hm, hasked⟩ | ⟨fault, hf, -⟩
    · cases hm.symm.trans hnode
      rw [h.preorder_eq, hasked, hrest]
      rfl
    · cases hf.symm.trans hnode

theorem Every.asks {P : Node → Prop} {tree : Value} (h : Every P tree) (f : Node → Outcome Value) :
    Asks only M f tree := by
  induction h with
  | @node n cs hholds _ _ ih =>
    obtain ⟨t, field, v, d, p⟩ := n
    cases hholds with
    | list => exact .of_row (.list cs) ih .list fun shared => by unfold mapLiteralsWith; rfl
    | sequence kind =>
      exact .of_row (.sequence kind cs) ih (.sequence kind) fun shared => by unfold mapLiteralsWith; rfl
    | absent => exact .of_leaf (by simp) (by simp) .absent
    | set => exact .of_leaf (by simp) (by simp) .set
    | mapping kind => exact .of_leaf (by simp) (by simp) (.mapping kind)
    | str => exact .of_leaf (by simp) (by simp) .str
    | bytes => exact .of_leaf (by simp) (by simp) .bytes

/-- Changing the literals of a tree asks for the values of those that are wanted in the order in which a
walk comes to them, up to the first for which there is none. -/
theorem mapLiterals_asks {tree : Value} (h : IsTree tree) (f : Node → Outcome Value) :
    ∃ tree', mapLiterals f only tree =
      ⟨tree', (asksAlong f only (walk tree).visits).1, (asksAlong f only (walk tree).visits).2⟩ := by
  obtain ⟨tree', calls, hcalls, hmap⟩ : Asks only Id f tree := h.every.asks f
  refine ⟨tree', ?_⟩
  rw [walk_preorder h, hcalls none none]
  exact hmap _

end Literals

/-- A walk over a tree ends, and comes to what a recursion over the tree comes to: to everything that stands
in it in the order of the places, to each place once, with its parent and its number there. This stays so if
the value, the data and the position of each node are changed when it was come to. Changing the literals of
the tree makes of each wanted one what is asked for of it, tells how many these are, and changes nothing
else. -/
theorem walk_in_order {tree : Value} (h : IsTree tree) :
    walk tree = ⟨preorder none none tree, none⟩ ∧
    (∃ places : List (List Nat), places.Pairwise (· < ·) ∧
      List.Forall₂ (VisitAt tree) places (preorder none none tree) ∧
      ∀ place v, Stands tree place v → place ∈ places) ∧
    (∀ (r : Touch) (fuel : Nat), size tree ≤ fuel →
      walkAlong r.edit fuel [] [⟨tree, none, none⟩] = ⟨tour r [] none none tree, none⟩ ∧
      (tour r [] none none tree).map Visit.outline = (preorder none none tree).map Visit.outline) ∧
    (∀ edit fuel stack, walkFrom edit fuel stack = walkAlong (fun _ => edit) fuel [] stack) ∧
    ∀ (g : Node → Value) (only : Option Value), ∃ tree',
      mapLiterals (fun n => .ok (g n)) only tree =
        ⟨tree', (walk tree).visits.countP (Visit.isWanted only), none⟩ ∧
      Changed g only tree tree' := by
  have hevery := h.every
  have hwalk := walk_preorder h
  refine ⟨hwalk, ⟨(spots false none none tree).map Spot.place, places_increase hevery, ?_,
    fun place v hstands => hstands.mem_places hevery⟩, fun r fuel hfuel => ⟨?_, tour_outline hevery rfl⟩,
    fun edit fuel stack => walkFrom_eq_walkAlong edit fuel [] stack, fun g only => ?_⟩
  · rw [preorder_spots hevery, List.forall₂_map_left_iff, List.forall₂_map_right_iff, List.forall₂_same]
    intro s hs
    rcases visitAt_of_mem_spots hevery hs with ⟨hplace, hvisit⟩ | ⟨-, hvisit⟩
    · rw [hplace, hvisit]
      exact .root
    · exact hvisit
  · rw [walkAlong_touch (by simpa using h) (by simpa using hfuel)]
    simp [tourOf]
  · obtain ⟨tree', k, hchanged, hcount, hmap⟩ : Maps g only Id tree := hevery.maps
    refine ⟨tree', ?_, hchanged⟩
    rw [hwalk, hcount none none]
    exact hmap _

/-- A tree with literals of two types at two depths. -/
def nested : Value :=
  .node (.parent "root" [
    .node (.literal "text" "a" .none),
    .node (.parent "emphasis" [.node (.literal "text" "b" .none)] .none),
    .node (.literal "code" "c" .none)] .none)

theorem walk_in_order_nested : IsTree nested ∧ walk nested = ⟨preorder none none nested, none⟩ ∧
    ∃ tree', mapLiterals (fun n => .ok n.type) (some (.str "text")) nested = ⟨tree', 2, none⟩ ∧
      Changed (fun n => n.type) (some (.str "text")) nested tree' := by
  have htree : IsTree nested := by
    simp [nested, IsTree, AreTrees, NodeOf.parent, NodeOf.literal, children, Value.isNone]
  obtain ⟨hwalk, -, -, -, hmap⟩ := walk_in_order htree
  obtain ⟨tree', hmap, hchanged⟩ := hmap (fun n => n.type) (some (.str "text"))
  have hcount : (walk nested).visits.countP (Visit.isWanted (some (.str "text"))) = 2 := by
    rw [hwalk]
    simp [nested, preorder, preorderAll, NodeOf.parent, NodeOf.literal, Visit.isWanted, isWanted,
      NodeOf.isLiteral, Value.isNone, Value.equals, Value.equalsWith]
  rw [hcount] at hmap
  exact ⟨htree, hwalk, tree', hmap, hchanged⟩

end TextPipeline.Tree
