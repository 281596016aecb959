import TextPipeline.Proofs.Locating

/-! Where a tree is not well formed. The elements of a tree stand at places, the numbers of the children on
the way to them, and in the order of a recursion over the tree a node comes before its children and the
children in order, which is the lexicographic order of places. Of each element one thing after the other is
checked; what the check of a tree reports is the first of them that fails at the first element of which one
does. -/

namespace TextPipeline

theorem Value.isNone_eq_false_iff {v : Value} : v.isNone = false ↔ v ≠ .none := by
  cases v <;> simp [isNone]

namespace Tree

open Value

/-- The children that the field of a node for them gives: those of a list or another sequence, none if it
is absent, and what any other collection holds, which are things that can be keys and never nodes. -/
inductive Elements : Value → List Value → Prop
  | absent : Elements .none []
  | list (cs : List Value) : Elements (.list cs) cs
  | sequence (kind : SequenceKind) (cs : List Value) : Elements (.sequence kind cs) cs
  | other {field : Value} {cs : List Value} :
    field.iterate = .ok cs → (∀ c ∈ cs, c.isKey = true) → Elements field cs

/-- What stands at a place of a tree, a node or not. -/
inductive Stands : Value → List Nat → Value → Prop
  | root (tree : Value) : Stands tree [] tree
  | child {n : Node} {cs : List Value} {i : Nat} {c v : Value} {place : List Nat} :
    Elements n.children cs → cs[i]? = some c → Stands c place v → Stands (.node n) (i :: place) v

/-- Whether the children of every node of a tree can be gone through. -/
def HasChildLists (tree : Value) : Prop :=
  ∀ place n, Stands tree place (.node n) → ∃ cs, Elements n.children cs

/-- The name of what stands at a place, if `path` is the name of the tree. -/
def placeName (path : String) (place : List Nat) : String := place.foldl childPath path

/-- The first check of an element of a tree that fails, with what is appended to the name of the element to
name what is wrong, and what is said of it. -/
inductive Flaw : Value → String → (String → Fault) → Prop
  | stray {v : Value} : (∀ n, v ≠ .node n) → Flaw v "" (strayValue · v)
  | type {n : Node} : (∀ t, n.type = .str t → t = "") → Flaw (.node n) ".type" checkNode.emptyType
  | both {n : Node} {t : String} : n.type = .str t → t ≠ "" → n.children ≠ .none → n.value ≠ .none →
    Flaw (.node n) "" fun name =>
      .violation name (name ++ " ('" ++ t ++ "') carries both children and a value")
  | value {n : Node} {t : String} : n.type = .str t → t ≠ "" → n.children = .none → n.value ≠ .none →
    (∀ s, n.value ≠ .str s) → Flaw (.node n) ".value" fun name =>
      .violation (name ++ ".value")
        (name ++ " ('" ++ t ++ "') value must be a string, got " ++ n.value.typeName)
  | data {n : Node} {way : Way} {place : List Nat} {fault : String → Fault} :
    (∃ t, t ≠ "" ∧ n.type = .str t) → (n.children = .none ∨ n.value = .none) →
    (n.value = .none ∨ ∃ s, n.value = .str s) → n.data ≠ .none →
    MappingViolation n.data way place fault →
    (∀ way' place' fault', MappingViolation n.data way' place' fault' → ¬ place' < place) →
    Flaw (.node n) (way.name ".data") fun name => fault (way.name (name ++ ".data"))

theorem Elements.iterate {field : Value} {cs : List Value} (h : Elements field cs) :
    field = .none ∧ cs = [] ∨ field.iterate = .ok cs := by
  cases h with
  | absent => exact .inl ⟨rfl, rfl⟩
  | list | sequence => exact .inr rfl
  | other hiterate => exact .inr hiterate

theorem Elements.unique {field : Value} {cs ds : List Value} (h : Elements field cs)
    (h' : Elements field ds) : cs = ds := by
  rcases h.iterate with ⟨rfl, rfl⟩ | h <;> rcases h'.iterate with ⟨hnone, rfl⟩ | h'
  · rfl
  · cases h'
  · subst hnone
    cases h
  · exact Except.ok.inj (h.symm.trans h')

theorem Holds.elements {field : Value} {cs : List Value} (h : Holds field cs) : Elements field cs := by
  cases h with
  | absent => exact .absent
  | list => exact .list cs
  | sequence kind => exact .sequence kind cs
  | set | mapping | str | bytes => exact .other rfl (by simp)

theorem Elements.sizeOf_lt {field : Value} {cs : List Value} {n : Node} (h : Elements field cs)
    (hn : .node n ∈ cs) : sizeOf (Value.node n) < sizeOf field := by
  cases h with
  | absent => cases hn
  | list =>
    have := List.sizeOf_lt_of_mem hn
    simp only [Value.list.sizeOf_spec]
    omega
  | sequence =>
    have := List.sizeOf_lt_of_mem hn
    simp only [Value.sequence.sizeOf_spec]
    omega
  | other _ hkeys => cases hkeys _ hn

/-- A node stands among the children of another one only if it is smaller. -/
theorem Elements.child_lt {n m : Node} {cs : List Value} (h : Elements n.children cs)
    (hm : .node m ∈ cs) : sizeOf (Value.node m) < sizeOf (Value.node n) := by
  have hlt := h.sizeOf_lt hm
  obtain ⟨t, field, v, d, p⟩ := n
  rw [Value.node.sizeOf_spec ⟨t, field, v, d, p⟩, NodeOf.mk.sizeOf_spec]
  dsimp only at hlt
  omega

theorem HasChildLists.of_not_node {v : Value} (h : ∀ n, v ≠ .node n) : HasChildLists v := by
  intro place n hstands
  cases hstands with
  | root => exact absurd rfl (h n)
  | child => exact absurd rfl (h _)

theorem HasChildLists.node {n : Node} {cs : List Value} (hcs : Elements n.children cs)
    (h : ∀ c ∈ cs, HasChildLists c) : HasChildLists (.node n) := by
  intro place m hstands
  cases hstands with
  | root => exact ⟨cs, hcs⟩
  | child hds hc hbelow =>
    obtain rfl := hcs.unique hds
    exact h _ (List.mem_of_getElem? hc) _ _ hbelow

theorem HasChildLists.child {n : Node} {cs : List Value} {c : Value} (h : HasChildLists (.node n))
    (hcs : Elements n.children cs) (hc : c ∈ cs) : HasChildLists c := by
  intro place m hstands
  obtain ⟨i, hi⟩ := List.getElem?_of_mem hc
  exact h _ m (.child hcs hi hstands)

theorem validate_of_not_node {v : Value} (h : ∀ n, v ≠ .node n) (path : String) :
    validate path v = .error (strayValue path v) := by
  cases v with
  | node n => exact absurd rfl (h n)
  | _ => rfl

/-- Of things that can be keys the first is refused, since no node can be a key. -/
theorem validateChildren_keys {cs : List Value} (h : ∀ c ∈ cs, c.isKey = true) (path : String) :
    validateChildren path 0 cs =
      match cs with
      | [] => .ok ()
      | first :: _ => .error (strayValue (childPath path 0) first) := by
  cases cs with
  | nil => rfl
  | cons c cs =>
    have hc : ∀ n, c ≠ .node n := by
      rintro n rfl
      cases h _ List.mem_cons_self
    rw [validateChildren, validate_of_not_node hc]
    rfl

/-- A node is checked before its children. -/
theorem validate_node {n : Node} {cs : List Value} (h : Elements n.children cs) (path : String) :
    validate path (.node n) = (do
      checkNode path n
      checkNodeData path n
      validateChildren path 0 cs) := by
  obtain ⟨t, field, v, d, p⟩ := n
  cases h with
  | list | sequence => rw [validate]
  | absent =>
    unfold validate
    rfl
  | other hiterate hkeys =>
    rw [validateChildren_keys hkeys]
    cases field with
    | list items | sequence kind items =>
      obtain rfl := Except.ok.inj hiterate
      rw [validate, validateChildren_keys hkeys]
    | set | mapping | str | bytes =>
      rw [validate, hiterate]
      · cases cs <;> rfl
      all_goals
        intros
        contradiction
    | _ => cases hiterate

theorem validateChildren_eq (path : String) (i : Nat) (cs : List Value) :
    validateChildren path i cs = checkEach (fun i c => validate (childPath path i) c) i cs := by
  induction cs generalizing i with
  | nil => rfl
  | cons c cs ih => rw [validateChildren, checkEach, ih]

theorem Way.name_append (p q : String) (way : Way) :
    Way.name (p ++ q) way = p ++ Way.name q way := by
  induction way generalizing q with
  | nil => rfl
  | cons s way ih =>
    have hs : s.name (p ++ q) = p ++ s.name q := by
      cases s <;> simp only [Segment.name, String.append_assoc]
    show Way.name (s.name (p ++ q)) way = p ++ Way.name (s.name q) way
    rw [hs, ih]

theorem Flaw.parameter {v : Value} {tail : String} {fault : String → Fault} (h : Flaw v tail fault)
    (name : String) :
    (fault name).kind = "ValidationError" ∧ (fault name).parameter? = some (name ++ tail) := by
  cases h with
  | stray | both =>
    rw [String.append_empty]
    exact ⟨rfl, rfl⟩
  | type | value => exact ⟨rfl, rfl⟩
  | data _ _ _ _ hwrong _ =>
    rw [← Way.name_append]
    exact hwrong.parameter _

/-- What the type and the content of a node are refused for is the first of them that is wrong. -/
theorem flaw_of_checkNode {path : String} {n : Node} {f : Fault} (h : checkNode path n = .error f) :
    ∃ tail fault, f = fault path ∧ Flaw (.node n) tail fault := by
  unfold checkNode at h
  split at h
  · rename_i htype
    refine ⟨".type", checkNode.emptyType, (Except.error.inj h).symm, .type ?_⟩
    intro t ht
    exact Value.str.inj (ht.symm.trans htype)
  · rename_i t ht htype
    split at h
    · rename_i hboth
      simp only [Bool.and_eq_true, Bool.not_eq_true', Value.isNone_eq_false_iff] at hboth
      exact ⟨"", _, (Except.error.inj h).symm, .both htype ht hboth.1 hboth.2⟩
    · rename_i hboth
      split at h
      · cases h
      · cases h
      · rename_i hnone hstr
        have hchildren : n.children = .none := by
          by_contra hchildren
          apply hboth
          simp only [Bool.and_eq_true, Bool.not_eq_true', Value.isNone_eq_false_iff]
          exact ⟨hchildren, hnone⟩
        exact ⟨".value", _, (Except.error.inj h).symm, .value htype ht hchildren hnone hstr⟩
  · rename_i hstr
    refine ⟨".type", checkNode.emptyType, (Except.error.inj h).symm, .type ?_⟩
    intro t ht
    exact absurd ht (hstr t)

/-- What the data of a node are refused for, if nothing else of the node is wrong. -/
theorem flaw_of_checkNodeData {path : String} {n : Node} {f : Fault} (hnode : checkNode path n = .ok ())
    (h : checkNodeData path n = .error f) : ∃ tail fault, f = fault path ∧ Flaw (.node n) tail fault := by
  -- the checks before do not look at the data
  have hrest : checkNode path { n with data := .none } = .ok () := hnode
  have hsound : Sound { n with data := .none } := .of_checked hrest rfl
  have hdata : n.data ≠ .none := by
    intro hnone
    rw [checkNodeData, hnone] at h
    cases h
  rw [checkNodeData, if_neg (mt Value.isNone_iff.mp hdata)] at h
  obtain ⟨way, place, fault, rfl, hwrong, hfirst⟩ := saysFirst_of_validateData h
  exact ⟨way.name ".data", _, rfl, .data hsound.type hsound.content hsound.value hdata hwrong hfirst⟩

/-- Nothing is wrong with a node that passes its checks. -/
theorem Checked.not_flaw {n : Node} {tail : String} {fault : String → Fault} (h : Checked n) :
    ¬ Flaw (.node n) tail fault := by
  intro hflaw
  obtain ⟨t, ht, htype⟩ := h.type
  cases hflaw with
  | stray hstray => exact hstray n rfl
  | type hempty => exact ht (hempty t htype)
  | both _ _ hchildren hvalue => exact h.content.elim hchildren hvalue
  | value _ _ _ hnone hstr =>
    rcases h.value with hvalue | ⟨s, hvalue⟩
    · exact hnone hvalue
    · exact hstr s hvalue
  | data _ _ _ hdata hwrong _ =>
    rcases h.data with hnone | ⟨kind, entries, hentries⟩
    · exact hdata hnone
    · cases hwrong with
      | shape hshape => exact hshape kind entries hentries
      | within _ hwrong => exact h.variant.sound hwrong

/-- Everything that stands in a valid tree is a node that passes its checks. -/
theorem Every.stands {P : Node → Prop} {tree v : Value} {place : List Nat} (h : Every P tree)
    (hstands : Stands tree place v) : ∃ n, v = .node n ∧ P n := by
  induction hstands with
  | root tree =>
    cases h with
    | @node n _ _ hn _ => exact ⟨n, rfl, hn⟩
  | child hcs hc _ ih =>
    cases h with
    | node hholds _ hevery =>
      obtain rfl := hcs.unique hholds.elements
      exact ih (hevery _ (List.mem_of_getElem? hc))

theorem not_flaw_of_validate {path : String} {tree v : Value} {place : List Nat} {tail : String}
    {fault : String → Fault} (h : validate path tree = .ok ()) (hstands : Stands tree place v) :
    ¬ Flaw v tail fault := by
  obtain ⟨n, rfl, hn⟩ := (validate_iff.mp h).stands hstands
  exact hn.not_flaw

/-- What is said of a tree named `path` is what is wrong with the first of its elements with which something
is. -/
def FindsFirst (tree : Value) (path : String) (f : Fault) : Prop :=
  ∃ place v tail fault, f = fault (placeName path place) ∧ Stands tree place v ∧ Flaw v tail fault ∧
    ∀ place' v' tail' fault', Stands tree place' v' → Flaw v' tail' fault' → ¬ place' < place

theorem findsFirst_of_flaw {tree : Value} {path tail : String} {fault : String → Fault}
    (h : Flaw tree tail fault) : FindsFirst tree path (fault path) :=
  ⟨[], tree, tail, fault, rfl, .root tree, h, fun _ _ _ _ _ _ => List.not_lt_nil _⟩

/-- What is said of a child is what is said first of its parent, if nothing is wrong with the parent itself
and in the children before. -/
theorem FindsFirst.under {n : Node} {cs : List Value} {j : Nat} {c : Value} {path : String} {f : Fault}
    (h : FindsFirst c (childPath path j) f) (hn : Checked n) (hcs : Elements n.children cs)
    (hc : cs[j]? = some c)
    (hbefore : ∀ i d, i < j → cs[i]? = some d → ∃ path, validate path d = .ok ()) :
    FindsFirst (.node n) path f := by
  obtain ⟨place, v, tail, fault, rfl, hstands, hflaw, hfirst⟩ := h
  refine ⟨j :: place, v, tail, fault, rfl, .child hcs hc hstands, hflaw, ?_⟩
  intro place' v' tail' fault' hstands' hflaw' hlt
  cases hstands' with
  | root => exact hn.not_flaw hflaw'
  | @child _ ds i d _ place'' hds hd hbelow =>
    obtain rfl := hcs.unique hds
    rcases List.cons_lt_cons_iff.mp hlt with hi | ⟨rfl, hplace⟩
    · obtain ⟨path, hok⟩ := hbefore i d hi hd
      exact not_flaw_of_validate hok hbelow hflaw'
    · obtain rfl := Option.some.inj (hc.symm.trans hd)
      exact hfirst _ _ _ _ hbelow hflaw' hplace

theorem findsFirst_of_not_node {v : Value} {path : String} {f : Fault} (hv : ∀ n, v ≠ .node n)
    (h : validate path v = .error f) : FindsFirst v path f := by
  rw [validate_of_not_node hv] at h
  obtain rfl := Except.error.inj h
  exact findsFirst_of_flaw (.stray hv)

theorem findsFirst_of_validateChildren {n : Node} {cs : List Value} {path : String} {f : Fault}
    (hn : Checked n) (hcs : Elements n.children cs)
    (ih : ∀ c ∈ cs, ∀ path, validate path c = .error f → FindsFirst c path f)
    (h : validateChildren path 0 cs = .error f) : FindsFirst (.node n) path f := by
  rw [validateChildren_eq] at h
  obtain ⟨j, c, hc, herror, hbefore⟩ := checkEach_error h
  simp only [Nat.zero_add] at herror hbefore
  have hfirst := ih c (List.mem_of_getElem? hc) _ herror
  exact hfirst.under hn hcs hc fun i d hi hd => ⟨_, hbefore i d hi hd⟩

/-- A tree that is refused is refused for the first of its elements with which something is wrong. -/
theorem findsFirst_of_validate {path : String} {tree : Value} {f : Fault} (hlists : HasChildLists tree)
    (h : validate path tree = .error f) : FindsFirst tree path f := by
  induction hsize : sizeOf tree using Nat.strongRecOn generalizing tree path with
  | ind size ih =>
    by_cases hnode : ∃ n, tree = .node n
    · obtain ⟨n, rfl⟩ := hnode
      obtain ⟨cs, hcs⟩ := hlists [] n (.root _)
      have hbelow (c : Value) (hc : c ∈ cs) (path : String) (h : validate path c = .error f) :
          FindsFirst c path f := by
        by_cases hchild : ∃ m, c = .node m
        · obtain ⟨m, rfl⟩ := hchild
          exact ih _ (hsize ▸ hcs.child_lt hc) (hlists.child hcs hc) h rfl
        · exact findsFirst_of_not_node (fun m hm => hchild ⟨m, hm⟩) h
      rw [validate_node hcs] at h
      rcases Outcome.of_bind_error h with h | ⟨_, hchecked, h⟩
      · obtain ⟨tail, fault, rfl, hflaw⟩ := flaw_of_checkNode h
        exact findsFirst_of_flaw hflaw
      rcases Outcome.of_bind_error h with h | ⟨_, hdata, h⟩
      · obtain ⟨tail, fault, rfl, hflaw⟩ := flaw_of_checkNodeData hchecked h
        exact findsFirst_of_flaw hflaw
      exact findsFirst_of_validateChildren (.of_checks hchecked hdata) hcs hbelow h
    · exact findsFirst_of_not_node (fun n hn => hnode ⟨n, hn⟩) h

/-- A tree is accepted if everything that stands in it is a node whose type is a text that is not empty,
which does not carry both children and a value, whose value is absent or a text, and whose data are absent or
a mapping of data. Any other tree is refused for the first element with which something is wrong: the
parameter that the fault is about is the name of the element, with that of the first check that fails. -/
theorem validate_decides {tree : Value} (hlists : HasChildLists tree) (path : String) :
    (validate path tree = .ok () ↔ ∀ place v, Stands tree place v → ∃ n, v = .node n ∧ Checked n) ∧
    (¬ (∀ place v, Stands tree place v → ∃ n, v = .node n ∧ Checked n) → ∃ f place v tail fault,
      validate path tree = .error f ∧ f = fault (placeName path place) ∧
      f.kind = "ValidationError" ∧ f.parameter? = some (placeName path place ++ tail) ∧
      Stands tree place v ∧ Flaw v tail fault ∧
      ∀ place' v' tail' fault', Stands tree place' v' → Flaw v' tail' fault' → ¬ place' < place) := by
  have hvalid (h : validate path tree = .ok ()) :
      ∀ place v, Stands tree place v → ∃ n, v = .node n ∧ Checked n :=
    fun _ _ => (validate_iff.mp h).stands
  constructor
  · refine ⟨hvalid, fun hall => ?_⟩
    cases h : validate path tree with
    | ok => rfl
    | error f =>
      obtain ⟨place, v, tail, fault, -, hstands, hflaw, -⟩ := findsFirst_of_validate hlists h
      obtain ⟨n, rfl, hn⟩ := hall place v hstands
      exact absurd hflaw hn.not_flaw
  · intro hnot
    cases h : validate path tree with
    | ok => exact absurd (hvalid h) hnot
    | error f =>
      obtain ⟨place, v, tail, fault, rfl, hstands, hflaw, hfirst⟩ := findsFirst_of_validate hlists h
      obtain ⟨hkind, hparameter⟩ := hflaw.parameter (placeName path place)
      exact ⟨_, place, v, tail, fault, rfl, rfl, hkind, hparameter, hstands, hflaw, hfirst⟩

/-- A tree whose second child has a set in its data and a child that is no node, and whose third child has
no type. -/
def severalFlaws : Value :=
  .node ⟨.str "root", .list [
    .node (.literal "text" "a" .none),
    .node ⟨.str "emphasis", .list [.str "oops"], .none, .dict [(.str "marks", .list [.set []])], .none⟩,
    .node ⟨.str "", .none, .none, .none, .none⟩], .none, .none, .none⟩

theorem validate_decides_several : HasChildLists severalFlaws ∧
    (∃ f place v tail fault,
      validate "tree" severalFlaws = .error f ∧ f = fault (placeName "tree" place) ∧
      f.kind = "ValidationError" ∧ f.parameter? = some (placeName "tree" place ++ tail) ∧
      Stands severalFlaws place v ∧ Flaw v tail fault ∧
      ∀ place' v' tail' fault', Stands severalFlaws place' v' → Flaw v' tail' fault' →
        ¬ place' < place) ∧
    validate "tree" severalFlaws =
      .error (unsupported "tree.children[1].data.marks[0]" (.set [])) := by
  have hlists : HasChildLists severalFlaws := by
    refine .node (.list _) ?_
    intro c hc
    simp only [List.mem_cons, List.not_mem_nil, or_false] at hc
    rcases hc with rfl | rfl | rfl
    · exact .node .absent (by simp)
    · exact .node (.list _) (List.forall_mem_singleton.mpr (.of_not_node (by simp)))
    · exact .node .absent (by simp)
  have herror : validate "tree" severalFlaws =
      .error (unsupported "tree.children[1].data.marks[0]" (.set [])) := rfl
  refine ⟨hlists, (validate_decides hlists "tree").2 fun hall => ?_, herror⟩
  rw [(validate_decides hlists "tree").1.mpr hall] at herror
  cases herror

end Tree

end TextPipeline
