import Mathlib.Data.List.Chain
import TextPipeline.Proofs.Describing
import TextPipeline.Tree.Visit

/-! A visit that takes out the nodes it is called on. What it leaves of a tree is given here by recursion
over the tree: the visit goes on at the number after that of the node taken out, where by then the second
of its later siblings stands, so a visit that is not in reverse passes over the first of them. Nothing else is
lost. -/

namespace TextPipeline.Tree

section Remains

variable (types : List Value) (reverse : Bool)

/-- Whether a value is a node of one of some types. -/
def isOf : Value → Bool
  | .node n => n.type.among types
  | _ => false

mutual

/-- What a visit leaves of a tree if it takes out the nodes of some types below its root. -/
def remains : Value → Value
  | .node ⟨t, .list cs, v, d, p⟩ => .node ⟨t, .list (remainsAll false cs), v, d, p⟩
  | .node ⟨t, .sequence kind cs, v, d, p⟩ => .node ⟨t, .sequence kind (remainsAll false cs), v, d, p⟩
  | tree => tree

/-- What the visit leaves of the children of a node, of which it may pass over the first. -/
def remainsAll (passed : Bool) : List Value → List Value
  | [] => []
  | c :: rest =>
    if passed then c :: remainsAll false rest
    else if isOf types c then remainsAll (!reverse) rest
    else remains c :: remainsAll false rest

end

mutual

/-- The nodes of a tree, without their children, that neither are of some types nor stand below one that
is, in the order of a walk. -/
def survivors : Value → List Node
  | .node ⟨t, .list cs, v, d, p⟩ =>
    if t.among types then [] else ⟨t, .none, v, d, p⟩ :: survivorsAll cs
  | .node ⟨t, .sequence _ cs, v, d, p⟩ =>
    if t.among types then [] else ⟨t, .none, v, d, p⟩ :: survivorsAll cs
  | .node n => if n.type.among types then [] else [{ n with children := .none }]
  | _ => []

def survivorsAll : List Value → List Node
  | [] => []
  | c :: rest => survivors c ++ survivorsAll rest

end

end Remains

/-- A visitor that takes out the nodes of some types. It may note what it likes, and need not have the
visit go on below a node that it took out. -/
structure Removes {σ : Type} (types : List Value) (visitor : Visitor σ) : Prop where
  test : visitor.test = .types types
  call : ∀ i parent site left state, Site.remove site i = .ok left → ∃ state' verdict,
    visitor.call (some i) (some parent) site state = (left, state', verdict) ∧
      (verdict = .proceed ∨ verdict = .skip)

/-- A node whose type can be looked up among others, and whose children can be taken out where they are of
some types: those of another sequence than a list cannot. -/
structure Removable (types : List Value) (n : Node) : Prop where
  type : n.type.isKey = true
  children : ∀ kind cs, n.children = .sequence kind cs → ∀ c ∈ cs, isOf types c = false

theorem Holds.width {n : Node} {cs : List Value} (h : Holds n.children cs) : width n = .ok cs.length := by
  obtain ⟨t, field, v, d, p⟩ := n
  cases h <;> rfl

theorem Holds.nextChild_none {n : Node} {cs : List Value} (h : Holds n.children cs) {i : Int}
    (hi : i < 0 ∨ cs.length ≤ i) : nextChild n i = .ok none := by
  rw [nextChild, h.width]
  show (if 0 ≤ i ∧ i < cs.length then _ else _) = _
  rw [if_neg (by omega)]
  rfl

/-- What holds the children of a node in order. -/
inductive Row : (List Value → Value) → Prop
  | list : Row .list
  | sequence (kind : SequenceKind) : Row (.sequence kind)

namespace Row

variable {row : List Value → Value} {n m : Node} {cs ds : List Value}

theorem holds (h : Row row) (hn : n.children = row cs) : Holds n.children cs := by
  rw [hn]
  cases h with
  | list => exact .list cs
  | sequence kind => exact .sequence kind cs

theorem width (h : Row row) (hn : n.children = row cs) : width n = .ok cs.length := (h.holds hn).width

theorem nextChild_none (h : Row row) (hn : n.children = row cs) {i : Int}
    (hi : i < 0 ∨ cs.length ≤ i) : nextChild n i = .ok none := (h.holds hn).nextChild_none hi

theorem nextChild_some (h : Row row) (hn : n.children = row (cs ++ .node m :: ds)) :
    nextChild n cs.length = .ok (some m) := by
  have hlength : (cs.length : Int) < (cs ++ .node m :: ds).length := by
    rw [List.length_append, List.length_cons]
    omega
  have hget : (cs ++ Value.node m :: ds)[cs.length]? = some (.node m) := by
    rw [List.getElem?_append_right (Nat.le_refl _), Nat.sub_self]
    rfl
  have hitem : n.children.item cs.length = .ok (.node m) := by
    rw [hn]
    cases h <;> simp only [Value.item, Value.item.nth, hget]
  rw [nextChild, h.width hn]
  show (if 0 ≤ (cs.length : Int) ∧ (cs.length : Int) < (cs ++ .node m :: ds).length then
    (do return some (← asNode (← n.children.item (cs.length : Int).toNat))) else _) = _
  rw [if_pos ⟨by omega, hlength⟩, Int.toNat_natCast, hitem]
  rfl

theorem close (h : Row row) (m' : Node) :
    Site.close ⟨row (cs ++ .node m :: ds), some cs.length, m'⟩ = row (cs ++ .node m' :: ds) := by
  have hset : (cs ++ Value.node m :: ds).set cs.length (.node m') = cs ++ .node m' :: ds := by
    rw [List.set_append_right _ _ (Nat.le_refl _), Nat.sub_self]
    rfl
  cases h <;> simp only [Site.close, hset]

end Row

theorem size_pos (v : Value) : 1 ≤ size v := by
  unfold size
  split <;> omega

theorem sizeAll_concat (cs : List Value) (c : Value) : sizeAll (cs ++ [c]) = sizeAll cs + size c := by
  induction cs with
  | nil => simp [sizeAll]
  | cons d cs ih =>
    rw [List.cons_append, sizeAll, sizeAll, ih]
    omega

section Visit

variable {σ : Type} {types : List Value} {visitor : Visitor σ} {reverse : Bool}

/-- A visit that leaves what it should of a node's children. -/
def LeavesBelow (types : List Value) (visitor : Visitor σ) (reverse : Bool) (fuel : Nat) (m : Node) : Prop :=
  ∃ k m', width m = .ok k ∧ remains types reverse (.node m) = .node m' ∧ ∀ state, ∃ state',
    visitChildren visitor reverse fuel (if reverse then (k : Int) - 1 else 0) m state =
      ⟨m', state', none⟩

theorem Removes.holds (h : Removes types visitor) {m : Node} (hkey : m.type.isKey = true) :
    visitor.test.holds m = .ok (m.type.among types) := by
  rw [h.test, Test.holds, Value.asKey, if_pos hkey]
  rfl

/-- A node that is not called on stays where it is. -/
theorem visitSite_kept (hremoves : Removes types visitor) {m : Node} (hkey : m.type.isKey = true)
    (hother : m.type.among types = false) {fuel : Nat} (hbelow : LeavesBelow types visitor reverse fuel m)
    (index : Option Nat) (parent : Option Node) (siblings : Value) (focus : Option Nat) (state : σ) :
    ∃ m' state', remains types reverse (.node m) = .node m' ∧
      visitSite visitor reverse (fuel + 1) index parent ⟨siblings, focus, m⟩ state =
        ⟨⟨siblings, focus, m'⟩, state', none⟩ := by
  obtain ⟨k, m', hwidth, hleft, hvisit⟩ := hbelow
  obtain ⟨state', hvisit⟩ := hvisit state
  refine ⟨m', state', hleft, ?_⟩
  rw [visitSite, hremoves.holds hkey, hother]
  simp only [Bool.false_eq_true, if_false, hwidth, hvisit]

/-- A node that is called on is taken out of its siblings. -/
theorem visitSite_removed (hremoves : Removes types visitor) {m : Node} (hkey : m.type.isKey = true)
    (hone : m.type.among types = true) {fuel : Nat} (hbelow : LeavesBelow types visitor reverse fuel m)
    (parent : Node) (cs ds : List Value) (state : σ) :
    ∃ m' state', visitSite visitor reverse (fuel + 1) (some cs.length) (some parent)
        ⟨.list (cs ++ .node m :: ds), some cs.length, m⟩ state =
      ⟨⟨.list (cs ++ ds), none, m'⟩, state', none⟩ := by
  have hremove : Site.remove ⟨.list (cs ++ .node m :: ds), some cs.length, m⟩ cs.length =
      .ok ⟨.list (cs ++ ds), none, m⟩ := by
    have hlength : cs.length < (cs ++ Value.node m :: ds).length := by
      rw [List.length_append, List.length_cons]
      omega
    have herase : (cs ++ Value.node m :: ds).eraseIdx cs.length = cs ++ ds := by
      rw [List.eraseIdx_append_of_length_le (Nat.le_refl _), Nat.sub_self]
      rfl
    simp only [Site.remove, hlength, if_true, herase, Option.bind_some]
  obtain ⟨between, verdict, hcall, hverdict⟩ :=
    hremoves.call cs.length parent _ _ state hremove
  obtain ⟨k, m', hwidth, -, hvisit⟩ := hbelow
  obtain ⟨after, hvisit⟩ := hvisit between
  rw [visitSite, hremoves.holds hkey, hone]
  simp only [if_true, hcall]
  obtain rfl | rfl := hverdict
  · exact ⟨m', after, by simp only [hwidth, hvisit]⟩
  · exact ⟨m, between, rfl⟩

/-- One step among the children of a node: the child is left out, or what is left of it stays. -/
theorem visitChildren_step (hremoves : Removes types visitor) {row : List Value → Value} (hrow : Row row)
    {n m : Node} {cs ds : List Value} (hn : n.children = row (cs ++ .node m :: ds))
    (hkey : m.type.isKey = true) (hmovable : row = .list ∨ isOf types (.node m) = false) {fuel : Nat}
    (hbelow : LeavesBelow types visitor reverse fuel m) (state : σ) :
    ∃ state', visitChildren visitor reverse (fuel + 2) cs.length n state =
      visitChildren visitor reverse (fuel + 1) (advance reverse cs.length)
        { n with children := row (cs ++
          (if isOf types (.node m) then ds else remains types reverse (.node m) :: ds)) } state' := by
  rw [visitChildren, hrow.nextChild_some hn, Int.toNat_natCast, hn]
  dsimp only
  cases hone : m.type.among types with
  | false =>
    obtain ⟨m', state', hleft, hvisit⟩ := visitSite_kept hremoves hkey hone hbelow (some cs.length)
      (some n) (row (cs ++ .node m :: ds)) (some cs.length) state
    refine ⟨state', ?_⟩
    rw [hvisit, hrow.close, isOf, hone, hleft]
    rfl
  | true =>
    obtain rfl : row = .list := hmovable.resolve_right (by rw [isOf, hone]; decide)
    obtain ⟨m', state', hvisit⟩ := visitSite_removed hremoves hkey hone hbelow n cs ds state
    refine ⟨state', ?_⟩
    rw [hvisit, isOf, hone]
    rfl

/-- Children that a visit can leave as it should, given enough fuel for each. -/
def Leavable (types : List Value) (visitor : Visitor σ) (reverse : Bool) (row : List Value → Value)
    (c : Value) : Prop :=
  ∃ m, c = .node m ∧ m.type.isKey = true ∧ (row = .list ∨ isOf types c = false) ∧
    ∀ fuel, 2 * size c ≤ fuel + 1 → LeavesBelow types visitor reverse fuel m

/-- A visit of children from the first on. -/
theorem visitChildren_forward (hremoves : Removes types visitor) {row : List Value → Value}
    (hrow : Row row) {cs : List Value} (h : ∀ c ∈ cs, Leavable types visitor false row c)
    (before : List Value) (passed : Bool) {n : Node} (hn : n.children = row (before ++ cs)) {fuel : Nat}
    (hfuel : 2 * sizeAll cs + 1 ≤ fuel) (state : σ) :
    ∃ state', visitChildren visitor false fuel (before.length + (if passed then 1 else 0) : Nat) n state =
      ⟨{ n with children := row (before ++ remainsAll types false passed cs) }, state', none⟩ := by
  induction cs generalizing before passed n fuel state with
  | nil =>
    obtain ⟨fuel, rfl⟩ : ∃ g, fuel = g + 1 := ⟨fuel - 1, by omega⟩
    have hend : nextChild n (before.length + (if passed then 1 else 0) : Nat) = .ok none := by
      refine hrow.nextChild_none hn (.inr ?_)
      rw [List.append_nil]
      omega
    refine ⟨state, ?_⟩
    rw [visitChildren, hend, remainsAll, ← hn]
  | cons c cs ih =>
    obtain ⟨⟨m, rfl, hkey, hmovable, hbelow⟩, hcs⟩ := List.forall_mem_cons.mp h
    have hsize := size_pos (.node m)
    rw [sizeAll] at hfuel
    cases passed with
    | true =>
      have hnext : n.children = row ((before ++ [.node m]) ++ cs) := by
        rw [hn, List.append_assoc, List.singleton_append]
      have hrest : 2 * sizeAll cs + 1 ≤ fuel := by omega
      obtain ⟨state', hvisit⟩ := ih hcs (before ++ [.node m]) false hnext hrest state
      rw [List.length_append, List.length_singleton, List.append_assoc] at hvisit
      exact ⟨state', hvisit⟩
    | false =>
      obtain ⟨fuel, rfl⟩ : ∃ g, fuel = g + 2 := ⟨fuel - 2, by omega⟩
      obtain ⟨between, hstep⟩ :=
        visitChildren_step hremoves hrow hn hkey hmovable (hbelow fuel (by omega)) state
      obtain ⟨u, hu⟩ : ∃ u : Node, u = { n with children := row (before ++
        (if isOf types (.node m) then cs else remains types false (.node m) :: cs)) } := ⟨_, rfl⟩
      rw [← hu] at hstep
      have hrest : 2 * sizeAll cs + 1 ≤ fuel + 1 := by omega
      have hfrom : advance false (before.length : Int) = (before.length + 1 : Nat) := rfl
      show ∃ state', visitChildren visitor false (fuel + 2) (before.length : Nat) n state = _
      rw [hstep, hfrom, remainsAll, if_neg Bool.false_ne_true]
      cases hone : isOf types (.node m) with
      | true =>
        rw [hone, if_pos rfl] at hu
        have hchildren : u.children = row (before ++ cs) := by rw [hu]
        obtain ⟨state', hvisit⟩ := ih hcs before true hchildren hrest between
        refine ⟨state', ?_⟩
        rw [if_pos rfl] at hvisit
        rw [hvisit, hu, if_pos rfl, Bool.not_false]
      | false =>
        rw [hone, if_neg Bool.false_ne_true] at hu
        have hchildren : u.children = row ((before ++ [remains types false (.node m)]) ++ cs) := by
          rw [hu, List.append_assoc, List.singleton_append]
        obtain ⟨state', hvisit⟩ := ih hcs _ false hchildren hrest between
        rw [List.length_append, List.length_singleton, List.append_assoc, if_neg Bool.false_ne_true,
          Nat.add_zero] at hvisit
        refine ⟨state', ?_⟩
        rw [hvisit, hu, if_neg Bool.false_ne_true]
        rfl

theorem remainsAll_concat (cs : List Value) (c : Value) :
    remainsAll types true false (cs ++ [c]) = remainsAll types true false cs ++
      (if isOf types c then [] else [remains types true c]) := by
  induction cs with
  | nil =>
    rw [List.nil_append, remainsAll, remainsAll, if_neg Bool.false_ne_true]
    cases isOf types c <;> rfl
  | cons d cs ih =>
    rw [List.cons_append, remainsAll, remainsAll, Bool.not_true, ih]
    split
    · simp_all
    · split <;> rfl

/-- A visit of children from the last on. -/
theorem visitChildren_reverse (hremoves : Removes types visitor) {row : List Value → Value}
    (hrow : Row row) {cs : List Value} (h : ∀ c ∈ cs, Leavable types visitor true row c)
    (behind : List Value) {n : Node} (hn : n.children = row (cs ++ behind)) {fuel : Nat}
    (hfuel : 2 * sizeAll cs + 1 ≤ fuel) (state : σ) :
    ∃ state', visitChildren visitor true fuel ((cs.length : Int) - 1) n state =
      ⟨{ n with children := row (remainsAll types true false cs ++ behind) }, state', none⟩ := by
  induction cs using List.reverseRecOn generalizing behind n fuel state with
  | nil =>
    obtain ⟨fuel, rfl⟩ : ∃ g, fuel = g + 1 := ⟨fuel - 1, by omega⟩
    have hend : nextChild n (([] : List Value).length - 1 : Int) = .ok none :=
      hrow.nextChild_none hn (.inl (by simp))
    refine ⟨state, ?_⟩
    rw [visitChildren, hend, remainsAll, ← hn]
  | append_singleton cs c ih =>
    obtain ⟨m, rfl, hkey, hmovable, hbelow⟩ := h c (by simp)
    have hcs : ∀ c ∈ cs, Leavable types visitor true row c := fun c hc => h c (by simp [hc])
    have hsize := size_pos (.node m)
    rw [sizeAll_concat] at hfuel
    obtain ⟨fuel, rfl⟩ : ∃ g, fuel = g + 2 := ⟨fuel - 2, by omega⟩
    rw [List.append_assoc, List.singleton_append] at hn
    obtain ⟨between, hstep⟩ :=
      visitChildren_step hremoves hrow hn hkey hmovable (hbelow fuel (by omega)) state
    obtain ⟨u, hu⟩ : ∃ u : Node, u = { n with children := row (cs ++
      (if isOf types (.node m) then behind else remains types true (.node m) :: behind)) } := ⟨_, rfl⟩
    rw [← hu] at hstep
    have hstart : ((cs ++ [Value.node m]).length : Int) - 1 = cs.length := by
      rw [List.length_append, List.length_singleton]
      omega
    have hrest : 2 * sizeAll cs + 1 ≤ fuel + 1 := by omega
    have hchildren : u.children = row (cs ++
        (if isOf types (.node m) then behind else remains types true (.node m) :: behind)) := by rw [hu]
    obtain ⟨state', hvisit⟩ := ih hcs _ hchildren hrest between
    have hfrom : advance true (cs.length : Int) = (cs.length : Int) - 1 := rfl
    refine ⟨state', ?_⟩
    rw [hstart, hstep, hfrom, hvisit, hu, remainsAll_concat, List.append_assoc]
    cases isOf types (.node m) <;> rfl

/-- A visit of children in either direction. -/
theorem LeavesBelow.of_row (hremoves : Removes types visitor) {row : List Value → Value} (hrow : Row row)
    {n : Node} {cs : List Value} (hn : n.children = row cs)
    (h : ∀ c ∈ cs, Leavable types visitor reverse row c) {fuel : Nat} (hfuel : 2 * sizeAll cs + 1 ≤ fuel)
    (hremains : remains types reverse (.node n) =
      .node { n with children := row (remainsAll types reverse false cs) }) :
    LeavesBelow types visitor reverse fuel n := by
  refine ⟨cs.length, _, hrow.width hn, hremains, fun state => ?_⟩
  cases reverse with
  | false => exact visitChildren_forward hremoves hrow h [] false hn hfuel state
  | true =>
    have hlast : n.children = row (cs ++ []) := by rw [hn, List.append_nil]
    obtain ⟨state', hvisit⟩ := visitChildren_reverse hremoves hrow h [] hlast hfuel state
    rw [List.append_nil] at hvisit
    exact ⟨state', hvisit⟩

theorem LeavesBelow.of_width {n : Node} (hwidth : width n = .ok 0)
    (hremains : remains types reverse (.node n) = .node n) {fuel : Nat} (hfuel : 1 ≤ fuel) :
    LeavesBelow types visitor reverse fuel n := by
  obtain ⟨fuel, rfl⟩ : ∃ g, fuel = g + 1 := ⟨fuel - 1, by omega⟩
  have hend (i : Int) : nextChild n i = .ok none := by
    rw [nextChild, hwidth]
    show (if 0 ≤ i ∧ i < (0 : Nat) then _ else _) = _
    rw [if_neg (by omega)]
    rfl
  refine ⟨0, n, hwidth, hremains, fun state => ⟨state, ?_⟩⟩
  rw [visitChildren, hend]

/-- A visit that takes out nodes leaves of a tree what it should, given enough fuel. -/
theorem leavesBelow (hremoves : Removes types visitor) (reverse : Bool) {tree : Value}
    (h : Every (Removable types) tree) : ∀ m, tree = .node m → ∀ fuel, 2 * size tree ≤ fuel + 1 →
      LeavesBelow types visitor reverse fuel m := by
  induction h with
  | @node n cs hholds hn hcs ih =>
    intro m hm fuel hfuel
    obtain rfl := Value.node.inj hm
    have hleavable (row : List Value → Value) (hrow : row = .list ∨ ∃ kind, n.children = .sequence kind cs) :
        ∀ c ∈ cs, Leavable types visitor reverse row c := by
      intro c hc
      cases hcs c hc with
      | @node m _ _ hm _ =>
        exact ⟨m, rfl, hm.type, hrow.imp_right fun ⟨kind, hfield⟩ => hn.children kind cs hfield _ hc,
          ih _ hc m rfl⟩
    have hpositive := size_pos (.node n)
    obtain ⟨t, field, v, d, p⟩ := n
    cases hholds with
    | list =>
      rw [size] at hfuel
      exact .of_row hremoves .list rfl (hleavable _ (.inl rfl)) (by omega) (by rw [remains])
    | sequence kind =>
      rw [size] at hfuel
      exact .of_row hremoves (.sequence kind) rfl (hleavable _ (.inr ⟨kind, rfl⟩)) (by omega)
        (by rw [remains])
    | absent | set | mapping | str | bytes => exact .of_width rfl (by simp [remains]) (by omega)

/-- What a visit of a tree leaves of it. -/
theorem visit_remains (hremoves : Removes types visitor) (reverse : Bool) {tree : Value}
    (h : Every (Removable types) tree) (hroot : isOf types tree = false) (state : σ) :
    ∃ state', visit visitor reverse tree state = ⟨remains types reverse tree, state', none⟩ := by
  cases h with
  | @node n cs hholds hn hcs =>
    obtain ⟨fuel, hfuel⟩ : ∃ fuel, 2 * size (.node n) + growth = fuel + 1 :=
      ⟨2 * size (.node n) + growth - 1, by unfold growth; omega⟩
    have hbelow := leavesBelow hremoves reverse (.node hholds hn hcs) n rfl fuel (by omega)
    obtain ⟨m', state', hremains, hvisit⟩ :=
      visitSite_kept hremoves hn.type hroot hbelow none none .none none state
    refine ⟨state', ?_⟩
    rw [visit, hfuel, hvisit, hremains]

end Visit

/-- A node without its children. -/
def bare (n : Node) : Node := { n with children := .none }

section Left

variable {types : List Value} {reverse : Bool} {n : Node} {cs : List Value}

theorem survivors_node (h : Holds n.children cs) :
    survivors types (.node n) = if n.type.among types then [] else bare n :: survivorsAll types cs := by
  obtain ⟨t, field, v, d, p⟩ := n
  cases h with
  | list | sequence => rw [survivors]; rfl
  | absent | set | mapping | str | bytes => simp [survivors, survivorsAll, bare]

theorem remains_node (types : List Value) (reverse : Bool) (h : Holds n.children cs) :
    ∃ field, remains types reverse (.node n) = .node { n with children := field } ∧
      Holds field (remainsAll types reverse false cs) := by
  obtain ⟨t, field, v, d, p⟩ := n
  cases h with
  | list => exact ⟨_, by rw [remains], .list _⟩
  | sequence kind => exact ⟨_, by rw [remains], .sequence kind _⟩
  | absent => exact ⟨_, by simp [remains], .absent⟩
  | set => exact ⟨_, by simp [remains], .set⟩
  | mapping kind => exact ⟨_, by simp [remains], .mapping kind⟩
  | str => exact ⟨_, by simp [remains], .str⟩
  | bytes => exact ⟨_, by simp [remains], .bytes⟩

theorem survivors_of_isOf {P : Node → Prop} {c : Value} (h : Every P c) (hone : isOf types c = true) :
    survivors types c = [] := by
  cases h with
  | node hholds =>
    rw [isOf] at hone
    rw [survivors_node hholds, if_pos hone]

/-- A visit that takes out nodes of some types leaves all others that do not stand below one of them. -/
theorem survivors_remains {P : Node → Prop} {tree : Value} (h : Every P tree) :
    survivors types (remains types reverse tree) = survivors types tree := by
  induction h with
  | @node n cs hholds _ hcs ih =>
    have hall (passed : Bool) :
        survivorsAll types (remainsAll types reverse passed cs) = survivorsAll types cs := by
      clear hholds
      induction cs generalizing passed with
      | nil => rw [remainsAll]
      | cons c cs ihcs =>
        obtain ⟨hc, hrest⟩ := List.forall_mem_cons.mp hcs
        obtain ⟨ihc, ihrest⟩ := List.forall_mem_cons.mp ih
        rw [remainsAll, survivorsAll]
        split
        · rw [survivorsAll, ihcs hrest ihrest]
        · split
          · rw [ihcs hrest ihrest, survivors_of_isOf hc (by assumption), List.nil_append]
          · rw [survivorsAll, ihc, ihcs hrest ihrest]
    obtain ⟨field, hremains, hfield⟩ := remains_node types reverse hholds
    rw [hremains, survivors_node hfield, survivors_node hholds, hall]
    rfl

theorem among_nil (v : Value) : v.among [] = false := rfl

theorem survivors_sublist {P : Node → Prop} {tree : Value} (h : Every P tree) :
    (survivors types tree).Sublist (survivors [] tree) := by
  induction h with
  | @node n cs hholds _ hcs ih =>
    have hall : (survivorsAll types cs).Sublist (survivorsAll [] cs) := by
      clear hholds
      induction cs with
      | nil => exact .slnil
      | cons c cs ihcs =>
        obtain ⟨-, hrest⟩ := List.forall_mem_cons.mp hcs
        obtain ⟨ihc, ihrest⟩ := List.forall_mem_cons.mp ih
        exact ihc.append (ihcs hrest ihrest)
    rw [survivors_node hholds, survivors_node hholds, among_nil, if_neg Bool.false_ne_true]
    split
    · exact List.nil_sublist _
    · exact hall.cons_cons _

/-- All nodes of a tree survive if none is to be taken out, and a walk comes to them in their order. -/
theorem nodes_survivors {P : Node → Prop} {tree : Value} (h : Every P tree) :
    ∃ ns, nodes tree = .ok ns ∧ ns.map bare = survivors [] tree := by
  induction h with
  | @node n cs hholds hn hcs ih =>
    obtain ⟨made, hmade, hbare⟩ : ∃ made : List (List Node), cs.mapM nodes = .ok made ∧
        made.flatten.map bare = survivorsAll [] cs := by
      clear hholds
      induction cs with
      | nil => exact ⟨[], rfl, rfl⟩
      | cons c cs ihcs =>
        obtain ⟨-, hrest⟩ := List.forall_mem_cons.mp hcs
        obtain ⟨⟨first, hfirst, hsame⟩, ihrest⟩ := List.forall_mem_cons.mp ih
        obtain ⟨made, hmade, hbare⟩ := ihcs hrest ihrest
        refine ⟨first :: made, ?_, ?_⟩
        · rw [List.mapM_cons, hfirst, hmade]
          rfl
        · rw [List.flatten_cons, List.map_append, hsame, hbare, survivorsAll]
    have htree : IsTree (.node n) := (Every.node hholds hn hcs).isTree
    have hnodes : nodes (.node n) = .ok ([n] ++ made.flatten) :=
      collect_node htree hholds.children rfl hmade
    refine ⟨n :: made.flatten, hnodes, ?_⟩
    rw [survivors_node hholds, List.map_cons, hbare, among_nil, if_neg Bool.false_ne_true]

/-- A tree without nodes of some types. -/
def Clean (types : List Value) : Value → Prop :=
  Every fun n => n.type.among types = false

theorem clean_node (h : Holds n.children cs) :
    Clean types (.node n) ↔ n.type.among types = false ∧ ∀ c ∈ cs, Clean types c := by
  constructor
  · intro hclean
    cases hclean with
    | node hholds hn hcs =>
      obtain rfl := h.unique hholds
      exact ⟨hn, hcs⟩
  · exact fun ⟨hn, hcs⟩ => .node h hn hcs

/-- A tree whose nodes of some types stand apart: none that is not below another one has a sibling
directly after it that is, or has below it, such a node. -/
inductive Apart (types : List Value) : Value → Prop
  | node {n : Node} {cs : List Value} : Holds n.children cs →
      cs.IsChain (fun c d => isOf types c = true → Clean types d) →
      (∀ c ∈ cs, isOf types c = false → Apart types c) → Apart types (.node n)

theorem apart_node (h : Holds n.children cs) :
    Apart types (.node n) ↔ cs.IsChain (fun c d => isOf types c = true → Clean types d) ∧
      ∀ c ∈ cs, isOf types c = false → Apart types c := by
  constructor
  · intro hapart
    cases hapart with
    | node hholds hchain hcs =>
      obtain rfl := h.unique hholds
      exact ⟨hchain, hcs⟩
  · exact fun ⟨hchain, hcs⟩ => .node h hchain hcs

theorem Clean.apart {tree : Value} (h : Clean types tree) : isOf types tree = false ∧ Apart types tree := by
  induction h with
  | @node n cs hholds hn hcs ih =>
    refine ⟨hn, .node hholds ?_ fun c hc _ => (ih c hc).2⟩
    clear hholds hcs
    induction cs with
    | nil => exact .nil
    | cons c cs ihcs =>
      obtain ⟨⟨hc, -⟩, ihrest⟩ := List.forall_mem_cons.mp ih
      refine List.isChain_cons.mpr ⟨fun d _ hone => ?_, ihcs ihrest⟩
      rw [hc] at hone
      cases hone

/-- In reverse, no node is left that was to be taken out. -/
theorem clean_remains_reverse {P : Node → Prop} {tree : Value} (h : Every P tree)
    (hroot : isOf types tree = false) : Clean types (remains types true tree) := by
  induction h with
  | @node n cs hholds _ hcs ih =>
    obtain ⟨field, hremains, hfield⟩ := remains_node types true hholds
    rw [hremains]
    refine (clean_node hfield).mpr ⟨hroot, ?_⟩
    clear hholds hfield
    induction cs with
    | nil => simp [remainsAll]
    | cons c cs ihcs =>
      obtain ⟨-, hrest⟩ := List.forall_mem_cons.mp hcs
      obtain ⟨ihc, ihrest⟩ := List.forall_mem_cons.mp ih
      rw [remainsAll, if_neg Bool.false_ne_true, Bool.not_true]
      cases hone : isOf types c with
      | true =>
        rw [if_pos rfl]
        exact ihcs hrest ihrest
      | false =>
        rw [if_neg Bool.false_ne_true]
        exact List.forall_mem_cons.mpr ⟨ihc hone, ihcs hrest ihrest⟩

/-- What is left of children, not in reverse, holds no such node just when none of them is passed over that
does, and the others hold none afterwards. A child that is passed over is left as it is. -/
theorem forall_clean_remainsAll {cs : List Value}
    (h : ∀ c ∈ cs, isOf types c = false → (Clean types (remains types false c) ↔ Apart types c))
    (passed : Bool) : (∀ c ∈ remainsAll types false passed cs, Clean types c) ↔
      (passed = true → ∀ d ∈ cs.head?, Clean types d) ∧
        cs.IsChain (fun c d => isOf types c = true → Clean types d) ∧
        ∀ c ∈ cs, isOf types c = false → Apart types c := by
  induction cs generalizing passed with
  | nil => simp [remainsAll]
  | cons c cs ih =>
    obtain ⟨hc, hcs⟩ := List.forall_mem_cons.mp h
    have hlater := ih hcs
    rw [List.isChain_cons, List.forall_mem_cons]
    cases passed with
    | true =>
      rw [remainsAll, if_pos rfl, List.forall_mem_cons, hlater false]
      constructor
      · rintro ⟨hc, -, hchain, hapart⟩
        obtain ⟨hother, hcapart⟩ := hc.apart
        refine ⟨fun _ d hd => ?_, ⟨fun d _ hone => ?_, hchain⟩, fun _ => hcapart, hapart⟩
        · obtain rfl : c = d := Option.some.inj hd
          exact hc
        · rw [hother] at hone
          cases hone
      · rintro ⟨hhead, ⟨-, hchain⟩, -, hapart⟩
        exact ⟨hhead rfl c rfl, fun h => (Bool.false_ne_true h).elim, hchain, hapart⟩
    | false =>
      rw [remainsAll, if_neg Bool.false_ne_true]
      cases hone : isOf types c with
      | true =>
        rw [if_pos rfl, Bool.not_false, hlater true]
        constructor
        · rintro ⟨hhead, hchain, hapart⟩
          exact ⟨fun h => (Bool.false_ne_true h).elim, ⟨fun d hd _ => hhead rfl d hd, hchain⟩,
            fun h => (Bool.false_ne_true h.symm).elim, hapart⟩
        · rintro ⟨-, ⟨hhead, hchain⟩, -, hapart⟩
          exact ⟨fun _ d hd => hhead d hd rfl, hchain, hapart⟩
      | false =>
        rw [if_neg Bool.false_ne_true, List.forall_mem_cons, hc hone, hlater false]
        constructor
        · rintro ⟨hc, -, hchain, hapart⟩
          exact ⟨fun h => (Bool.false_ne_true h).elim,
            ⟨fun d _ h => (Bool.false_ne_true h).elim, hchain⟩, fun _ => hc, hapart⟩
        · rintro ⟨-, ⟨-, hchain⟩, hc, hapart⟩
          exact ⟨hc rfl, fun h => (Bool.false_ne_true h).elim, hchain, hapart⟩

/-- Not in reverse, no such node is left just when they stand apart. -/
theorem clean_remains_forward {P : Node → Prop} {tree : Value} (h : Every P tree)
    (hroot : isOf types tree = false) :
    Clean types (remains types false tree) ↔ Apart types tree := by
  induction h with
  | @node n cs hholds _ _ ih =>
    obtain ⟨field, hremains, hfield⟩ := remains_node types false hholds
    rw [hremains, clean_node hfield, apart_node hholds, forall_clean_remainsAll ih false]
    simp only [Bool.false_eq_true, false_implies, true_and, and_iff_right_iff_imp]
    exact fun _ => hroot

theorem mem_remainsAll {passed : Bool} {c : Value} (h : c ∈ remainsAll types reverse passed cs) :
    ∃ d ∈ cs, c = d ∨ c = remains types reverse d := by
  induction cs generalizing passed with
  | nil => simp [remainsAll] at h
  | cons d cs ih =>
    have hlater {passed : Bool} (h : c ∈ remainsAll types reverse passed cs) :
        ∃ e ∈ d :: cs, c = e ∨ c = remains types reverse e := by
      obtain ⟨e, he, hc⟩ := ih h
      exact ⟨e, List.mem_cons_of_mem _ he, hc⟩
    rw [remainsAll] at h
    split at h
    · rcases List.mem_cons.mp h with rfl | h
      · exact ⟨c, List.mem_cons_self, .inl rfl⟩
      · exact hlater h
    · split at h
      · exact hlater h
      · rcases List.mem_cons.mp h with rfl | h
        · exact ⟨d, List.mem_cons_self, .inr rfl⟩
        · exact hlater h

/-- What is left of a tree is a tree. -/
theorem Every.remains {P : Node → Prop} {tree : Value} (h : Every P tree) :
    Every (fun _ => True) (remains types reverse tree) := by
  induction h with
  | @node n cs hholds _ hcs ih =>
    obtain ⟨field, hremains, hfield⟩ := remains_node types reverse hholds
    rw [hremains]
    refine .node hfield trivial fun c hc => ?_
    obtain ⟨d, hd, rfl | rfl⟩ := mem_remainsAll hc
    · exact (hcs c hd).mono fun _ _ => trivial
    · exact ih d hd

end Left

/-- A visit that takes out the nodes of some types ends without a fault, in either direction, and keeps
every node that is not of these types and does not stand below one that is, all in their order. It leaves no
node of these types if it is in reverse, and otherwise just if they stand apart. -/
theorem visit_removing {σ : Type} {types : List Value} {visitor : Visitor σ}
    (hremoves : Removes types visitor) (reverse : Bool) {tree : Value}
    (htree : Every (Removable types) tree) (hroot : isOf types tree = false) (state : σ) :
    ∃ result state' ns, visit visitor reverse tree state = ⟨result, state', none⟩ ∧
      nodes result = .ok ns ∧ (survivors types tree).Sublist (ns.map bare) ∧
      (Clean types result ↔ reverse = true ∨ Apart types tree) := by
  obtain ⟨state', hvisit⟩ := visit_remains hremoves reverse htree hroot state
  have hresult : Every (fun _ => True) (remains types reverse tree) := htree.remains
  obtain ⟨ns, hns, hbare⟩ := nodes_survivors hresult
  refine ⟨_, state', ns, hvisit, hns, ?_, ?_⟩
  · rw [hbare, ← survivors_remains htree]
    exact survivors_sublist hresult
  · cases reverse with
    | true => simp [clean_remains_reverse htree hroot]
    | false => simpa using clean_remains_forward htree hroot

/-- The visitor that takes out the nodes of some types and does nothing else. -/
def remover (types : List Value) : Visitor Unit where
  test := .types types
  call index _ site state :=
    match Edit.remove.apply index site with
    | .ok left => (left, state, .proceed)
    | .error fault => (site, state, .fail fault)

theorem removes_remover (types : List Value) : Removes types (remover types) := by
  refine ⟨rfl, fun i parent site left state h => ⟨state, .proceed, ?_, .inl rfl⟩⟩
  have hedit : Edit.remove.apply (some i) site = .ok left := h
  show (match Edit.remove.apply (some i) site with
    | .ok left => (left, state, Verdict.proceed)
    | .error fault => (site, state, .fail fault)) = _
  rw [hedit]

section Lines

/-- Two lines of text. -/
def twoLines : Value :=
  .node (NodeOf.parent "root" [.node (NodeOf.literal "text" "a" .none),
    .node (NodeOf.literal "text" "b" .none)] .none)

theorem removable_twoLines : Every (Removable [.str "text"]) twoLines := by
  have hline (value : String) :
      Every (Removable [.str "text"]) (.node (NodeOf.literal "text" value .none)) :=
    .node .absent ⟨rfl, fun kind cs h => nomatch h⟩ (by simp)
  refine .node (.list _) ⟨rfl, fun kind cs h => nomatch h⟩ fun c hc => ?_
  simp only [List.mem_cons, List.not_mem_nil, or_false] at hc
  obtain rfl | rfl := hc <;> exact hline _

theorem isOf_twoLines : isOf [.str "text"] twoLines = false := by
  simp [twoLines, NodeOf.parent, isOf, Value.among, Value.equals, Value.equalsWith]

/-- In reverse, both lines are taken out. -/
theorem visit_removing_reverse :
    ∃ result state' ns, visit (remover [.str "text"]) true twoLines () = ⟨result, state', none⟩ ∧
      nodes result = .ok ns ∧ (survivors [.str "text"] twoLines).Sublist (ns.map bare) ∧
      (Clean [.str "text"] result ↔ true = true ∨ Apart [.str "text"] twoLines) :=
  visit_removing (removes_remover _) true removable_twoLines isOf_twoLines ()

/-- Not in reverse, the second line is passed over and left. -/
theorem visit_passes_over :
    ∃ result, visit (remover [.str "text"]) false twoLines () = ⟨result, (), none⟩ ∧
      isOf [.str "text"] twoLines = false ∧ ¬ Clean [.str "text"] result := by
  obtain ⟨state', hvisit⟩ :=
    visit_remains (removes_remover _) false removable_twoLines isOf_twoLines ()
  refine ⟨_, hvisit, isOf_twoLines, ?_⟩
  have hone : (Value.str "text").among [.str "text"] = true := by
    simp [Value.among, Value.equals, Value.equalsWith]
  have hremains : remains [.str "text"] false twoLines =
      .node (NodeOf.parent "root" [.node (NodeOf.literal "text" "b" .none)] .none) := by
    simp [twoLines, NodeOf.parent, NodeOf.literal, remains, remainsAll, isOf, hone]
  intro hclean
  rw [hremains] at hclean
  have hline := ((clean_node (.list _)).mp hclean).2 _ (List.mem_singleton.mpr rfl)
  have hother := ((clean_node .absent).mp hline).1
  rw [show (NodeOf.literal "text" "b" .none).type = .str "text" from rfl, hone] at hother
  cases hother

end Lines

end TextPipeline.Tree
