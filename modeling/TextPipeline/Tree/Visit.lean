import TextPipeline.Tree.Walk
import TextPipeline.Value.Edit

/-! Visiting a tree while editing it. A visitor is called on the selected nodes, may change the node
and the collection that the node stands in, and says how the visit goes on. The collection is read
again after every call, so that edits show in the rest of the visit. -/

namespace TextPipeline.Tree

/-- A node under a visit and the collection of siblings it was found in. `focus` is the number at
which the node stands in that collection, until it is taken out. -/
structure Site where
  siblings : Value
  focus : Option Nat
  node : Node

namespace Site

/-- Where an element goes that is inserted at `i` into a list of length `n`: negative numbers
count from the end, and numbers beyond either end mean that end. -/
def place (i : Int) (n : Nat) : Nat :=
  if i < 0 then (i + n).toNat else min i.toNat n

/-- Inserts a sibling. Only lists can be inserted into. -/
def insert (s : Site) (i : Int) (v : Value) : Outcome Site :=
  match s.siblings with
  | .list items =>
    let at_ := place i items.length
    .ok { s with
      siblings := .list (items.insertIdx at_ v)
      focus := s.focus.map fun f => if at_ ≤ f then f + 1 else f }
  | siblings =>
    .error (.noAttribute ("'" ++ siblings.typeName ++ "' object has no attribute 'insert'"))

/-- The fault of changing an element of a list that is not there. -/
def outOfRange : Fault :=
  .raised "IndexError" [.str "list assignment index out of range"]

/-- Removes the sibling of number `i`. -/
def remove (s : Site) (i : Nat) : Outcome Site :=
  match s.siblings with
  | .list items =>
    if i < items.length then
      .ok { s with
        siblings := .list (items.eraseIdx i)
        focus := s.focus.bind fun f =>
          if f = i then none else some (if i < f then f - 1 else f) }
    else .error outOfRange
  | siblings => do
    return { s with siblings := ← siblings.eraseItem (.nat i), focus := s.focus.filter (· != i) }

/-- Replaces the sibling of number `i`. -/
def replace (s : Site) (i : Nat) (v : Value) : Outcome Site :=
  match s.siblings with
  | .list items =>
    if i < items.length then
      .ok { s with siblings := .list (items.set i v), focus := s.focus.filter (· != i) }
    else .error outOfRange
  | siblings => do
    return { s with siblings := ← siblings.setItem (.nat i) v, focus := s.focus.filter (· != i) }

/-- The siblings, with the node as it is now in its place. -/
def close (s : Site) : Value :=
  match s.focus, s.siblings with
  | some f, .list items => .list (items.set f (.node s.node))
  | some f, .sequence kind items => .sequence kind (items.set f (.node s.node))
  | some f, .mapping kind entries =>
    .mapping kind (Entries.insert (.nat f) (.node s.node) entries)
  | _, siblings => siblings

end Site

/-- How a visit goes on after a call. -/
inductive Verdict where
  | proceed
  | skip
  | stop
  | fail (fault : Fault)

/-- The verdict that an answer stands for. -/
def Verdict.ofValue (v : Value) : Verdict :=
  if v.equals (.str "exit") then .stop
  else if v.equals (.str "skip") then .skip
  else .proceed

/-- A visitor with a state of its own: which nodes it is called on, and what a call with a node's
number, parent and site does. -/
structure Visitor (σ : Type) where
  test : Test
  call : Option Nat → Option Node → Site → σ → Site × σ × Verdict

/-- Why a visit ended before its last node. -/
inductive Ending where
  | stopped
  | failed (fault : Fault)

/-- The state of a visit: what was visited, the visitor's state, and whether the visit is over. -/
structure Progress (α σ : Type) where
  seen : α
  state : σ
  ending : Option Ending

/-- The number after `i` in the direction of the visit. -/
def advance (reverse : Bool) (i : Int) : Int :=
  if reverse then i - 1 else i + 1

/-- The number of children of a node. -/
def width (n : Node) : Outcome Nat :=
  if n.children.isNone then .ok 0 else n.children.length

/-- The child of number `i`, if there are that many. -/
def nextChild (n : Node) (i : Int) : Outcome (Option Node) := do
  let count ← width n
  if 0 ≤ i ∧ i < count then return some (← asNode (← n.children.item i.toNat))
  else return none

mutual

/-- Visits the node of a site and what is below it. -/
def visitSite {σ : Type} (visitor : Visitor σ) (reverse : Bool) :
    Nat → Option Nat → Option Node → Site → σ → Progress Site σ
  | 0, _, _, site, state => ⟨site, state, some (.failed endless)⟩
  | fuel + 1, index, parent, site, state =>
    match visitor.test.holds site.node with
    | .error fault => ⟨site, state, some (.failed fault)⟩
    | .ok selected =>
      let (site, state, verdict) :=
        if selected then visitor.call index parent site state else (site, state, .proceed)
      match verdict with
      | .stop => ⟨site, state, some .stopped⟩
      | .fail fault => ⟨site, state, some (.failed fault)⟩
      | .skip => ⟨site, state, none⟩
      | .proceed =>
        match width site.node with
        | .error fault => ⟨site, state, some (.failed fault)⟩
        | .ok n =>
          let start : Int := if reverse then (n : Int) - 1 else 0
          let result := visitChildren visitor reverse fuel start site.node state
          ⟨{ site with node := result.seen }, result.state, result.ending⟩

/-- Visits the children of a node from number `i` on. -/
def visitChildren {σ : Type} (visitor : Visitor σ) (reverse : Bool) :
    Nat → Int → Node → σ → Progress Node σ
  | 0, _, node, state => ⟨node, state, some (.failed endless)⟩
  | fuel + 1, i, node, state =>
    match nextChild node i with
    | .error fault => ⟨node, state, some (.failed fault)⟩
    | .ok none => ⟨node, state, none⟩
    | .ok (some child) =>
      let result := visitSite visitor reverse fuel (some i.toNat) (some node)
        ⟨node.children, some i.toNat, child⟩ state
      let node := { node with children := result.seen.close }
      match result.ending with
      | some ending => ⟨node, result.state, some ending⟩
      | none => visitChildren visitor reverse fuel (advance reverse i) node result.state

end

/-- How far a visit follows the insertions of its visitor. -/
def growth : Nat := 10000

/-- Visits a tree. The root is a site of its own, without siblings. -/
def visit {σ : Type} (visitor : Visitor σ) (reverse : Bool) (tree : Value) (state : σ) :
    Progress Value σ :=
  match tree with
  | .node n =>
    let result := visitSite visitor reverse (2 * size tree + growth) none none ⟨.none, none, n⟩ state
    ⟨.node result.seen.node, result.state, result.ending⟩
  | v => ⟨v, state, some (.failed (notNode v))⟩

/-- An edit that a visitor makes. -/
inductive Edit where
  | remove
  | replace (v : Value)
  | insert (offset : Int) (v : Value)
  | setValue (v : Value)
  | setChildren (v : Value)
  | raise (fault : Fault)

/-- Makes an edit at the site of the node of number `index`. The root has no list to edit. -/
def Edit.apply (index : Option Nat) (site : Site) : Edit → Outcome Site
  | .setValue v => .ok { site with node := { site.node with value := v } }
  | .setChildren v => .ok { site with node := { site.node with children := v } }
  | .raise fault => .error fault
  | .remove => do site.remove (← number)
  | .replace v => do site.replace (← number) v
  | .insert offset v => do site.insert ((← number) + offset) v
where
  number : Outcome Nat :=
    match index with
    | some i => .ok i
    | none => .error (.noAttribute "'NoneType' object has no attribute 'children'")

/-- Makes edits one after another, up to the first that fails. -/
def Edit.applyAll (index : Option Nat) (site : Site) : List Edit → Site × Option Fault
  | [] => (site, none)
  | edit :: rest =>
    match edit.apply index site with
    | .ok site => applyAll index site rest
    | .error fault => (site, some fault)

end TextPipeline.Tree
