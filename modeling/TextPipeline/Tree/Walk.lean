import TextPipeline.Tree.Basic

/-! Walking a tree: every node once, a node before its children and the children in order. The walk
keeps a stack of the nodes still to come, so that a node's children are read when it is reached. -/

namespace TextPipeline.Tree

/-- A node that a walk comes to, with its parent and its number among the parent's children. -/
structure Visit where
  node : Value
  parent : Option Node
  index : Option Nat

mutual

/-- The number of nodes of a tree; something that is no node counts as one, too. -/
def size : Value → Nat
  | .node ⟨_, .list cs, _, _, _⟩ | .node ⟨_, .sequence _ cs, _, _, _⟩ => sizeAll cs + 1
  | .node ⟨_, .mapping _ es, _, _, _⟩ => sizeEntries es + 1
  | .node ⟨_, .none, _, _, _⟩ => 1
  | .node _ => 2
  | _ => 1

/-- The number of nodes of several trees. -/
def sizeAll : List Value → Nat
  | [] => 0
  | c :: rest => size c + sizeAll rest

/-- The number of nodes of the trees that a mapping holds. -/
def sizeEntries : List (Value × Value) → Nat
  | [] => 0
  | (_, c) :: rest => size c + sizeEntries rest

end

/-- The children `cs` of `parent` as nodes that a walk comes to, numbered from `i` on. -/
def visits (parent : Node) (i : Nat) : List Value → List Visit
  | [] => []
  | c :: rest => ⟨c, some parent, some i⟩ :: visits parent (i + 1) rest

/-- The fault of a traversal that does not end within its bound. -/
def endless : Fault := .raised "RecursionError" [.str "traversal does not end"]

/-- What a walk came to, and the fault that ended it early, if one did. -/
structure Walked where
  visits : List Visit
  fault : Option Fault

/-- A walk that goes on after one more visit. -/
def Walked.after (visit : Visit) (w : Walked) : Walked :=
  { w with visits := visit :: w.visits }

/-- Walks the nodes on `stack`, at most `fuel` of them. Each node is changed by `edit` after it was
come to and before its children are read. -/
def walkFrom (edit : Visit → Node → Outcome Node) : Nat → List Visit → Walked
  | _, [] => ⟨[], none⟩
  | 0, _ :: _ => ⟨[], some endless⟩
  | fuel + 1, visit :: stack =>
    let below := do
      let edited ← edit visit (← asNode visit.node)
      return visits edited 0 (← children edited)
    match below with
    | .ok below => (walkFrom edit fuel (below ++ stack)).after visit
    | .error fault => ⟨[visit], some fault⟩

/-- The nodes of a tree in the order of a walk. -/
def walk (tree : Value) : Walked :=
  walkFrom (fun _ n => .ok n) (size tree) [⟨tree, none, none⟩]

/-- Makes something of the nodes of a tree in the order of a walk; what is made of a node comes
before its children are read. -/
def collect {α : Type} (f : Node → Outcome (List α)) (tree : Value) : Outcome (List α) := do
  let walked := walk tree
  let made ← walked.visits.mapM fun visit => do f (← asNode visit.node)
  match walked.fault with
  | some fault => throw fault
  | none => return made.flatten

/-- The nodes of a tree, without their places. -/
def nodes (tree : Value) : Outcome (List Node) :=
  collect (fun n => .ok [n]) tree

mutual

/-- The nodes of a tree by recursion: a node, then those of its first child, and so on. -/
def preorder (parent : Option Node) (index : Option Nat) : Value → List Visit
  | .node ⟨t, .list cs, v, d, p⟩ =>
    ⟨.node ⟨t, .list cs, v, d, p⟩, parent, index⟩ :: preorderAll ⟨t, .list cs, v, d, p⟩ 0 cs
  | .node ⟨t, .sequence kind cs, v, d, p⟩ =>
    ⟨.node ⟨t, .sequence kind cs, v, d, p⟩, parent, index⟩ :: preorderAll ⟨t, .sequence kind cs, v, d, p⟩ 0 cs
  | tree => [⟨tree, parent, index⟩]

/-- The nodes of the children of `parent` from number `i` on. -/
def preorderAll (parent : Node) (i : Nat) : List Value → List Visit
  | [] => []
  | c :: rest => preorder (some parent) (some i) c ++ preorderAll parent (i + 1) rest

end

/-- Which nodes to select: all, those of some types, or those that satisfy a predicate. -/
inductive Test where
  | all
  | type (name : String)
  | types (names : List Value)
  | predicate (p : Node → Outcome Bool)

/-- Whether a node is selected. -/
def Test.holds : Test → Node → Outcome Bool
  | .all, _ => .ok true
  | .type name, n => .ok (n.hasType name)
  | .types names, n => do return (← n.type.asKey).among names
  | .predicate p, n => p n

/-- The test that a value describes: absence selects all nodes, a text those of one type, a
collection those of any of its types, and a function that gives nothing no node. -/
def Test.ofValue : Value → Outcome Test
  | .none => .ok .all
  | .str name => .ok (.type name)
  | .anonymous => .ok (.predicate fun _ => .ok false)
  | v => do return .types (← (← v.iterate).mapM Value.asKey)

/-- The selected nodes of a tree, in the order of a walk. -/
def findAll (test : Test) (tree : Value) : Outcome (List Node) :=
  collect (fun n => do return if ← test.holds n then [n] else []) tree

end TextPipeline.Tree
