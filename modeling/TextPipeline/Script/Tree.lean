import TextPipeline.Script.Writing
import TextPipeline.Tree.Rebuild
import TextPipeline.Tree.Visit
import TextPipeline.Tree.Walk
import TextPipeline.Value.Copy
import TextPipeline.Value.Member

/-! Scripts that walk through trees, change them and copy them. Everything that a script describes has a
copy. -/

namespace TextPipeline

/-- The copy of a value that has one. -/
def Value.copy (v : Value) : Value := v.duplicate.toOption.getD v

/-- The copy of the entries of a mapping that has one. -/
def Value.copyEntries (entries : Entries) : Entries :=
  (Value.duplicateEntries entries).toOption.getD entries

namespace Script

/-- The type and the value of a node. -/
def brief : Value → Value
  | .node n => .list [View.plain.value n.type, View.plain.value n.value]
  | v => View.plain.value v

def briefOf (n : Option Node) : Value :=
  .ofOption (n.map fun n => brief (.node n))

def writeIndex (i : Option Nat) : Value :=
  .ofOption (i.map .nat)

/-- The test of nodes that a description stands for. -/
def Scope.test (scope : Scope) (v : Value) : Outcome Tree.Test := do
  match field? v "pred" with
  | some (.str "literal") => return .predicate fun n => .ok n.isLiteral
  | some (.str "parent") => return .predicate fun n => .ok n.isParent
  | some (.str "void") => return .predicate fun n => .ok (!n.isLiteral && !n.isParent)
  | some (.str "value_contains") =>
    return .predicate fun n =>
      if n.value.isNone then .ok false else (field v "text").isIn n.value
  | some (.str "truthy_value") => return .predicate fun n => .ok n.value.truthy
  | _ => Tree.Test.ofValue (← scope.value v)

/-- The edit that a list of its name and its arguments stands for. -/
def Scope.edit (scope : Scope) (v : Value) : Tree.Edit :=
  let made (r : Outcome Tree.Edit) : Tree.Edit :=
    match r with
    | .ok e => e
    | .error f => .raise f
  match text (item v 0) with
  | "remove" => .remove
  | "replace" => made do return .replace (← scope.tree (item v 1))
  | "insert" =>
    let offset : Int := match item v 1 with
      | .int n => n
      | _ => 0
    made do return .insert offset (← scope.tree (item v 2))
  | "set_value" => made do return .setValue (← scope.value (item v 1))
  | "set_children" => made do return .setChildren (← scope.trees (item v 1))
  | _ => .raise (faultOf (item v 1))

/-- Whether a rule of a script is for a node: its type and its value are as the rule wants them. -/
def isFor (n : Node) (rule : Value) : Bool :=
  (match field rule "type" with
    | .none => true
    | t => n.type.equals t) &&
  (match field? rule "value" with
    | some w => n.value.equals w
    | none => true)

/-- The visitor that follows the first rule that is for a node, and notes its calls. -/
def visitorOf (scope : Scope) (test : Tree.Test) (rules : List Value) :
    Tree.Visitor (List Value) where
  test := test
  call i parent site calls :=
    let calls := calls ++ [.list [brief (.node site.node), writeIndex i, briefOf parent]]
    match rules.find? (isFor site.node) with
    | none => (site, calls, .proceed)
    | some rule =>
      let (site, fault) := Tree.Edit.applyAll i site ((listField rule "do").map scope.edit)
      match fault with
      | some f => (site, calls, .fail f)
      | none =>
        match scope.value (field rule "return") with
        | .ok v => (site, calls, Tree.Verdict.ofValue v)
        | .error f => (site, calls, .fail f)

/-- A visit of a tree: the calls, the tree after it, and the fault with which it ended. -/
def replayVisit (scope : Scope) (script : Value) : Outcome Value := do
  let tree ← scope.tree (field script "tree")
  let answer (calls : List Value) (tree failure : Value) : Value :=
    .record [("calls", .list calls), ("tree", View.plain.node tree), ("failure", failure)]
  match scope.test (field script "test") with
  | .error f => return answer [] tree (View.plain.failure f [])
  | .ok test =>
    let visitor := visitorOf scope test (listField script "rules")
    let result := Tree.visit visitor (flag script "reverse") tree []
    let failure := match result.ending with
      | some (.failed f) => View.plain.failure f []
      | _ => .none
    return answer result.state result.seen failure

/-- Fails if the children after a node cannot be taken out of its parent. A walk has taken note of
them before, so that it does not miss them. -/
def dropFollowing (visit : Tree.Visit) : Outcome Unit :=
  match visit.parent with
  | none => .error (.noAttribute "'NoneType' object has no attribute 'children'")
  | some parent =>
    match parent.children with
    | .list _ => .ok ()
    | v => .error (.wrongType ("'" ++ v.typeName ++ "' object doesn't support item deletion"))

/-- A node after the rules of a script that are for its type. -/
def followRules (scope : Scope) (rules : List Value) (visit : Tree.Visit) (n : Node) :
    Outcome Node :=
  (rules.filter fun rule => n.type.equals (field rule "type")).foldlM (fun n rule => do
    let n ← match field? rule "children" with
      | some cs => do pure { n with children := ← scope.trees cs }
      | none => pure n
    if flag rule "pop_next" then dropFollowing visit
    return n) n

/-- A walk through a tree whose nodes may get other children on the way. -/
def replayWalk (scope : Scope) (script : Value) : Outcome Value := do
  let tree ← scope.tree (field script "tree")
  let walked := Tree.walkFrom (followRules scope (listField script "rules"))
    (Tree.size tree + Tree.growth) [⟨tree, none, none⟩]
  match walked.fault with
  | some fault => throw fault
  | none =>
    return .list (walked.visits.map fun v =>
      .list [brief v.node, briefOf v.parent, writeIndex v.index])

/-- The methods of a script that look at nodes and note their calls. -/
def visitMethods (scope : Scope) (methods : Value) (name : String) :
    Option (Tree.Handler (StateT (List Value) Outcome) Value) :=
  (field? methods name).map fun method n descend => do
    modify (· ++ [.list [.str name, View.plain.value n.type, View.plain.value n.value]])
    if flag method "descend" then
      let _ ← descend
    scope.value (field method "return")

/-- The methods of a script that rebuild nodes and note their calls. -/
def rebuildMethods (scope : Scope) (methods : Value) (name : String) :
    Option (Tree.Handler (StateT (List Value × List Node) Outcome) (Option Value)) :=
  (field? methods name).map fun method n rebuilt => do
    modify fun (calls, kept) => (calls ++ [.list [.str name, View.plain.value n.type]], kept)
    match textField method "act" with
    | "remove" => return none
    | "same" =>
      modify fun (calls, kept) => (calls, kept ++ [n])
      return some (.node n)
    | "rename" =>
      match ← rebuilt with
      | some (.node m) => return some (.node { m with type := field method "to" })
      | r => return r
    | "flatten" => return some (.node (NodeOf.literal "text" (← Tree.textOf (.node n)) .none))
    | "node" =>
      match ← scope.tree (field method "node") with
      | .none => return none
      | v => return some v
    | _ => rebuilt

end Script

end TextPipeline
