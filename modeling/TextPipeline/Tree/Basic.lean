import TextPipeline.Value.Data

/-! Syntax tree nodes and places in a document: how they are made, and when a tree is well formed. -/

namespace TextPipeline

/-- The fault of a point before the first line or column. -/
def PointOf.tooEarly (line column : Value) : Outcome Fault := do
  return .validation (.str ("Point line and column are 1-based, got " ++ (← line.render) ++ ":" ++
    (← column.render))) none none

/-- The fault of a point before the first character. -/
def PointOf.negative (offset : Value) : Outcome Fault := do
  return .validation (.str ("Point offset must be non-negative, got " ++ (← offset.render))) none none

/-- A point of a document. Lines and columns count from one and offsets from zero. -/
def PointOf.make (line column offset : Value) : Outcome Point := do
  if ← line.isBelow 1 then throw (← tooEarly line column)
  if ← column.isBelow 1 then throw (← tooEarly line column)
  unless offset.isNone do
    if ← offset.isBelow 0 then throw (← negative offset)
  return ⟨line, column, offset⟩

namespace NodeOf

/-- A node of the given parts. Its type is a text that is not empty, and it does not carry both
children and a value. -/
def make (type children value data position : Value) : Outcome Node :=
  match type with
  | .str t =>
    if t == "" then .error emptyType
    else if !children.isNone && !value.isNone then
      .error (.violation "children" ("Node '" ++ t ++ "' cannot carry both children and a value"))
    else .ok ⟨type, children, value, data, position⟩
  | _ => .error emptyType
where
  emptyType : Fault := .violation "type" "Node type must be a non-empty string"

/-- A node that carries children. -/
def parent (type : String) (children : List Value) (position : Value) : Node :=
  ⟨.str type, .list children, .none, .none, position⟩

/-- A node that carries a value. -/
def literal (type value : String) (position : Value) : Node :=
  ⟨.str type, .none, .str value, .none, position⟩

def isParent (n : Node) : Bool := !n.children.isNone

def isLiteral (n : Node) : Bool := !n.value.isNone

/-- The node with a data mapping, an empty one if it had none. -/
def ensureData (n : Node) : Node :=
  if n.data.isNone then { n with data := .dict [] } else n

/-- Whether the node's type is the given text. -/
def hasType (n : Node) (type : String) : Bool :=
  n.type.equals (.str type)

end NodeOf

namespace Tree

/-- The fault of asking something that is not a node for a part of a node. -/
def notNode (v : Value) : Fault :=
  .noAttribute ("'" ++ v.typeName ++ "' object has no attribute 'children'")

/-- The node that a value is. -/
def asNode : Value → Outcome Node
  | .node n => .ok n
  | v => .error (notNode v)

/-- The children of a node that are reached by number; a node without children has none. -/
def children (n : Node) : Outcome (List Value) :=
  if n.children.isNone then .ok [] else n.children.indexed

/-- Succeeds if the type and the content of a node are well formed, and otherwise reports the first
of them that is not. -/
def checkNode (path : String) (n : Node) : Outcome Unit :=
  match n.type with
  | .str "" => .error (emptyType path)
  | .str t =>
    if !n.children.isNone && !n.value.isNone then
      .error (.violation path (path ++ " ('" ++ t ++ "') carries both children and a value"))
    else
      match n.value with
      | .none | .str _ => .ok ()
      | v =>
        .error (.violation (path ++ ".value")
          (path ++ " ('" ++ t ++ "') value must be a string, got " ++ v.typeName))
  | _ => .error (emptyType path)
where
  emptyType (path : String) : Fault :=
    .violation (path ++ ".type") (path ++ " has an empty type")

/-- Succeeds if the data of a node is absent or of the data variant. -/
def checkNodeData (path : String) (n : Node) : Outcome Unit :=
  if n.data.isNone then .ok () else n.data.validateData (path ++ ".data")

/-- The path of child number `i`. -/
def childPath (path : String) (i : Nat) : String :=
  path ++ ".children[" ++ toString i ++ "]"

/-- The fault of something that is not a node at a place of a tree. -/
def strayValue (path : String) (v : Value) : Fault :=
  .violation path (path ++ " is not a Node: " ++ v.typeName)

mutual

/-- Succeeds on a well-formed tree and otherwise reports the first violation, a node before its
children and the children in order. -/
def validate (path : String) : Value → Outcome Unit
  | .node ⟨t, .list cs, v, d, p⟩ => do
    checkNode path ⟨t, .list cs, v, d, p⟩
    checkNodeData path ⟨t, .list cs, v, d, p⟩
    validateChildren path 0 cs
  | .node ⟨t, .sequence kind cs, v, d, p⟩ => do
    checkNode path ⟨t, .sequence kind cs, v, d, p⟩
    checkNodeData path ⟨t, .sequence kind cs, v, d, p⟩
    validateChildren path 0 cs
  | .node ⟨t, c, v, d, p⟩ => do
    checkNode path ⟨t, c, v, d, p⟩
    checkNodeData path ⟨t, c, v, d, p⟩
    unless c.isNone do
      match (← c.iterate) with
      | [] => return ()
      | first :: _ => throw (strayValue (childPath path 0) first)
  | v => .error (strayValue path v)

/-- Validates the children of the node at `path` from number `i` on. -/
def validateChildren (path : String) (i : Nat) : List Value → Outcome Unit
  | [] => .ok ()
  | c :: rest => do
    validate (childPath path i) c
    validateChildren path (i + 1) rest

end

end Tree

end TextPipeline
