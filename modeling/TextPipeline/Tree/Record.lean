import TextPipeline.Tree.Basic

/-! Trees as records: a node is a mapping from the names of its fields to plain values, with absent
fields left out. Reading a record back gives an equal tree. -/

namespace TextPipeline.Tree

/-- The fields of a node's record. -/
def recordKeys : List String := ["type", "children", "value", "data", "position"]

/-- A point as a record. -/
def pointRecord (p : Point) : Value :=
  .record ([("line", p.line), ("column", p.column)] ++
    (if p.offset.isNone then [] else [("offset", p.offset)]))

/-- The position of a node as a record. -/
def positionRecord : Value → Outcome Value
  | .span start stop => .ok (.record [("start", pointRecord start), ("end", pointRecord stop)])
  | v => .error (.noAttribute ("'" ++ v.typeName ++ "' object has no attribute 'start'"))

/-- The fields of a node after its children. -/
def laterFields (type value data position : Value) : Outcome (List (String × Value)) := do
  let value := if value.isNone then [] else [("value", value)]
  unless data.isNone do data.validateData ((← type.render) ++ ".data")
  let data := if data.isNone then [] else [("data", data.asDict)]
  let position ← if position.isNone then pure []
    else do pure [("position", ← positionRecord position)]
  return value ++ data ++ position

mutual

/-- The record of a tree. Data outside the data variant cannot be recorded. -/
def toRecord : Value → Outcome Value
  | .node ⟨t, .list cs, v, d, p⟩ => do
    let below ← toRecords cs
    return .record ([("type", t), ("children", .list below)] ++ (← laterFields t v d p))
  | .node ⟨t, .sequence _ cs, v, d, p⟩ => do
    let below ← toRecords cs
    return .record ([("type", t), ("children", .list below)] ++ (← laterFields t v d p))
  | .node ⟨t, c, v, d, p⟩ => do
    let below ← if c.isNone then pure []
      else match (← c.iterate) with
        | [] => pure [("children", .list [])]
        | stray :: _ => throw (notNode stray)
    return .record (("type", t) :: below ++ (← laterFields t v d p))
  | v => .error (notNode v)

/-- The records of several trees. -/
def toRecords : List Value → Outcome (List Value)
  | [] => .ok []
  | c :: rest => do
    let first ← toRecord c
    return first :: (← toRecords rest)

end

/-- The fault of a record that describes no tree. -/
def badRecord (path detail : String) (origin : Option Fault) : Fault :=
  .parsing (.str ("Invalid node at " ++ path ++ ": " ++ detail)) none origin

/-- The fault of a record that describes no point. -/
def badPoint (path detail : String) (origin : Option Fault) : Fault :=
  .parsing (.str ("Invalid point at " ++ path ++ ": " ++ detail)) none origin

/-- Whether a fault of making a point is reported as a fault of its record. -/
def isPointFault (f : Fault) : Bool :=
  f.isKind "TypeError" || f.isKind "ValueError" || f.isKind "ValidationError"

/-- The point that a record describes. Lines and columns may be anything that reads as an
integer. -/
def ofPointRecord (path : String) (raw : Value) : Outcome Point :=
  match raw with
  | .mapping _ entries =>
    match Entries.get? entries "line", Entries.get? entries "column" with
    | some line, some column =>
      let made := do
        let line ← line.toInteger
        let column ← column.toInteger
        PointOf.make (.int line) (.int column) (Value.ofOption (Entries.get? entries "offset"))
      match made with
      | .ok p => .ok p
      | .error f => do
        if isPointFault f then throw (badPoint path (← f.render) (some f)) else throw f
    | _, _ => .error (expected path)
  | _ => .error (expected path)
where
  expected (path : String) : Fault :=
    badPoint path "expected an object with line and column" none

/-- The position that a record describes. -/
def ofPositionRecord (path : String) : Value → Outcome Value
  | .none => .ok .none
  | .mapping _ entries => do
    let field (name : String) : Outcome Point :=
      ofPointRecord (path ++ ".position." ++ name) (Value.ofOption (Entries.get? entries name))
    let start ← field "start"
    let stop ← field "end"
    return .span start stop
  | _ => .error (.parsing (.str ("Invalid position at " ++ path)) none none)

/-- Fails on a record with other fields than those of a node. -/
def checkKeys (path : String) (entries : Entries) : Outcome Unit := do
  let unknown := (entries.map (·.1)).filter fun k => !k.among (recordKeys.map .str)
  unless unknown.isEmpty do
    throw (badRecord path ("unknown keys " ++ (← joinSorted unknown)) none)

/-- The node that the fields of a record describe, once its children are read. -/
def ofFields (path : String) (entries : Entries) (children : Option (List Value)) :
    Outcome Node := do
  let field (name : String) : Value := Value.ofOption (Entries.get? entries name)
  let value ← match field "value" with
    | .none => pure Value.none
    | .str s => pure (Value.str s)
    | _ => throw (badRecord path "value must be a string" none)
  let position ← ofPositionRecord path (field "position")
  let data := field "data"
  let type := (Entries.get? entries "type").getD (.str "")
  let made := do
    unless data.isNone do data.validateData (path ++ ".data")
    NodeOf.make type (Value.ofOption (children.map .list)) value data.asDict position
  match made with
  | .ok n => return n
  | .error f =>
    if f.isKind "ValidationError" then throw (badRecord path (← f.render) (some f)) else throw f

mutual

/-- The tree that a record describes; `path` names its place in faults. -/
def ofRecord (path : String) : Value → Outcome Value
  | .mapping _ entries => do
    checkKeys path entries
    let children ← ofChildrenField path entries
    return .node (← ofFields path entries children)
  | v => .error (badRecord path ("expected an object, got " ++ v.typeName) none)

/-- The children that the fields of a record describe. -/
def ofChildrenField (path : String) : List (Value × Value) → Outcome (Option (List Value))
  | [] => .ok none
  | (.str "children", .list items) :: _ => do return some (← ofRecords path 0 items)
  | (.str "children", _) :: _ => .error (badRecord path "children must be a list" none)
  | _ :: rest => ofChildrenField path rest

/-- The trees that records describe, the children of the node at `path` from number `i` on. -/
def ofRecords (path : String) (i : Nat) : List Value → Outcome (List Value)
  | [] => .ok []
  | raw :: rest => do
    let first ← ofRecord (childPath path i) raw
    return first :: (← ofRecords path (i + 1) rest)

end

end TextPipeline.Tree
