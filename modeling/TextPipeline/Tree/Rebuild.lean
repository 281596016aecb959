import TextPipeline.Tree.Literal
import TextPipeline.Value.Copy

/-! Rebuilding a tree: a copy in which some nodes are replaced or left out. The tree itself is not
changed. -/

namespace TextPipeline.Tree

/-- The method that handles nodes of a type: the type with every character outside letters, digits
and the underscore replaced by an underscore. -/
def methodName (type : Value) : Outcome String :=
  match type with
  | .str s => .ok ("visit_" ++ String.ofList (s.toList.map fun c =>
      if c.isAlphanum || c == '_' then c else '_'))
  | v => .error (.wrongType ("expected string or bytes-like object, got '" ++ v.typeName ++ "'"))

section

variable {m : Type → Type} [Monad m] [MonadExceptOf Fault m]

/-- An outcome as a step of a computation. -/
def lift {α : Type} : Outcome α → m α
  | .ok a => pure a
  | .error fault => throw fault

/-- Fails if a value that is not a list of children yields anything. -/
def noStray (children : Value) : Outcome Unit := do
  if children.isNone then return ()
  match (← children.iterate) with
  | [] => return ()
  | stray :: _ => throw (notNode stray)

/-- What handles a node: it is given the node and the default treatment. -/
abbrev Handler (m : Type → Type) (α : Type) := Node → m α → m α

/-- The handler of a node: that of its type, or else the general one. -/
def handlerOf {α : Type} (handlers : String → Option (Handler m α)) (n : Node) :
    m (Handler m α) := do
  let name ← lift (methodName n.type)
  match handlers name with
  | some handler => return handler
  | none => return (handlers "generic_visit").getD fun _ default => default

mutual

/-- Sends a tree to handlers. The default treatment of a node is to send its children to them and
answer nothing. -/
def dispatch (handlers : String → Option (Handler m Value)) : Value → m Value
  | .node ⟨t, .list cs, v, d, p⟩ => do
    (← handlerOf handlers ⟨t, .list cs, v, d, p⟩) ⟨t, .list cs, v, d, p⟩ (dispatchAll handlers cs)
  | .node ⟨t, .sequence kind cs, v, d, p⟩ => do
    (← handlerOf handlers ⟨t, .sequence kind cs, v, d, p⟩) ⟨t, .sequence kind cs, v, d, p⟩
      (dispatchAll handlers cs)
  | .node n => do
    (← handlerOf handlers n) n (do lift (noStray n.children); return .none)
  | v => throw (notNode v)

/-- Sends several trees to handlers. -/
def dispatchAll (handlers : String → Option (Handler m Value)) : List Value → m Value
  | [] => pure .none
  | c :: rest => do
    let _ ← dispatch handlers c
    dispatchAll handlers rest

end

mutual

/-- Rebuilds a tree with handlers, each of which answers with a node's replacement or with nothing
to leave the node out. The default treatment of a node is to copy it with its children rebuilt. -/
def rebuild (handlers : String → Option (Handler m (Option Value))) : Value → m (Option Value)
  | .node ⟨t, .list cs, v, d, p⟩ => do
    (← handlerOf handlers ⟨t, .list cs, v, d, p⟩) ⟨t, .list cs, v, d, p⟩ (do
      let below ← rebuildAll handlers cs
      return some (.node (← lift (NodeOf.make t (.list below) v (← lift d.duplicate) p))))
  | .node ⟨t, .sequence kind cs, v, d, p⟩ => do
    (← handlerOf handlers ⟨t, .sequence kind cs, v, d, p⟩) ⟨t, .sequence kind cs, v, d, p⟩ (do
      let below ← rebuildAll handlers cs
      return some (.node (← lift (NodeOf.make t (.list below) v (← lift d.duplicate) p))))
  | .node n => do
    (← handlerOf handlers n) n (do
      lift (noStray n.children)
      let below := if n.children.isNone then .none else .list []
      return some (.node (← lift (NodeOf.make n.type below n.value (← lift n.data.duplicate)
        n.position))))
  | v => throw (notNode v)

/-- Rebuilds several trees, without those that are left out. -/
def rebuildAll (handlers : String → Option (Handler m (Option Value))) : List Value → m (List Value)
  | [] => pure []
  | c :: rest => do
    let first ← rebuild handlers c
    let others ← rebuildAll handlers rest
    return first.toList ++ others

end

mutual

/-- A copy of a tree without the nodes below the root that `keep` rejects, each with all that is
below it. -/
def filter (keep : Node → m Bool) : Value → m Value
  | .node ⟨t, .list cs, v, d, p⟩ => do
    let below ← filterAll keep cs
    return .node (← lift (NodeOf.make t (.list below) v (← lift d.duplicate) p))
  | .node ⟨t, .sequence _ cs, v, d, p⟩ => do
    let below ← filterAll keep cs
    return .node (← lift (NodeOf.make t (.list below) v (← lift d.duplicate) p))
  | .node n => do
    lift (noStray n.children)
    let below := if n.children.isNone then .none else .list []
    return .node (← lift (NodeOf.make n.type below n.value (← lift n.data.duplicate) n.position))
  | v => throw (notNode v)

/-- Copies of the trees that `keep` accepts. -/
def filterAll (keep : Node → m Bool) : List Value → m (List Value)
  | [] => pure []
  | c :: rest => do
    let kept ← keep (← lift (asNode c))
    if kept then
      let first ← filter keep c
      return first :: (← filterAll keep rest)
    else filterAll keep rest

end

end

/-- A copy of a tree without the nodes below the root whose types are listed. -/
def removeTypes (types : List Value) (tree : Value) : Outcome Value :=
  filter (fun n => do return !(← n.type.asKey).among types) tree

end TextPipeline.Tree
