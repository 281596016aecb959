import TextPipeline.Value.Sequence
import TextPipeline.Yaml.Node
import TextPipeline.Yaml.Number
import TextPipeline.Yaml.Timestamp

/-! The value that a YAML document stands for. A node is made into a value once, however often it is
named. Collections are made empty and filled later, in the order in which they were made, so that
they may hold each other. -/

namespace TextPipeline.Yaml

open TextPipeline.Text

namespace Node

def tag : Node → String
  | .scalar tag _ | .sequence tag _ | .mapping tag _ => tag

/-- The node with another tag. -/
def withTag (tag : String) : Node → Node
  | .scalar _ text => .scalar tag text
  | .sequence _ items => .sequence tag items
  | .mapping _ entries => .mapping tag entries

/-- The entries of a mapping. -/
def entries : Node → List (Nat × Nat)
  | .mapping _ entries => entries
  | _ => []

end Node

namespace Graph

/-- The node of a number. -/
def node (g : Graph) (id : Nat) : Node :=
  g.getD id (.scalar (Tag.standard "null") "")

/-- The tag of the node of a number. -/
def tag (g : Graph) (id : Nat) : String := (g.node id).tag

/-- The text of a node of a scalar type. A mapping stands for the value of its key `=`. -/
def text (g : Graph) : Nat → Nat → Outcome String
  | 0, _ => .error (.raised "RecursionError" [])
  | fuel + 1, id =>
    match g.node id with
    | .scalar _ text => .ok text
    | .mapping _ entries =>
      match entries.find? fun e => g.tag e.1 == Tag.standard "value" with
      | some (_, value) => g.text fuel value
      | none => .error (malformed "expected a scalar node")
    | .sequence .. => .error (malformed "expected a scalar node")

/-- The number of nodes and of their places in other nodes. -/
def places (g : Graph) : Nat :=
  g.foldl (fun n node =>
    match node with
    | .scalar .. => n + 1
    | .sequence _ items => n + items.length + 1
    | .mapping _ entries => n + entries.length + 1) 1

end Graph

/-- A step of changing a document. -/
abbrev Changing := StateT Graph (Except Fault)

/-- Changes the entries of a mapping. -/
def setEntries (id : Nat) (entries : List (Nat × Nat)) : Changing Unit :=
  modify fun g => g.modify id fun
    | .mapping tag _ => .mapping tag entries
    | node => node

mutual

/-- Replaces what a mapping merges by the entries that it stands for, which come first. The entries
of a merged mapping are its own after the same has been done to it. -/
def flatten : Nat → Nat → Changing Unit
  | 0, _ => return ()
  | fuel + 1, id => do
    let merge ← mergedFrom fuel id 0
    unless merge.isEmpty do setEntries id (merge ++ ((← get).node id).entries)

/-- The entries that a mapping merges from its entry of number `i` on. A key that means the mapping
as a whole becomes an ordinary text. -/
def mergedFrom : Nat → Nat → Nat → Changing (List (Nat × Nat))
  | 0, _, _ => return []
  | fuel + 1, id, i => do
    let g ← get
    let entries := (g.node id).entries
    match entries[i]? with
    | none => return []
    | some (key, value) =>
      if g.tag key == Tag.standard "merge" then
        setEntries id (entries.eraseIdx i)
        let merge ← match g.node value with
          | .mapping .. => mergedAll fuel [value]
          | .sequence _ items => mergedAll fuel items
          | .scalar .. => throw (malformed "expected a mapping or list of mappings for merging")
        return merge ++ (← mergedFrom fuel id i)
      else
        if g.tag key == Tag.standard "value" then
          modify fun g => g.modify key (·.withTag (Tag.standard "str"))
        mergedFrom fuel id (i + 1)

/-- The entries of several merged mappings, those of the last first. -/
def mergedAll : Nat → List Nat → Changing (List (Nat × Nat))
  | 0, _ => return []
  | _, [] => return []
  | fuel + 1, id :: rest => do
    match (← get).node id with
    | .mapping .. =>
      flatten fuel id
      let own := ((← get).node id).entries
      return (← mergedAll fuel rest) ++ own
    | _ => throw (malformed "expected a mapping for merging")

end

/-- What a node has been made into: a value, or the collection of a number. A value that equals only
itself is known by the node that it was made from. -/
inductive Part where
  | plain (v : Value) (origin : Option Nat)
  | object (id : Nat)
  deriving Inhabited

/-- Whether two keys are the same. -/
def Part.same : Part → Part → Bool
  | .plain (.float x) a, .plain (.float y) b => x == y || (x.isNaN && y.isNaN && a == b)
  | .plain v _, .plain w _ => v.equals w
  | _, _ => false

/-- The contents of a collection. -/
inductive Contents where
  | list (items : List Part)
  | pairs (items : List (Part × Part))
  | set (items : List Part)
  | dict (entries : List (Part × Part))
  deriving Inhabited

/-- The state of making a document into a value. -/
structure Maker where
  graph : Graph
  /-- What the nodes have been made into. -/
  made : List (Nat × Part)
  /-- The collections by their numbers. -/
  objects : Array Contents
  /-- The nodes whose collections are still to be filled. -/
  waiting : List (Nat × Nat)

/-- A step of making a document into a value. -/
abbrev Making := StateT Maker (Except Fault)

namespace Making

/-- Changes the document. -/
def change {α : Type} (x : Changing α) : Making α := do
  let m ← get
  let (a, graph) ← x.run m.graph
  set { m with graph := graph }
  return a

/-- Makes an empty collection that is filled later. -/
def collection (id : Nat) (empty : Contents) : Making Part := do
  let m ← get
  let object := m.objects.size
  set { m with objects := m.objects.push empty, waiting := m.waiting ++ [(id, object)] }
  return .object object

/-- The fault of a tag that stands for nothing. -/
def unknownTag (tag : String) : Fault :=
  malformed ("could not determine a constructor for the tag " ++ quoted tag)

/-- The value of a node of a scalar type. -/
def scalar (g : Graph) (id : Nat) : Outcome Part := do
  let tag := g.tag id
  let known := ["null", "bool", "int", "float", "binary", "timestamp", "str"].map Tag.standard
  unless known.contains tag do throw (unknownTag tag)
  let text ← g.text (g.size + 1) id
  let value (v : Value) : Part := .plain v (some id)
  if tag == Tag.standard "null" then return value .none
  else if tag == Tag.standard "bool" then return value (.bool (← readBool text))
  else if tag == Tag.standard "int" then return value (.int (← readInt text))
  else if tag == Tag.standard "float" then
    let isName := [".nan", "+.nan", "-.nan"].contains (lower (text.replace "_" ""))
    return .plain (.float (← readFloat text)) (if isName then none else some id)
  else if tag == Tag.standard "binary" then return value (.bytes (← readBinary text))
  else if tag == Tag.standard "timestamp" then
    match g.node id with
    | .scalar .. => return value (.moment (← readMoment text))
    | _ => throw (.wrongType "expected string or bytes-like object, got 'list'")
  else return value (.str text)

/-- Makes a node into a value, unless that has been done. -/
def part (id : Nat) : Making Part := do
  let m ← get
  match m.made.lookup id with
  | some p => return p
  | none =>
    let tag := m.graph.tag id
    let p ←
      if [Tag.standard "seq", Tag.standard "omap", Tag.standard "pairs"].contains tag then
        collection id (.list [])
      else if tag == Tag.standard "map" then collection id (.dict [])
      else if tag == Tag.standard "set" then collection id (.set [])
      else (scalar m.graph id : Outcome Part)
    modify fun m => { m with made := (id, p) :: m.made }
    return p

/-- Sets the value of a key, which keeps its place if it had one. -/
def insert (key value : Part) : List (Part × Part) → List (Part × Part)
  | [] => [(key, value)]
  | (k, v) :: rest =>
    if k.same key then (k, value) :: rest else (k, v) :: insert key value rest

/-- The entries of a mapping, where a later value of a key replaces an earlier one. A collection is
no key. -/
def entries (id : Nat) : Making (List (Part × Part)) := do
  match (← get).graph.node id with
  | .mapping .. =>
    change (flatten (Nat.pow (← get).graph.places 2) id)
    ((← get).graph.node id).entries.foldlM (fun made (k, v) => do
      match ← part k with
      | .object _ => throw (malformed "found unhashable key")
      | key => return insert key (← part v) made) []
  | _ => throw (malformed "expected a mapping node")

/-- The contents of the collection that a node is made into. -/
def contents (id : Nat) : Making Contents := do
  let g := (← get).graph
  let tag := g.tag id
  if tag == Tag.standard "map" then return .dict (← entries id)
  else if tag == Tag.standard "set" then return .set ((← entries id).map (·.1))
  else
    match g.node id with
    | .sequence _ items =>
      if tag == Tag.standard "seq" then return .list (← items.mapM part)
      else
        let pair (item : Nat) : Making (Part × Part) := do
          match (← get).graph.node item with
          | .mapping _ [(k, v)] =>
            let key ← part k
            return (key, ← part v)
          | _ => throw (malformed "expected a single mapping item")
        return .pairs (← items.mapM pair)
    | _ => throw (malformed "expected a sequence node")

/-- Fills the collections that are waiting. -/
def fill : Nat → Making Unit
  | 0 => return ()
  | fuel + 1 => do
    let m ← get
    match m.waiting with
    | [] => return ()
    | (id, object) :: rest =>
      set { m with waiting := rest }
      let filled ← contents id
      modify fun m => { m with objects := m.objects.setIfInBounds object filled }
      fill fuel

/-- Makes a document with the given root into a value. -/
def document (root : Nat) : Making Part := do
  let p ← part root
  fill ((← get).graph.size + 1)
  return p

end Making

/-- The value of a part, where collections are spelled out to a depth. -/
def Part.value (objects : Array Contents) : Nat → Part → Value
  | _, .plain v _ => v
  | 0, .object _ => .none
  | fuel + 1, .object id =>
    match objects.getD id (.list []) with
    | .list items => .list (items.map (value objects fuel))
    | .pairs items =>
      .list (items.map fun (k, v) => .tuple [value objects fuel k, value objects fuel v])
    | .set items => .set (items.map (value objects fuel))
    | .dict entries =>
      .dict (entries.map fun (k, v) => (value objects fuel k, value objects fuel v))

/-- The value of the only document of a text; an empty text has none. -/
def read (text : String) : Outcome Value := do
  match ← document text with
  | none => return .none
  | some (root, graph) =>
    let (p, m) ← (Making.document root).run ⟨graph, [], #[], []⟩
    return p.value m.objects (m.objects.size + 1)

end TextPipeline.Yaml
