import TextPipeline.Yaml.Resolve
import TextPipeline.Yaml.Tokens

/-! The nodes of a YAML document: tagged scalars, sequences and mappings. The nodes are numbered, and
an alias has the number of the node that it names, so that a node may stand in several places, even
within itself. -/

namespace TextPipeline.Yaml

/-- A node of a document, which knows the nodes in it by their numbers. -/
inductive Node where
  | scalar (tag text : String)
  | sequence (tag : String) (items : List Nat)
  | mapping (tag : String) (entries : List (Nat × Nat))
  deriving Inhabited

/-- The nodes of a document by their numbers. -/
abbrev Graph := Array Node

/-- The state of reading a document. -/
structure Reader where
  tokens : List Token
  /-- What is wrong with the text after the tokens. -/
  fault : Option Fault
  /-- What each tag handle stands for. -/
  handles : List (String × String)
  /-- The nodes that have been given a name. -/
  anchors : List (String × Nat)
  nodes : Graph

/-- A step of reading a document. -/
abbrev Reading := StateT Reader (Except Fault)

namespace Reading

def fail {α : Type} (why : String) : Reading α :=
  throw (malformed why)

/-- The next token. Where there is none, the fault of the text shows. -/
def peek : Reading Token := do
  let r ← get
  match r.tokens, r.fault with
  | t :: _, _ => return t
  | [], some fault => throw fault
  | [], none => return .streamEnd

def skip : Reading Unit :=
  modify fun r => { r with tokens := r.tokens.drop 1 }

/-- The meaning of a tag as it is written. -/
def resolveTag (name : TagName) : Reading String := do
  match name.handle with
  | none => return name.suffix
  | some handle =>
    match (← get).handles.lookup handle with
    | some start => return start ++ name.suffix
    | none => fail "found undefined tag handle"

/-- Reads the anchor and the tag before a node, in either order. -/
def properties : Reading (Option String × Option String) := do
  match ← peek with
  | .anchor name =>
    skip
    match ← peek with
    | .tag t => skip; return (some name, some (← resolveTag t))
    | _ => return (some name, none)
  | .tag t =>
    skip
    match ← peek with
    | .anchor name => skip; return (some name, some (← resolveTag t))
    | _ => return (none, some (← resolveTag t))
  | _ => return (none, none)

/-- The node that an alias names. -/
def lookup (name : String) : Reading Nat := do
  match (← get).anchors.lookup name with
  | some id => return id
  | none => fail "found undefined alias"

/-- Gives a node a number. -/
def add (node : Node) : Reading Nat := do
  let id := (← get).nodes.size
  modify fun r => { r with nodes := r.nodes.push node }
  return id

/-- The scalar that stands for nothing. -/
def absent : Reading Nat := add (.scalar (Tag.standard "null") "")

/-- Gives a node a number and a name, which no other node may have. -/
def register (name : Option String) (node : Node) : Reading Nat := do
  match name with
  | none => add node
  | some name =>
    if ((← get).anchors.lookup name).isSome then fail "found duplicate anchor"
    let id ← add node
    modify fun r => { r with anchors := (name, id) :: r.anchors }
    return id

/-- Reads a collection: it is known by its name before its contents are read. -/
def collection {α : Type} (name : Option String) (node : List α → Node)
    (contents : Reading (List α)) : Reading Nat := do
  let id ← register name (node [])
  let contents ← contents
  modify fun r => { r with nodes := r.nodes.setIfInBounds id (node contents) }
  return id

/-- The tag of a collection. -/
def collectionTag (tag : Option String) (default : String) : String :=
  match tag with
  | none | some "!" => default
  | some tag => tag

/-- The tag of a scalar. One that is plain and has no tag is known by its form. -/
def scalarTag (tag : Option String) (plain : Bool) (text : String) : String :=
  match tag with
  | none => if plain then Tag.ofText text else Tag.standard "str"
  | some "!" => Tag.ofText text
  | some tag => tag

mutual

/-- Reads a node. Block collections are allowed if `block` is set, and a sequence that is not
indented further than its key if `indentless` is. -/
def node (block indentless : Bool) : Nat → Reading Nat
  | 0 => fail "nested too deeply"
  | fuel + 1 => do
    match ← peek with
    | .alias_ name => skip; lookup name
    | _ =>
      let (anchor, tag) ← properties
      let sequence := Node.sequence (collectionTag tag (Tag.standard "seq"))
      let mapping := Node.mapping (collectionTag tag (Tag.standard "map"))
      match ← peek, block with
      | .scalar text plain, _ =>
        skip
        register anchor (.scalar (scalarTag tag plain text) text)
      | .flowSequenceStart, _ =>
        collection anchor sequence (do skip; flowItems true fuel)
      | .flowMappingStart, _ =>
        collection anchor mapping (do skip; flowEntries true fuel)
      | .sequenceStart, true =>
        collection anchor sequence (do skip; blockItems fuel)
      | .mappingStart, true =>
        collection anchor mapping (do skip; blockEntries fuel)
      | other, _ =>
        if indentless && other matches .blockEntry then
          collection anchor sequence (indentlessItems fuel)
        else if anchor.isSome || tag.isSome then
          register anchor (.scalar (scalarTag tag true "") "")
        else fail "expected the node content"

/-- Reads the entries of a block sequence and its end. -/
def blockItems : Nat → Reading (List Nat)
  | 0 => fail "nested too deeply"
  | fuel + 1 => do
    match ← peek with
    | .blockEntry =>
      skip
      let first ← match ← peek with
        | .blockEntry | .blockEnd => absent
        | _ => node true false fuel
      return first :: (← blockItems fuel)
    | .blockEnd => skip; return []
    | _ => fail "expected <block end>"

/-- Reads the entries of a sequence that is not indented further than its key. -/
def indentlessItems : Nat → Reading (List Nat)
  | 0 => fail "nested too deeply"
  | fuel + 1 => do
    match ← peek with
    | .blockEntry =>
      skip
      let first ← match ← peek with
        | .blockEntry | .key | .value | .blockEnd => absent
        | _ => node true false fuel
      return first :: (← indentlessItems fuel)
    | _ => return []

/-- Reads the entries of a block mapping and its end. -/
def blockEntries : Nat → Reading (List (Nat × Nat))
  | 0 => fail "nested too deeply"
  | fuel + 1 => do
    match ← peek with
    | .key =>
      skip
      let key ← blockPart fuel
      let value ← match ← peek with
        | .value => skip; blockPart fuel
        | _ => absent
      return (key, value) :: (← blockEntries fuel)
    | .blockEnd => skip; return []
    | _ => fail "expected <block end>"

/-- Reads a key or a value of a block mapping, which may be missing. -/
def blockPart : Nat → Reading Nat
  | 0 => fail "nested too deeply"
  | fuel + 1 => do
    match ← peek with
    | .key | .value | .blockEnd => absent
    | _ => node true true fuel

/-- Reads the items of a sequence in brackets and its end. A key and its value without braces are a
mapping of one entry. -/
def flowItems (first : Bool) : Nat → Reading (List Nat)
  | 0 => fail "nested too deeply"
  | fuel + 1 => do
    match ← peek with
    | .flowSequenceEnd => skip; return []
    | other =>
      if !first then
        if other matches .flowEntry then skip else fail "expected ',' or ']'"
      match ← peek with
      | .flowSequenceEnd => skip; return []
      | .key =>
        let pair ← collection none (Node.mapping (Tag.standard "map")) do
          skip
          let key ← flowPart true fuel
          let value ← match ← peek with
            | .value => skip; flowPart false fuel
            | _ => absent
          return [(key, value)]
        return pair :: (← flowItems false fuel)
      | _ =>
        let item ← node false false fuel
        return item :: (← flowItems false fuel)

/-- Reads the entries of a mapping in braces and its end. A value may be missing, with its colon or
without. -/
def flowEntries (first : Bool) : Nat → Reading (List (Nat × Nat))
  | 0 => fail "nested too deeply"
  | fuel + 1 => do
    match ← peek with
    | .flowMappingEnd => skip; return []
    | other =>
      if !first then
        if other matches .flowEntry then skip else fail "expected ',' or '\x7d'"
      match ← peek with
      | .flowMappingEnd => skip; return []
      | .key =>
        skip
        let key ← flowPart true fuel
        let value ← match ← peek with
          | .value => skip; flowPart false fuel
          | _ => absent
        return (key, value) :: (← flowEntries false fuel)
      | _ =>
        let key ← node false false fuel
        let value ← absent
        return (key, value) :: (← flowEntries false fuel)

/-- Reads a key or a value inside brackets, which may be missing. -/
def flowPart (key : Bool) : Nat → Reading Nat
  | 0 => fail "nested too deeply"
  | fuel + 1 => do
    match ← peek, key with
    | .value, true => absent
    | .flowEntry, _ | .flowSequenceEnd, _ | .flowMappingEnd, _ => absent
    | _, _ => node false false fuel

end

/-- Reads the directives before a document. The version must be 1 and given only once, and so must
the meaning of each handle. -/
def directives : Nat → Bool → List (String × String) → Reading (List (String × String))
  | 0, _, handles => return handles
  | fuel + 1, versioned, handles => do
    match ← peek with
    | .directive (.version major _) =>
      if versioned then fail "found duplicate YAML directive"
      if major != 1 then fail "found incompatible YAML document"
      skip
      directives fuel true handles
    | .directive (.tag handle start) =>
      if (handles.lookup handle).isSome then fail "duplicate tag handle"
      skip
      directives fuel versioned ((handle, start) :: handles)
    | .directive .unknown => skip; directives fuel versioned handles
    | _ => return handles

/-- What tag handles stand for unless a directive says otherwise. -/
def standardHandles : List (String × String) :=
  [("!", "!"), ("!!", Tag.standard "")]

/-- Skips the marks that end documents. -/
def documentEnds : Nat → Reading Unit
  | 0 => return ()
  | fuel + 1 => do
    match ← peek with
    | .documentEnd => skip; documentEnds fuel
    | _ => return ()

/-- Reads the head of a document that is not implied: its directives and its mark. -/
def documentHead (fuel : Nat) : Reading Unit := do
  let handles ← directives fuel false []
  modify fun r => { r with handles := handles ++ standardHandles }
  match ← peek with
  | .documentStart => skip
  | _ => fail "expected '<document start>'"

/-- Reads the only document of a text, or none if it is empty. -/
def document (fuel : Nat) : Reading (Option Nat) := do
  match ← peek with
  | .streamEnd => return none
  | first =>
    let explicit := first matches .directive _ | .documentStart
    if explicit then documentHead fuel
    let content ← match ← peek, explicit with
      | .directive _, true | .documentStart, true | .documentEnd, true | .streamEnd, true =>
        absent
      | _, _ => node true false fuel
    documentEnds fuel
    match ← peek with
    | .streamEnd => return some content
    | _ =>
      documentHead fuel
      fail "expected a single document in the stream"

end Reading

/-- The nodes of the only document of a text with the number of its root, or none if it is empty. -/
def document (text : String) : Outcome (Option (Nat × Graph)) := do
  let (ts, fault) := tokens text
  let reader : Reader := ⟨ts, fault, Reading.standardHandles, [], #[]⟩
  let (root, r) ← (Reading.document (4 * ts.length + 8)).run reader
  return root.map fun root => (root, r.nodes)

end TextPipeline.Yaml
