import TextPipeline.Pipeline.Action

/-! The stages of a pipeline that do not wait: reading a file into a tree and writing a tree as
text. The tree of each processor is stored in the file. -/

namespace TextPipeline.Pipeline

open TextPipeline.Pipeline.Action

/-- The logger of processors. -/
def logger : String := "syntaxflow.processor"

/-- The key under which a tree is stored in a file. -/
def treeKey : Value := .str "tree"

/-- Stores the tree of a processor in a file. -/
def storeTree (id : Nat) (name : String) (tree : Value) : Action Unit := do
  setFile id (← (← file id).store (.str name) treeKey tree)

/-- The tree of a processor that is stored in a file. -/
def storedTree (id : Nat) (name : String) : Action Value := do
  let f ← (← file id).openNamespace (.str name)
  setFile id f
  match (f.results (.str name)).find? treeKey with
  | some tree =>
    if tree.isNode then return tree else throw (missing f)
  | none => throw (missing f)
where
  missing (f : File) : Fault :=
    .missingTree (.str ("No tree was given and none is stored for processor '" ++ name ++ "' in " ++
      f.label)) none

/-- The tree to start with: the given one, or the one that is stored in the file. -/
def startTree (id : Nat) (name : String) (tree : Value) : Action Value :=
  if tree.isNone then storedTree id name else pure tree

/-- The data of a processor as its parser sees them. Those of which parts stay in the tree are shared
with it. -/
def dataFor (parser : Grammar.Parser) (p : Nat) : Action Value := do
  let q ← processor p
  if parser.holdsData then
    let data ← withStore (Store.shareValues (← content q.data))
    setData p data
    return data
  else reveal q.data

/-- The fault of something at an end of a pipeline that can be called but is no such end. -/
def wrongEndpoint (part : String) : Value → Fault
  | .handle (.factory _) => factoryMisuse
  | _ => Grammar.notEndpoint part

/-- What a parser makes of a file. -/
def readWith (host : Host) (p : Nat) (parser : Value) (f : File) (settings : Value) :
    Action Value := do
  match host.endpoints.parserOf? parser with
  | some parser => return (← ofLogged (parser.run (← reveal settings) f (some (← dataFor parser p)))).2
  | none => throw (wrongEndpoint "parse" parser)

/-- What a compiler makes of a tree. -/
def writeWith (host : Host) (compiler data tree settings : Value) : Action Value := do
  match host.endpoints.compilerOf? compiler with
  | some compiler =>
    let data := (← get).display data
    return (← ofLogged (compiler.run (← reveal settings) (← reveal tree) (some data))).2
  | none => throw (wrongEndpoint "compile" compiler)

/-- Reads a file into a tree and stores it. -/
def parseFile (host : Host) (p : Nat) (id : Nat) (settings : Value) : Action Value := do
  let q ← processor p
  require (!q.parser.isNone) (.noParser q.name)
  let f ← file id
  log .debug logger ("Parsing " ++ f.label ++ " with processor '" ++ q.name ++ "'")
  let tree ← readWith host p q.parser f settings
  require tree.isNode (.parsing (.str ("Parser of processor '" ++ q.name ++ "' returned " ++
    tree.typeName ++ ", expected a Node")) (some "parse") none)
  let tree ← share tree
  storeTree id q.name tree
  tell (.produced q.name id tree)
  return tree

/-- Writes a tree as text; if none is given, the one that is stored in the file. -/
def stringify (host : Host) (p : Nat) (tree given settings : Value) : Action Value := do
  let q ← processor p
  require (!q.compiler.isNone) (.noCompiler q.name)
  let id ← toFile given
  let tree ← startTree id q.name tree
  log .debug logger ("Compiling " ++ (← file id).label ++ " with processor '" ++ q.name ++ "'")
  let text ← writeWith host q.compiler q.data tree settings
  match text with
  | .str _ => return text
  | v =>
    throw (.rendering (.str ("Compiler of processor '" ++ q.name ++ "' returned " ++ v.typeName ++
      ", expected str")) (some "stringify") none)

/-- The stages of a pipeline in order. -/
def stages : List String := ["parse", "run", "stringify"]

/-- Tells an observer that a pipeline has begun. -/
def tellStarted (watcher : Option Watcher) (f : File) : Action Unit :=
  emit watcher (.at_ "started" ("Processing " ++ f.label) 0 stages.length [])

/-- Tells an observer that a stage is done. -/
def tellStage (watcher : Option Watcher) (stage : String) : Action Unit :=
  emit watcher (.at_ "item_done" ("Stage " ++ stage ++ " complete") (stages.idxOf stage + 1)
    stages.length [(.str "item_type", .str "stage"), (.str "stage", .str stage)])

/-- Tells an observer that a pipeline has failed. -/
def tellFailed (watcher : Option Watcher) (fault : Fault) : Action Unit := do
  let said ← textOf (.error fault)
  emit watcher (.at_ "error" ("Processing failed: " ++ said) 0 0 [(.str "error", .str said)])

/-- Puts the text into the file and tells an observer that the pipeline has finished. -/
def complete (watcher : Option Watcher) (id : Nat) (text : Value) : Action Unit := do
  let f := { ← file id with contents := text }
  setFile id f
  emit watcher (.at_ "finished" ("Processed " ++ f.label) 0 stages.length [])

/-- A processor that lacks an end cannot process anything. -/
def requireEndpoints (p : Nat) : Action Unit := do
  let q ← processor p
  require (!q.parser.isNone) (.noParser q.name)
  require (!q.compiler.isNone) (.noCompiler q.name)

end TextPipeline.Pipeline
