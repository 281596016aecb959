import TextPipeline.Pipeline.Chain
import TextPipeline.Pipeline.Use

/-! Running the transformers of a processor, and whole pipelines. With a receiver, a result is told
to it, faults included; without one it is returned and nothing may wait. -/

namespace TextPipeline.Pipeline

open TextPipeline.Pipeline.Action

/-- Runs the transformers of a processor: the tree that they leave, which is stored. -/
def runTree (host : Host) (p : Nat) (tree : Value) (id : Nat) (watcher : Option Watcher) :
    Action Value := do
  let q ← processor p
  let start ← startTree id q.name tree
  let final ← runChain host q.registry.transformers watcher start id
  storeTree id q.name final
  tell (.produced q.name id final)
  return final

/-- Tells the receiver of a run that there was no tree to run on. -/
def tellNoTree (receiver : TreeReceiver) (fault : Fault) (id : Nat) : Action Unit :=
  match receiver with
  | .callback k => tellRan k (some fault) .none id
  | .future future => enqueue (.deliver future (.error fault))
  | .compilation c => fail c.watcher c.receiver fault c.file

/-- Runs the transformers of a processor for a receiver. The result is the number of the run, if
there was a tree to run them on. -/
def runTreeFor (host : Host) (p : Nat) (tree : Value) (id : Nat) (watcher : Option Watcher)
    (receiver : TreeReceiver) : Action (Option Nat) := do
  let q ← processor p
  match ← attempt (startTree id q.name tree) with
  | .error f =>
    require (f.isKind "MissingTreeError") f
    tellNoTree receiver f id
    return none
  | .ok first =>
    return some (← start host q.registry.transformers watcher first id (.stored q.name receiver))

/-- The text that a file comes to in the three stages of a pipeline. -/
def processFile (host : Host) (p id : Nat) (settings : Value) (watcher : Option Watcher) :
    Action Value := do
  requireEndpoints p
  let tree ← parseFile host p id settings
  tellStage watcher "parse"
  let final ← runTree host p tree id watcher
  tellStage watcher "run"
  let text ← stringify host p final (.handle (.file id)) settings
  tellStage watcher "stringify"
  return text

/-- Sends a document through a whole pipeline: the text that it comes to. -/
def processText (host : Host) (p : Nat) (value settings : Value) (watcher : Option Watcher) :
    Action Value := do
  let id ← toFile value
  tellStarted watcher (← file id)
  match ← attempt (processFile host p id settings watcher) with
  | .ok text =>
    complete watcher id text
    return text
  | .error f =>
    if f.isError then
      tellFailed watcher f
      throw f
    else throw f

/-- The tree that a file is read into for a receiver. -/
def parseFor (host : Host) (p id : Nat) (settings : Value) (watcher : Option Watcher) :
    Action Value := do
  tellStarted watcher (← file id)
  requireEndpoints p
  parseFile host p id settings

/-- Sends a document through a whole pipeline for a receiver. The result is the text if it is there
at once. -/
def processTextFor (host : Host) (p : Nat) (value settings : Value) (watcher : Option Watcher)
    (receiver : TextReceiver) : Action Value := do
  match ← attempt (toFile value) with
  | .error f =>
    require f.isError f
    fail watcher receiver f (← addFile File.empty)
    return .none
  | .ok id =>
    match ← attempt (parseFor host p id settings watcher) with
    | .error f =>
      require f.isError f
      fail watcher receiver f id
      return .none
    | .ok tree =>
      tellStage watcher "parse"
      let r ← runTreeFor host p tree id watcher
        (.compilation ⟨p, id, settings, watcher, receiver⟩)
      match r with
      | some r => return Value.ofOption (← run r).compiled
      | none => return .none

/-- What plugins can do with other pipelines, up to a depth of such calls within one another. -/
def Host.nested (endpoints : Grammar.Endpoints) (standard : List (Plugin.Metadata Attacher))
    (surroundings : Plugin.Surroundings Attacher) : Nat → Host
  | 0 =>
    let tooDeep : Fault := .raised "RecursionError" [.str "maximum recursion depth exceeded"]
    ⟨endpoints, standard, surroundings, fun _ _ _ => throw tooDeep, fun _ _ => throw tooDeep,
      fun _ _ => throw tooDeep⟩
  | depth + 1 =>
    let inner := nested endpoints standard surroundings depth
    ⟨endpoints, standard, surroundings,
      fun on plugin options => do useOn inner (← processorFor inner on) plugin options,
      fun on value => do processText inner (← processorFor inner on) value .none none,
      Pipeline.resume inner⟩

end TextPipeline.Pipeline
