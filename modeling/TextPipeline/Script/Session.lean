import TextPipeline.Script.World

/-! Scripts of whole sessions: making processors, attaching plugins to them and sending documents
through them. -/

namespace TextPipeline.Script

open TextPipeline.Pipeline TextPipeline.Plugin
open TextPipeline.Pipeline.Action

/-- Who is told of a result. -/
def callbackOf (v : Value) : Option Callback :=
  match field? v "raise" with
  | some f => some ⟨some (faultOf f)⟩
  | none => if v.truthy then some ⟨none⟩ else none

/-- Who observes progress. -/
def watcherOf (v : Value) : Option Watcher :=
  (callbackOf v).map fun k => ⟨0, fun _ => k.fault⟩

/-- The call that goes on a loop that a step stands for. -/
def callOf (scope : Scope) (step : Value) : Action Call := do
  let on ← named (textField step "on")
  let watcher := watcherOf (field step "progress")
  match textField step "do" with
  | "run_async" =>
    let tree ← share (← scope.tree (field step "tree"))
    return .run on tree (← scope.value (field step "file")) watcher
  | _ =>
    return .process on (← scope.value (field step "value")) (← scope.value (field step "settings"))
      watcher

/-- The processor of a name, which no factory stands for. -/
def processorNamed (name : String) : Action Nat := do
  match ← named name with
  | .handle (.processor id) => return id
  | v => throw (.noAttribute ("'" ++ v.typeName ++ "' object has no such attribute"))

/-- Gives a value the name that a step has for it. -/
def nameBy (step : Value) (key : String) (v : Value) : Action Unit :=
  match field? step key with
  | some (.str name) => setName name v
  | _ => pure ()

/-- Makes a processor. -/
def makeProcessor (scope : Scope) (step : Value) : Action Nat := do
  let value (key : String) : Outcome Value := scope.value (field step key)
  let parser : Outcome Value := do return scope.parserOf (← value "parser")
  let compiler : Outcome Value := do return scope.compilerOf (← value "compiler")
  match textField step "via" with
  | "options" =>
    let given ← ofOutcome (["name", "parser", "compiler", "data"].filterMapM fun key =>
      match field? step key with
      | some v => do return some (key, ← scope.value v)
      | none => return none)
    ofSettings (← Settings.make .processor (scope.endpointFields .processor given))
  | "text" =>
    let name ← if has step "name" then value "name" else pure (.str textProcessorName)
    newTextProcessor name (← value "data")
  | _ => newProcessor (← value "name") (← parser) (← compiler) (← value "data")

/-- Makes a factory. -/
def makeFactory (scope : Scope) (step : Value) : Action Value := do
  let value (key : String) : Outcome Value := scope.value (field step key)
  let plugins ← ofOutcome ((listField step "plugins").mapM scope.plugin)
  let parser := scope.parserOf (← value "parser")
  let compiler := scope.compilerOf (← value "compiler")
  let id ← define (← value "name") parser compiler (← value "data") plugins
  nameBy step "id" (.handle (.factory id))
  return .ofString? (((← get).factories[id]?).map (·.repr))

/-- Makes a file. -/
def makeFile (scope : Scope) (step : Value) : Action Nat := do
  let fields ← ofOutcome (["contents", "path", "data"].filterMapM fun key =>
    match field? step key with
    | some v => do return some (Value.str key, ← scope.value v)
    | none => return none)
  let fields ← fields.mapM fun (key, v) => do
    if key.equals (.str "data") then return (key, ← shareValues v) else return (key, v)
  addFile (← File.ofFields fields)

/-- A tree with its names, in the world as it is now. -/
def shownTree (v : Value) : Action Value := return writeTree (← get) v

/-- A processor with its names, in the world as it is now. -/
def shownProcessor (id : Nat) : Action Value := return writeProcessor (← get) id

/-- Carries out a step that has nothing to do with tasks. -/
def sessionStep (host : Host) (scope : Scope) (step : Value) : Action Value := do
  let scope := scope.within (← get)
  let value (key : String) : Outcome Value := scope.value (field step key)
  let on : Action Value := named (textField step "on")
  let callback := callbackOf (field step "callback")
  let watcher := watcherOf (field step "progress")
  match textField step "do" with
  | "new" =>
    let id ← makeProcessor scope step
    nameBy step "id" (.handle (.processor id))
    shownProcessor id
  | "define" => makeFactory scope step
  | "build" =>
    let factory ← on
    unless factory.isCallable do throw (.wrongType ("'" ++ factory.typeName ++ "' is not callable"))
    let id ← processorFor host factory
    nameBy step "as" (.handle (.processor id))
    shownProcessor id
  | "use" =>
    let plugin ← ofOutcome (scope.plugin (field step "plugin"))
    let id ← useOn host (← processorFor host (← on)) plugin (← value "options")
    nameBy step "as" (.handle (.processor id))
    shownProcessor id
  | "clone" =>
    let id ← cloneProcessor (← processorNamed (textField step "on"))
    nameBy step "as" (.handle (.processor id))
    shownProcessor id
  | "data" =>
    let id ← processorNamed (textField step "on")
    (alterations scope step).forM (alter id)
    shownProcessor id
  | "assign" =>
    let id ← processorNamed (textField step "on")
    assign id (textField step "attr") (← share (← value "value"))
    shownProcessor id
  | "register" =>
    withCatalog (Catalog.register (← ofOutcome (scope.metadata (field step "metadata"))))
    return .none
  | "file" =>
    nameBy step "id" (.handle (.file (← makeFile scope step)))
    return .none
  | "tree" =>
    nameBy step "id" (← share (← scope.tree (field step "tree")))
    return .none
  | "inspect" =>
    let w ← get
    match ← named (textField step "id") with
    | .handle (.file id) => return .record ((viewOf w).file (w.files.getD id File.empty))
    | .handle (.processor id) => return writeProcessor w id
    | v => return (viewOf w).node v
  | "parse" =>
    let tree ← parse host (← on) (← value "value") (← value "settings")
    nameBy step "as" tree
    shownTree tree
  | "run" =>
    let tree ← share (← scope.tree (field step "tree"))
    let result ← runOn host (← on) tree (← value "file") callback watcher
    nameBy step "as" result
    shownTree result
  | "stringify" =>
    let tree ← share (← scope.tree (field step "tree"))
    stringifyOn host (← on) tree (← value "file") (← value "settings")
  | "process" =>
    let settings ← if flag step "callback_as_settings" then pure .none else value "settings"
    processOn host (← on) (← value "value") settings callback watcher
  | "run_async" =>
    let result ← await host (← callOf scope step)
    nameBy step "as" result
    shownTree result
  | "process_async" => await host (← callOf scope step)
  | "next" =>
    let args ← scope.atMostTwo (field step "args")
    callNext host (textField step "id") (args.getD 0 .none) (args.getD 1 .none)
    return .none
  | "settle" =>
    settleAll host patience
    return .none
  | "gather" =>
    let calls ← (listField step "calls").mapM (callOf scope)
    let results ← gather host calls
    let w ← get
    return .list (results.map fun r =>
      match r with
      | some (.ok v) => writeTree w v
      | some (.error f) => (viewOf w).value (.error f)
      | none => .record [("pending", .bool true)])
  | _ => return .none

/-- The results to come of the calls that were started, by the names of their tasks. -/
abbrev Tasks := List (String × Nat)

/-- Carries out a step. -/
def sessionStepWith (host : Host) (scope : Scope) (tasks : Tasks) (step : Value) :
    Action (Value × Tasks) := do
  let id := textField step "id"
  match textField step "do" with
  | "spawn" =>
    let future ← spawn host (← callOf (scope.within (← get)) (field step "call"))
    return (.bool (← resultOf future).isSome, (id, future) :: tasks)
  | "join" =>
    settleAll host patience
    match tasks.lookup id with
    | none => throw (.raised "KeyError" [.str id])
    | some future =>
      match ← resultOf future with
      | none => return (.record [("pending", .bool true)], tasks)
      | some result =>
        let v ← ofOutcome result
        return (writeTree (← get) v, tasks)
  | _ => return (← sessionStep host scope step, tasks)

/-- The answers to the steps of a session. -/
def replaySession (host : Host) (scope : Scope) (script : Value) : Value :=
  let step (state : World × Tasks × List Value) (step : Value) : World × Tasks × List Value :=
    let (w, tasks, answers) := state
    let (w, result, answer) :=
      answered script w (sessionStepWith host scope tasks step) fun _ r => r.1
    (w, (result.map (·.2)).getD tasks, answers ++ [answer])
  .list ((listField script "steps").foldl step (startWorld script, [], [])).2.2

/-- The answers of a chain: of its run, of the loop after it, and of the results passed on later. -/
def replayChain (host : Host) (scope : Scope) (script : Value) : Outcome Value := do
  let tree ← scope.tree (field script "tree")
  let contents ← scope.value (field script "contents")
  let setup : Action (Value × Nat) := do
    let tree ← share tree
    setName "tree" tree
    let id ← addFile (← File.ofFields [(.str "contents", contents)])
    setName "file" (.handle (.file id))
    return (tree, id)
  let (ready, w) := setup.result (startWorld script)
  let (tree, id) ← ready
  let times := match field? script "repeat" with
    | some (.int n) => n.toNat
    | _ => 1
  let described := (List.replicate times (listField script "transformers")).flatten
  let steps := described.map (scope.within w).transformer
  let watcher := watcherOf (field script "progress")
  let run : Action Value := match callbackOf (field script "callback") with
    | none => runChain host steps watcher tree id
    | some k => do
      let _ ← start host steps watcher tree id (.callback k)
      return .none
  let (w, _, first) := answered script w run writeTree
  let (w, settled) := if flag script "loop" then
      let w := ((settleAll host patience).result { w with events := [] }).2
      (w, [Value.record [("settled", .list (w.events.filterMap (writeEvent script w)))]])
    else (w, [])
  let step (state : World × List Value) (entry : Value) : World × List Value :=
    let call : Action Value := do
      let args ← (scope.within (← get)).atMostTwo (field entry "args")
      callNext host (textField entry "id") (args.getD 0 .none) (args.getD 1 .none)
      return .none
    let (w, _, answer) := answered script state.1 call writeTree
    (w, state.2 ++ [answer])
  let (w, later) := (listField script "nexts").foldl step (w, [])
  let view := viewOf w
  return .record [("len", .nat steps.length), ("answers", .list (first :: settled ++ later)),
    ("file", .record (view.file (w.files.getD id File.empty))), ("input", view.node tree)]

end TextPipeline.Script
