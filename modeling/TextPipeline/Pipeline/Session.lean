import TextPipeline.Pipeline.Loop

/-! What can be done with pipelines from outside: making processors and factories, and calling
them. -/

namespace TextPipeline.Pipeline

open TextPipeline.Pipeline.Action

/-- The logger of factories. -/
def factoryLogger : String := "syntaxflow.api"

/-- The name of processors of the standard grammar that are not given another one. -/
def textProcessorName : String := "text"

/-- A processor of the standard grammar of plain text. -/
def newTextProcessor (name data : Value) : Action Nat :=
  newProcessor name (.callable Grammar.plainParser.name) (.callable Grammar.plainCompiler.name) data

/-- A processor made from settings. -/
def ofSettings (settings : Value) : Action Nat :=
  let field := Settings.field settings
  newProcessor (field "name") (field "parser") (field "compiler") (field "data")

/-- A factory of processors that are all built alike. -/
def define (name parser compiler data : Value) (plugins : List Plugin) : Action Nat := do
  let data ← reveal data
  let entries ← if data.truthy then ofOutcome data.toEntries else pure []
  let settings ← Settings.make .processor
    [("name", name), ("parser", parser), ("compiler", compiler), ("data", .dict entries)]
  log .debug factoryLogger ("Defined processor '" ++ name.text ++ "' with " ++
    toString plugins.length ++ " plugin(s)")
  let w ← get
  let factory : Factory := ⟨settings, plugins.map splitEntry⟩
  set { w with factories := w.factories ++ [factory] }
  return w.factories.length

/-- Sets an attribute of a processor. Only the data can be set. -/
def assign (id : Nat) (field : String) (v : Value) : Action Unit := do
  if ["name", "parser", "compiler", "attachments", "transformers"].contains field then
    throw (.noAttribute ("property '" ++ field ++ "' of 'Processor' object has no setter"))
  if field == "data" then setProcessor id { ← processor id with data := v }

/-- Reads a document into a tree. -/
def parse (host : Host) (on value settings : Value) : Action Value := do
  let p ← processorFor host on
  parseFile host p (← toFile value) settings

/-- Runs the transformers of a processor on a tree. With a callback the result is told to it, and
is returned, too, if it is there at once. -/
def runOn (host : Host) (on tree given : Value) (callback : Option Callback)
    (watcher : Option Watcher) : Action Value := do
  let p ← processorFor host on
  let id ← toFile given
  match callback with
  | none => runTree host p tree id watcher
  | some k =>
    match ← runTreeFor host p tree id watcher (.callback k) with
    | some r => return Value.ofOption (← run r).settled
    | none => return .none

/-- Writes a tree as text. -/
def stringifyOn (host : Host) (on tree given settings : Value) : Action Value := do
  stringify host (← processorFor host on) tree given settings

/-- The fault of telling a value of a result, if it cannot be told. -/
def misuse : Value → Option Fault
  | .handle (.factory _) => some factoryMisuse
  | _ => none

/-- Sends a document through a pipeline. A function in the place of settings is the one who is told
of the result. -/
def processOn (host : Host) (on value settings : Value) (callback : Option Callback)
    (watcher : Option Watcher) : Action Value := do
  let p ← processorFor host on
  match callback with
  | some k => processTextFor host p value settings watcher (.callback k)
  | none =>
    if settings.isCallable then processTextFor host p value .none watcher (.silent ⟨misuse settings⟩)
    else processText host p value settings watcher

end TextPipeline.Pipeline
