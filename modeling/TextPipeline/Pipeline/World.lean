import TextPipeline.Grammar.Endpoint
import TextPipeline.Pipeline.Event
import TextPipeline.Pipeline.Store
import TextPipeline.Plugin.Catalog
import TextPipeline.Plugin.Registry
import TextPipeline.Transform.Completion

/-! Everything that pipelines share and change: trees, files, processors, runs that wait, and the
loop that lets them go on. Objects are known by their numbers. -/

namespace TextPipeline.Pipeline

open TextPipeline.Plugin TextPipeline.Transform

/-- A pipeline that can be configured: its ends, its data and its plugins. -/
structure Processor where
  name : String
  named : name ≠ ""
  parser : Value
  compiler : Value
  data : Value
  registry : Registry Transformer

/-- A short description of a processor. -/
def Processor.repr (p : Processor) : String :=
  "Processor(name=" ++ Text.quoted p.name ++ ", plugins=" ++
    toString p.registry.attachments.length ++ ", transformers=" ++
    toString p.registry.transformers.length ++ ")"

/-- The configuration of processors that are all built alike. -/
structure Factory where
  settings : Value
  plugins : List (Plugin × Value)

/-- A short description of a factory. -/
def Factory.repr (f : Factory) : String :=
  "ProcessorFactory(name=" ++ Text.quoted (Settings.field f.settings "name").text ++ ", plugins=" ++
    toString f.plugins.length ++ ")"

/-- Who is told of a result; it may fail after it was told. -/
structure Callback where
  fault : Option Fault

/-- Who observes progress, known by a number. It may fail on any event. A fault of its own that is about a file
has the file as a document, since the text of the fault is read without the world. -/
structure Watcher where
  id : Nat
  reaction : Progress → Option Fault

/-- Where a text goes. -/
inductive TextReceiver where
  | callback (k : Callback)
  /-- To someone of whom nothing is seen, but who may fail. -/
  | silent (k : Callback)
  | future (id : Nat)

/-- What is left to do after the run of a whole pipeline. -/
structure Compilation where
  processor : Nat
  file : Nat
  settings : Value
  watcher : Option Watcher
  receiver : TextReceiver

/-- Where the tree of a run goes. -/
inductive TreeReceiver where
  | callback (k : Callback)
  | future (id : Nat)
  | compilation (c : Compilation)

/-- What becomes of the result of a chain. -/
inductive Delivery where
  /-- It is kept; the chain must not wait. -/
  | kept
  | callback (k : Callback)
  /-- The tree is stored for the processor of a name and goes to a receiver. -/
  | stored (name : String) (receiver : TreeReceiver)

/-- A chain that was started. -/
structure Run where
  steps : List Transformer
  watcher : Option Watcher
  /-- The loop that was running when the chain was started. -/
  loop : Option Nat
  file : Nat
  /-- The tree with which the chain was started. -/
  tree : Value
  /-- The result of a chain that must not wait. -/
  outcome : Option (Option Fault × Value)
  /-- The tree that was stored. -/
  settled : Option Value
  /-- The text that the tree was compiled to. -/
  compiled : Option Value

/-- A run that must not wait keeps its first result. -/
def Run.keep (error : Option Fault) (tree : Value) (x : Run) : Run :=
  { x with outcome := x.outcome.or (some (error, tree)) }

/-- Where a chain goes on when a step is resolved. -/
structure Resumption where
  run : Nat
  index : Nat
  tree : Value
  /-- What becomes of the result of the chain. -/
  delivery : Delivery

/-- What a transformer works on, and the completion that it resolves. -/
structure Scene where
  tree : Value
  file : Nat
  completion : Nat
  hasNext : Bool

/-- A transformer whose steps are carried out by and by. -/
structure Task where
  scene : Scene
  /-- The steps that are left; before the start, the whole program. -/
  rest : Sum (Value → File → List Act) (List Act)

/-- How a task ended. -/
inductive Settled where
  | value (v : Value)
  | failed (f : Fault)
  | cancelled

/-- A call that is carried out on a loop. -/
inductive Call where
  | run (on : Value) (tree : Value) (file : Value) (watcher : Option Watcher)
  | process (on : Value) (value settings : Value) (watcher : Option Watcher)

/-- Work for a turn of the loop. -/
inductive Job where
  | advance (t : Task)
  | settle (completion : Nat) (s : Settled)
  | resume (r : Resumption) (result : Resolution)
  | next (threaded : Bool) (completion : Nat) (error tree : Value)
  | deliver (future : Nat) (result : Outcome Value)
  | wake (future : Nat)
  | start (call : Call) (future : Nat)

/-- Everything that pipelines share. -/
structure World where
  store : Store := {}
  files : List File := []
  processors : List Processor := []
  factories : List Factory := []
  catalog : Catalog Attacher := Catalog.empty
  completions : List (Completion Resolution Resumption Empty) := []
  runs : List Run := []
  futures : List (Option (Outcome Value)) := []
  jobs : List Job := []
  /-- The number of loops so far, and the one that is open. -/
  loops : Nat := 0
  openLoop : Option Nat := none
  /-- Whether what happens now happens outside the thread of the loop. -/
  threaded : Bool := false
  /-- The ways to pass on a result that were kept; a step that was handed none keeps none. -/
  nexts : List (String × Option Nat) := []
  names : List (String × Value) := []
  events : List Event := []

namespace World

/-- The loop that is running here. -/
def runningLoop (w : World) : Option Nat :=
  if w.threaded then none else w.openLoop

/-- The names of an object in order. -/
def namesOf (w : World) (h : Handle) : List String :=
  let isNamed : String × Value → Bool
    | (_, .handle g) => g == h
    | _ => false
  sortTexts ((w.names.filter isNamed).map (·.1))

/-- The names of an object that a value stands for. -/
def namesOfValue (w : World) : Value → List String
  | .handle h => w.namesOf h
  | _ => []

/-- A value with what it shares in full. -/
def reveal (w : World) (v : Value) : Value := w.store.reveal v

/-- What can be seen of a tree and a file. -/
def view (w : World) (tree : Value) (file : Nat) : View :=
  ⟨w.reveal tree, w.files.getD file File.empty⟩

/-- What a step can see. -/
def sight (w : World) : Sight := ⟨fun name => w.names.lookup name, w.reveal⟩

/-- An object as it is read: a file, or the description of something else. -/
def describe (w : World) (h : Handle) : Value :=
  match h with
  | .file id => (w.files.getD id File.empty).shown
  | .processor id => .other (Value.handle h).typeName ((w.processors[id]?).elim "" (·.repr))
  | .factory id => .other (Value.handle h).typeName ((w.factories[id]?).elim "" (·.repr))
  | h => .other (Value.handle h).typeName (Value.handle h).text

/-- A value as it is read: in full, with files as they are now, and with descriptions of processors and
factories. -/
def display (w : World) (v : Value) : Value :=
  (w.reveal v).revealWith w.describe

/-- The text of a value within a message, if it has one. A file reads as its contents. -/
def textOf (w : World) (v : Value) : Outcome String := (w.display v).render

/-- An error as it is passed on: what is neither none nor a fault stands for its text. -/
def passedError (w : World) : Value → Outcome Value
  | .none => .ok .none
  | .error f => .ok (.error f)
  | v => (w.textOf v).map .str

end World

end TextPipeline.Pipeline
