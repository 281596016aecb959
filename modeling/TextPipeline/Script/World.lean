import TextPipeline.Pipeline.Session
import TextPipeline.Script.Plugin

/-! The objects of a session and what happens in it, as JSON. -/

namespace TextPipeline.Script

open TextPipeline.Pipeline

/-- Names as JSON. -/
def writeTexts (texts : List String) : Value := .list (texts.map .str)

/-- How values are written in a session. -/
def viewOf (w : World) : View where
  reveal := w.reveal
  object h := match h with
    | .file id => tagged "file" [("path", View.plain.value (w.files.getD id File.empty).path)]
    | .processor id =>
      tagged "processor" [("name", .ofString? ((w.processors[id]?).map (·.name)))]
    | h => tagged "object" [("type", .str (Value.handle h).typeName)]

/-- What names mean in a session. -/
def Scope.within (scope : Scope) (w : World) : Scope :=
  { scope with object := fun id => w.names.lookup id }

/-- An end of a pipeline by its name. -/
def writeEndpoint (view : View) : Value → Value
  | .callable name => .str name
  | .anonymous => .str "anonymous"
  | v => view.value v

/-- A processor as JSON. -/
def writeProcessor (w : World) (id : Nat) : Value :=
  let view := viewOf w
  match w.processors[id]? with
  | none => .none
  | some p =>
    .record [("name", .str p.name), ("is", writeTexts (w.namesOf (.processor id))),
      ("parser", writeEndpoint view p.parser), ("compiler", writeEndpoint view p.compiler),
      ("data", view.value p.data),
      ("attachments", .list (p.registry.attachments.map fun a =>
        .list [.str a.name, view.value a.options])),
      ("transformers", writeTexts (p.registry.transformers.map (·.name))),
      ("repr", .str p.repr)]

/-- A tree with its names; what is no tree has none. -/
def writeNamed (view : View) (tree : Value) (names : List String) : Value :=
  if tree.isNode then .record [("tree", view.node tree), ("is", writeTexts names)]
  else view.value tree

/-- What took the place of a tree, with its names. -/
def writeTree (w : World) (v : Value) : Value :=
  writeNamed (viewOf w) v (w.namesOfValue v)

/-- A fault as a value, if there is one. -/
def writeFault (view : View) (f : Option Fault) : Value :=
  .ofOption (f.map fun f => view.value (.error f))

/-- An event as JSON. Log records are written if the script asks for them. -/
def writeEvent (script : Value) (w : World) (e : Event) : Option Value :=
  let view := viewOf w
  let event (kind : String) (parts : List Value) : Option Value := some (.list (.str kind :: parts))
  match e with
  | .log record => (wanted script [record]).head?
  | .attached attacher options names =>
    event "attach" [.str attacher, view.value options, writeTexts names]
  | .traced label s => event "trace" [.str label, .ofString? s]
  | .arguments name count => event "args" [.str name, .nat count]
  | .passed none => event "next ok" []
  | .passed (some f) => event "next raised" [view.failure f []]
  | .nested s => event "nested" [view.value s]
  | .ran error tree treeNames fileNames =>
    event "callback" [.str "run", writeFault view error, writeNamed view tree treeNames,
      writeTexts fileNames]
  | .processed error s fileNames contents =>
    event "callback" [.str "process", writeFault view error, view.value s, writeTexts fileNames,
      view.value contents]
  | .produced .. | .called .. | .resolved .. | .delivered .. => none
  | .progress _ p =>
    let line := match p.text with
      | .ok s => s
      | .error f => (Value.error f).text
    event "progress" [.str line, .str p.kind, .str p.message, view.value p.current,
      view.value p.total, view.value (.dict p.facts)]

/-- The answer to an action: its result or fault, with the events if there were any. -/
def answered {α : Type} (script : Value) (w : World) (x : Action α) (write : World → α → Value) :
    World × Option α × Value :=
  let (result, w) := x.result { w with events := [] }
  let events := w.events.filterMap (writeEvent script w)
  let more := if events.isEmpty then [] else [("events", Value.list events)]
  match result with
  | .ok a => (w, some a, .record (("result", write w a) :: more))
  | .error f => (w, none, (viewOf w).failure f more)

/-- The world in which a script starts; a loop is open if it asks for one. -/
def startWorld (script : Value) : World :=
  if flag script "loop" then (openLoop.result {}).2 else {}

end TextPipeline.Script
