import TextPipeline.Pipeline.World
import TextPipeline.Value.Edit

/-! Actions on the world that pipelines share. An action may fail; what it did before stays. -/

namespace TextPipeline.Pipeline

open TextPipeline.Plugin TextPipeline.Transform

/-- An action on the world. -/
abbrev Action := ExceptT Fault (StateM World)

namespace Action

/-- The outcome of an action, which does not fail then. -/
def attempt {α : Type} (x : Action α) : Action (Outcome α) :=
  ExceptT.mk do
    let r ← x.run
    pure (.ok r)

/-- The outcome of an action in a world, and the world after it. -/
def result {α : Type} (x : Action α) (w : World) : Outcome α × World :=
  StateT.run (ExceptT.run x) w

/-- An action that cannot fail except as its outcome says. -/
def ofOutcome {α : Type} : Outcome α → Action α
  | .ok a => pure a
  | .error f => throw f

/-- Fails with a fault unless a condition holds. -/
def require (holds : Bool) (fault : Fault) : Action Unit :=
  if holds then pure () else throw fault

def tell (e : Event) : Action Unit :=
  modify fun w => { w with events := w.events ++ [e] }

/-- Logs one record. -/
def log (level : Level) (logger text : String) : Action Unit :=
  tell (.log ⟨level, logger, text⟩)

/-- Logs a fault after some words. A fault that cannot be written is not logged, and fails. -/
def logFault (level : Level) (logger words : String) (fault : Fault) : Action Unit := do
  log level logger (words ++ (← ofOutcome fault.inspect))

/-- Carries out a computation that logs. -/
def ofLogged {α : Type} (x : Logged α) : Action α := do
  let (result, records) := x.result
  modify fun w => { w with events := w.events ++ records.map .log }
  ofOutcome result

/-- Carries out a computation with the catalog. -/
def withCatalog {α : Type} (x : Cataloguing Attacher α) : Action α := do
  let ((result, catalog), records) := (x.run.run (← get).catalog).run []
  modify fun w => { w with catalog := catalog, events := w.events ++ records.map .log }
  ofOutcome result

/-- A value with what it shares in full. -/
def reveal (v : Value) : Action Value := return (← get).reveal v

/-- The text of a value as it reads now. -/
def textOf (v : Value) : Action String := do ofOutcome ((← get).textOf v)

/-- The argument of a step, made from what can be seen now. -/
def argument (a : Argument) : Action Value := do ofOutcome (a (← get).sight)

/-- Carries out a computation with what is shared. -/
def withStore {α : Type} (x : StateM Store α) : Action α := do
  let w ← get
  let (a, store) := x.run w.store
  set { w with store := store }
  return a

/-- A value that can be used in several places. -/
def share (v : Value) : Action Value := withStore (Store.share v)

/-- The content of a value that is kept; any other value is its own. -/
def content (v : Value) : Action Value := return (← get).store.content v

/-- A mapping of its own with the values of a mapping, which both share from then on. -/
def shareValues (v : Value) : Action Value := do
  match v with
  | .handle h =>
    let copy ← withStore (Store.shareValues (← content v))
    withStore (modify fun s => s.write h copy)
    return copy
  | v => return v

def file (id : Nat) : Action File := return (← get).files.getD id File.empty

def setFile (id : Nat) (f : File) : Action Unit :=
  modify fun w => { w with files := w.files.set id f }

def addFile (f : File) : Action Nat := do
  let w ← get
  set { w with files := w.files ++ [f] }
  return w.files.length

/-- The file that a value is or describes. Its data share their values with those of the
description. -/
def toFile (v : Value) : Action Nat := do
  match v with
  | .handle (.file id) => return id
  | v =>
    match ← content v with
    | .mapping kind entries =>
      let entries ← entries.mapM fun (k, w) => do
        if k.equals (.str "data") then return (k, ← shareValues w) else return (k, w)
      addFile (← File.ofValue (.mapping kind entries))
    | v => addFile (← File.ofValue v)

def processor (id : Nat) : Action Processor := do
  match (← get).processors[id]? with
  | some p => return p
  | none => throw (.raised "KeyError" [.nat id])

def setProcessor (id : Nat) (p : Processor) : Action Unit :=
  modify fun w => { w with processors := w.processors.set id p }

def addProcessor (p : Processor) : Action Nat := do
  let w ← get
  set { w with processors := w.processors ++ [p] }
  return w.processors.length

/-- Sets the data of a processor, which others may share. -/
def setData (id : Nat) (data : Value) : Action Unit := do
  let p ← processor id
  setProcessor id { p with data := ← withStore (Store.change (fun _ => data) p.data) }

/-- Changes the data of a processor. -/
def alter (id : Nat) : Alteration → Action Unit
  | .change e => do
    setData id (← ofOutcome (e.apply (← get).sight (← content (← processor id).data)))
  | .push key item => do
    let data ← content (← processor id).data
    let key ← argument key
    let held ← ofOutcome (data.getItem key)
    let extended ← ofOutcome ((← content held).extended (← argument item))
    match held with
    | .handle h => withStore (modify fun s => s.write h extended)
    | _ => setData id (data.withItem key extended)

/-- What has a name. -/
def named (name : String) : Action Value := do
  match (← get).names.lookup name with
  | some v => return v
  | none => throw (.raised "KeyError" [.str name])

/-- Gives something a name. -/
def setName (name : String) (v : Value) : Action Unit :=
  modify fun w => { w with names := (name, v) :: w.names.filter fun e => e.1 != name }

def completion (id : Nat) : Action (Completion Resolution Resumption Empty) := do
  match (← get).completions[id]? with
  | some c => return c
  | none => throw (.raised "KeyError" [.nat id])

def setCompletion (id : Nat) (c : Completion Resolution Resumption Empty) : Action Unit :=
  modify fun w => { w with completions := w.completions.set id c }

def addCompletion (label : String) : Action Nat := do
  let w ← get
  set { w with completions := w.completions ++ [Completion.start label] }
  return w.completions.length

def run (id : Nat) : Action Run := do
  match (← get).runs[id]? with
  | some r => return r
  | none => throw (.raised "KeyError" [.nat id])

def changeRun (id : Nat) (f : Run → Run) : Action Unit :=
  modify fun w => { w with runs := w.runs.modify id f }

def enqueue (j : Job) : Action Unit :=
  modify fun w => { w with jobs := w.jobs ++ [j] }

/-- Tells an observer of an event. -/
def emit (watcher : Option Watcher) (p : Progress) : Action Unit := do
  match watcher with
  | none => pure ()
  | some watcher =>
    tell (.progress watcher.id p)
    ofLogged (Progress.observed (watcher.reaction p))

/-- Fails after something was told, if so wanted. -/
def raise (fault : Option Fault) : Action Unit :=
  match fault with
  | some f => throw f
  | none => pure ()

end Action

/-- What surrounds pipelines, and what plugins can do with other pipelines. -/
structure Host where
  endpoints : Grammar.Endpoints
  standard : List (Metadata Attacher)
  surroundings : Surroundings Attacher
  /-- Attaches a plugin to a processor; the result is the processor to go on with. -/
  use : Value → Plugin → Value → Action Nat
  /-- Sends a document through a pipeline. -/
  process : Value → Value → Action Value
  /-- Lets a chain go on. -/
  resume : Resumption → Resolution → Action Unit

end TextPipeline.Pipeline
