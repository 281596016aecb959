import TextPipeline.Pipeline.Action

/-! Carrying out the steps of a transformer, and passing on its result. -/

namespace TextPipeline.Pipeline

open TextPipeline.Transform
open TextPipeline.Pipeline.Action

/-- Lets a chain go on with the result of a step. A chain that was started on a loop goes on
there. -/
def goOn (host : Host) (k : Resumption) (r : Resolution) : Action Unit := do
  let loop := (← run k.run).loop
  let w ← get
  if loop.isNone || loop != w.openLoop || w.runningLoop == loop then host.resume k r
  else
    log .debug Transform.logger "Resuming transformer chain on its event loop"
    enqueue (.resume k r)

/-- Resolves a step. -/
def resolve (host : Host) (id : Nat) (r : Resolution) : Action Unit := do
  let c ← completion id
  match ← ofOutcome (c.resolve r) with
  | none => log .warning Transform.logger (lateText c.label)
  | some (c, waiting) =>
    setCompletion id c
    tell (.resolved id r)
    waiting.forM fun k => goOn host k r

/-- Passes on the result of a step. -/
def next (host : Host) (id : Nat) (error tree : Value) : Action Unit := do
  let c ← completion id
  let error ← ofOutcome ((← get).passedError error)
  resolve host id (Resolution.ofCall c.label error (← share tree))

/-- The fault of passing on a result without having been handed a way to do so. -/
def noNext : Fault := .wrongType "'NoneType' object is not callable"

/-- Passes on the result of the step that a transformer is. -/
def Scene.next (host : Host) (scene : Scene) (error tree : Argument) : Action Unit := do
  let error ← argument error
  let tree ← argument tree
  require scene.hasNext noNext
  Pipeline.next host scene.completion error tree

/-- Has a result passed on by the loop, if there is a way to pass it on. -/
def Scene.nextLater (scene : Scene) (threaded : Bool) (error tree : Value) : Action Unit :=
  if scene.hasNext then enqueue (.next threaded scene.completion error tree) else pure ()

/-- The way to pass on its result that a transformer was handed, if it was handed one. -/
def Scene.way (scene : Scene) : Action (Option Nat) := do
  if scene.hasNext then
    let _ ← Action.completion scene.completion
    return some scene.completion
  else return none

/-- Keeps the way to pass on the result under a name. -/
def Scene.saveNext (scene : Scene) (id : String) : Action Unit := do
  let way ← scene.way
  modify fun w => { w with nexts := (id, way) :: w.nexts }

/-- Calls a way to pass on a result that was kept under a name. -/
def callNext (host : Host) (id : String) (error tree : Value) : Action Unit := do
  match (← get).nexts.lookup id with
  | some (some c) => next host c error tree
  | some none => throw noNext
  | none => throw (.raised "KeyError" [.str id])

/-- Passes on a result; with `guarded`, a fault is only noted. -/
def passing (guarded : Bool) (pass : Action Unit) : Action Unit := do
  if guarded then
    match ← attempt pass with
    | .ok _ => tell (.passed none)
    | .error f => if f.isError then tell (.passed (some f)) else throw f
  else pass

/-- Carries out steps. With `waits`, a pause returns the steps that are left. -/
def perform (host : Host) (scene : Scene) (waits : Bool) : List Act → Action (Sum Value (List Act))
  | [] => return .inl .none
  | .change f :: rest => do
    let c := f (← get).sight (← content scene.tree) (← file scene.file)
    let _ ← withStore (Store.change (fun _ => c.tree) scene.tree)
    setFile scene.file c.file
    c.records.forM fun record => tell (.log record)
    raise c.fault
    perform host scene waits rest
  | .mapLiterals type f records :: rest => do
    let m ← withStore (Store.mapLiterals f type scene.tree)
    raise m.fault
    (records m.count).forM fun record => tell (.log record)
    perform host scene waits rest
  | .observe label f :: rest => do
    tell (.traced label (← ofOutcome (f (← reveal scene.tree) (← file scene.file))))
    perform host scene waits rest
  | .log record :: rest => do
    tell (.log record)
    perform host scene waits rest
  | .next guarded error tree :: rest => do
    passing guarded (scene.next host error tree)
    perform host scene waits rest
  | .saveNext id :: rest => do
    scene.saveNext id
    perform host scene waits rest
  | .callNext guarded id error tree :: rest => do
    passing guarded do
      let error ← argument error
      let tree ← argument tree
      callNext host id error tree
    perform host scene waits rest
  | .laterNext threaded error tree :: rest => do
    let error ← argument error
    let tree ← argument tree
    require (← get).runningLoop.isSome (.raised "RuntimeError" [.str "no running event loop"])
    scene.nextLater threaded error tree
    perform host scene waits rest
  | .use name plugin options :: rest => do
    let on ← named name
    let plugin ← ofOutcome (plugin (← get).sight)
    let _ ← host.use on plugin (← argument options)
    perform host scene waits rest
  | .process name value :: rest => do
    let on ← named name
    tell (.nested (← host.process on (← argument value)))
    perform host scene waits rest
  | .sleep :: rest => if waits then return .inr rest else perform host scene waits rest
  | .raise fault :: _ => throw fault
  | .give v :: _ => do return .inl (← share (← argument v))
  | .giveReport reason :: _ => do
    let (f, d) ← (← file scene.file).report .warning (← argument reason) .none .none
    setFile scene.file f
    return .inl (.error (.diagnostic d))
  | .giveAwaitable :: _ => return .inl (.awaitable 0)

/-- How a transformer answers a call. -/
inductive Answer where
  | value (v : Value)
  | later (t : Task)
  | settled (s : Settled)

/-- Carries out all steps of a transformer at once. -/
def performAll (host : Host) (scene : Scene) (t : Transformer) : Action Value := do
  let acts := t.program (← reveal scene.tree) (← file scene.file)
  match ← perform host scene false acts with
  | .inl v => return v
  | .inr _ => return .none

/-- Tells how many arguments a transformer was called with, if it takes any number of them. -/
def tellArguments (t : Transformer) : Action Unit :=
  if t.style == .variadic then tell (.arguments t.label 1) else pure ()

/-- Calls a transformer. -/
def call (host : Host) (scene : Scene) (t : Transformer) : Action Answer := do
  match t.style with
  | .coroutineNext => return .value .none
  | .coroutine | .awaitable => return .later ⟨scene, .inl t.program⟩
  | .future =>
    match ← attempt (performAll host scene t) with
    | .ok v => return .settled (.value v)
    | .error f => if f.isError then return .settled (.failed f) else throw f
  | _ =>
    tellArguments t
    match ← performAll host scene t with
    | .awaitable _ => return .later ⟨scene, .inr []⟩
    | v => return .value v

end TextPipeline.Pipeline
