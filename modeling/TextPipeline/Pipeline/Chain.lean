import TextPipeline.Pipeline.Perform
import TextPipeline.Pipeline.Stage

/-! Chains of transformers. Each step is given the tree that the one before it left; a step that is
not resolved when it returns holds the chain up until it is. -/

namespace TextPipeline.Pipeline

open TextPipeline.Transform
open TextPipeline.Pipeline.Action

/-- Tells the receiver of a run of its result. -/
def tellRan (k : Callback) (error : Option Fault) (tree : Value) (id : Nat) : Action Unit := do
  let w ← get
  tell (.ran error (w.reveal tree) (w.namesOfValue tree) (w.namesOf (.file id)))
  raise k.fault

/-- A result for someone who waits for it. -/
def settlement (error : Option Fault) (v : Value) : Outcome Value :=
  match error with
  | some f => .error f
  | none => .ok v

/-- Tells the receiver of a whole pipeline of its result. -/
def tellProcessed (receiver : TextReceiver) (error : Option Fault) (text : Value) (id : Nat) :
    Action Unit := do
  match receiver with
  | .callback k =>
    let w ← get
    tell (.processed error text (w.namesOf (.file id))
      (w.reveal (w.files.getD id File.empty).contents))
    raise k.fault
  | .silent k => raise k.fault
  | .future future => enqueue (.deliver future (settlement error text))

/-- A pipeline with a receiver has failed. -/
def fail (watcher : Option Watcher) (receiver : TextReceiver) (fault : Fault) (id : Nat) :
    Action Unit := do
  logFault .debug logger ("Processing " ++ (← file id).label ++ " failed: ") fault
  tellFailed watcher fault
  tellProcessed receiver (some fault) .none id

/-- What is left of a pipeline after its run: writing the tree as text. -/
def compile (host : Host) (r : Nat) (c : Compilation) (error : Option Fault) (tree : Value) :
    Action Unit := do
  match error with
  | some f => fail c.watcher c.receiver f c.file
  | none =>
    tellStage c.watcher "run"
    match ← attempt (stringify host c.processor tree (.handle (.file c.file)) c.settings) with
    | .error f => if f.isError then fail c.watcher c.receiver f c.file else throw f
    | .ok text =>
      tellStage c.watcher "stringify"
      complete c.watcher c.file text
      changeRun r fun x => { x with compiled := x.compiled.or (some text) }
      tellProcessed c.receiver none text c.file

/-- Stores the tree that a run comes to, if it comes to one. -/
def settle (r file : Nat) (name : String) (error : Option Fault) (tree : Value) : Action Unit := do
  if error.isNone && !tree.isNone then
    storeTree file name tree
    tell (.produced name file tree)
    changeRun r fun x => { x with settled := x.settled.or (some tree) }
  else return ()

/-- Delivers the result of a chain. -/
def deliver (host : Host) (r : Nat) (delivery : Delivery) (error : Option Fault) (tree : Value) :
    Action Unit := do
  let x ← run r
  tell (.delivered r error tree)
  match delivery with
  | .kept => changeRun r (Run.keep error tree)
  | .callback k => tellRan k error tree x.file
  | .stored name receiver =>
    settle r x.file name error tree
    match receiver with
    | .callback k => tellRan k error tree x.file
    | .future future => enqueue (.deliver future (settlement error tree))
    | .compilation c => compile host r c error tree

/-- The fault of a step that needs a loop where there is none. -/
def noLoop (name : String) : Fault :=
  .asyncTransformer (.str ("Transformer '" ++ name ++ "' returned an awaitable but no asyncio " ++
    "event loop is running; use run_async() or process_async()")) (some name)

/-- Puts the rest of a step on the loop. -/
def schedule (host : Host) (id : Nat) (name : String) (job : Job) : Action Unit := do
  if (← get).runningLoop.isNone then resolve host id (.failed (noLoop name))
  else enqueue job

/-- What the answer of a transformer, or its fault, means for its step. A fault of one that has
passed on a result already is not the result of the step. -/
def conclude (host : Host) (id : Nat) (t : Transformer) : Outcome Answer → Action Unit
  | .error f => do
    let c ← completion id
    require (f.isError && !(t.style.takesNext && (c.isDone || c.isAbandoned))) f
    resolve host id (.failed f)
  | .ok answer =>
    if t.style.takesNext then pure ()
    else
      match answer with
      | .value v => resolve host id (Resolution.ofReturn t.name v)
      | .later task => schedule host id t.name (.advance task)
      | .settled s => schedule host id t.name (.settle id s)

/-- Applies a transformer that is to resolve a completion. -/
def apply (host : Host) (x : Run) (index : Nat) (t : Transformer) (tree : Value) (id : Nat) :
    Action Unit := do
  log .debug Transform.logger ("Applying transformer " ++ toString (index + 1) ++ "/" ++
    toString x.steps.length ++ ": " ++ t.name)
  conclude host id t (← attempt (call host ⟨tree, x.file, id, t.style.takesNext⟩ t))

/-- Calls one transformer. Its completion says whether it is resolved. -/
def invoke (host : Host) (r : Nat) (x : Run) (index : Nat) (t : Transformer) (tree : Value) :
    Action Nat := do
  let seen := (← get).view tree x.file
  let id ← addCompletion t.name
  tell (.called r ⟨index, t, tree, seen, id⟩)
  apply host x index t tree id
  return id

/-- Tells an observer that a step is done. -/
def tellStep (x : Run) (index : Nat) (name : String) : Action Unit :=
  emit x.watcher (.at_ "item_done" ("Transformer " ++ name ++ " complete") (index + 1)
    x.steps.length [(.str "item_type", .str "transformer"), (.str "transformer", .str name)])

/-- A step has failed, and the chain ends. -/
def failStep (host : Host) (r : Nat) (delivery : Delivery) (name : String) (fault : Fault)
    (tree : Value) : Action Unit := do
  logFault .debug Transform.logger ("Transformer '" ++ name ++ "' failed: ") fault
  deliver host r delivery (some fault) tree

/-- The fault of a step that holds up a chain which must not wait. -/
def notSynchronous (name : String) : Fault :=
  .asyncTransformer (.str ("Transformer '" ++ name ++ "' resolved asynchronously but no " ++
    "completion callback was given; pass a callback or use the async API")) (some name)

/-- A step is pending: the chain waits for it, or ends if it must not wait. -/
def holdUp (host : Host) (k : Resumption) (sync : Bool) (name : String) (id : Nat)
    (c : Completion Resolution Resumption Empty) : Action Unit :=
  if sync then do
    setCompletion id (c.abandon.getD c)
    log .debug Transform.logger ("Transformer '" ++ name ++
      "' did not resolve synchronously; abandoning run")
    deliver host k.run k.delivery (some (notSynchronous name)) k.tree
  else do
    log .debug Transform.logger ("Transformer '" ++ name ++ "' is pending")
    setCompletion id (c.addDone k).1

/-- Runs the steps that are left, of which the first has the number `index`. With `sync`, a step
that is not resolved when it returns ends the chain. -/
def drive (host : Host) (r : Nat) (delivery : Delivery) (sync : Bool) :
    List Transformer → Nat → Value → Action Unit
  | [], _, tree => do
    log .debug Transform.logger "Transformer chain complete"
    deliver host r delivery none tree
  | t :: rest, index, tree => do
    let x ← run r
    let id ← invoke host r x index t tree
    let c ← completion id
    match c.result? with
    | some result =>
      match result.error with
      | some f => failStep host r delivery t.name f tree
      | none =>
        tellStep x index t.name
        drive host r delivery sync rest (index + 1) (result.tree.getD tree)
    | none => holdUp host ⟨r, index, tree, delivery⟩ sync t.name id c

/-- Lets a chain go on after a step that held it up. -/
def resume (host : Host) (k : Resumption) (result : Resolution) : Action Unit := do
  let x ← run k.run
  let name := ((x.steps[k.index]?).map (·.name)).getD ""
  match result.error with
  | some f => failStep host k.run k.delivery name f k.tree
  | none =>
    tellStep x k.index name
    drive host k.run k.delivery false (x.steps.drop (k.index + 1)) (k.index + 1)
      (result.tree.getD k.tree)

/-- Starts a chain. -/
def start (host : Host) (steps : List Transformer) (watcher : Option Watcher) (tree : Value)
    (id : Nat) (delivery : Delivery) : Action Nat := do
  log .debug Transform.logger ("Running " ++ toString steps.length ++ " transformer(s)")
  let w ← get
  let r := w.runs.length
  let x : Run := ⟨steps, watcher, w.runningLoop, id, tree, none, none, none⟩
  set { w with runs := w.runs ++ [x] }
  drive host r delivery (delivery matches .kept) steps 0 tree
  return r

/-- Runs a chain that must not wait: the tree that it leaves. -/
def runChain (host : Host) (steps : List Transformer) (watcher : Option Watcher) (tree : Value)
    (id : Nat) : Action Value := do
  let r ← start host steps watcher tree id .kept
  match (← run r).outcome with
  | some (none, tree) => return tree
  | some (some f, _) => throw f
  | none => return .none

end TextPipeline.Pipeline
