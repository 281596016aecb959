import TextPipeline.Pipeline.Process

/-! The loop on which steps that wait go on. Work is done in the order in which it was put on the
loop; a fault of one piece of work does not touch the others. -/

namespace TextPipeline.Pipeline

open TextPipeline.Transform
open TextPipeline.Pipeline.Action

/-- A result that is still to come. -/
def addFuture : Action Nat := do
  let w ← get
  set { w with futures := w.futures ++ [none] }
  return w.futures.length

/-- Gives a result to those who wait for it; only the first one counts. -/
def settleFuture (id : Nat) (result : Outcome Value) : Action Unit := do
  let w ← get
  match w.futures[id]? with
  | some none =>
    set { w with futures := w.futures.set id (some result) }
    enqueue (.wake id)
  | _ => pure ()

/-- The steps that are left of a task. -/
def Task.acts (t : Task) : Action (List Act) := do
  match t.rest with
  | .inl program => return program (← reveal t.scene.tree) (← file t.scene.file)
  | .inr acts => return acts

/-- Carries out more of a task. -/
def proceed (host : Host) (t : Task) : Action Unit := do
  let id := t.scene.completion
  match ← attempt (perform host t.scene true (← t.acts)) with
  | .ok (.inl v) => enqueue (.settle id (.value v))
  | .ok (.inr rest) => enqueue (.advance ⟨t.scene, .inr rest⟩)
  | .error f =>
    match f with
    | .raised "CancelledError" _ => enqueue (.settle id .cancelled)
    | .raised "StopIteration" _ =>
      enqueue (.settle id (.failed
        (.raised "RuntimeError" [.str "coroutine raised StopIteration"])))
    | f => enqueue (.settle id (.failed f))

/-- Carries out more of a task for which someone still waits. -/
def advance (host : Host) (t : Task) : Action Unit := do
  if (← completion t.scene.completion).isAbandoned then return ()
  else proceed host t

/-- The result of a task of a transformer. -/
def Settled.resolution (name : String) : Settled → Resolution
  | .cancelled => .misuse name ("Transformer '" ++ name ++ "' was cancelled")
  | .failed f => .failed f
  | .value (.awaitable _) =>
    .misuse name ("Transformer '" ++ name ++ "' resolved to another awaitable")
  | .value v => .ofReturn name v

/-- Starts a call whose result goes to those who wait for it. -/
def startCall (host : Host) (future : Nat) : Call → Action Unit
  | .run on tree given watcher => do
    let p ← processorFor host on
    let id ← toFile given
    let _ ← runTreeFor host p tree id watcher (.future future)
  | .process on value settings watcher => do
    let p ← processorFor host on
    let _ ← processTextFor host p value settings watcher (.future future)

/-- Does one piece of work. -/
def work (host : Host) : Job → Action Unit
  | .advance t => advance host t
  | .settle id s => do
    let c ← completion id
    unless c.isAbandoned do resolve host id (s.resolution c.label)
  | .resume k result => resume host k result
  | .next threaded id error tree => do
    modify fun w => { w with threaded := threaded }
    let done ← attempt (next host id error tree)
    modify fun w => { w with threaded := false }
    ofOutcome done
  | .deliver future result => settleFuture future result
  | .wake _ => pure ()
  | .start call future => do
    match ← attempt (startCall host future call) with
    | .ok _ => pure ()
    | .error f => settleFuture future (.error f)

/-- Takes the next piece of work off the loop. -/
def dequeue : Action (Option Job) := do
  let w ← get
  match w.jobs with
  | [] => return none
  | j :: rest =>
    set { w with jobs := rest }
    return some j

/-- Works until nothing is left, at most `fuel` times. -/
def settleAll (host : Host) : Nat → Action Unit
  | 0 => pure ()
  | fuel + 1 => do
    match ← dequeue with
    | none => pure ()
    | some j =>
      let _ ← attempt (work host j)
      settleAll host fuel

/-- Works until those who wait for a result are told of it, at most `fuel` times. -/
def waitFor (host : Host) (future : Nat) : Nat → Action Unit
  | 0 => pure ()
  | fuel + 1 => do
    match ← dequeue with
    | none => pure ()
    | some (.wake id) => if id == future then pure () else waitFor host future fuel
    | some j =>
      let _ ← attempt (work host j)
      waitFor host future fuel

/-- The result that was waited for. -/
def resultOf (future : Nat) : Action (Option (Outcome Value)) := do
  return ((← get).futures[future]?).join

/-- The bound on the work between two steps of a session. -/
def patience : Nat := 1000000

/-- Carries out a call and works until its result is there. Where no loop is running, one is opened
for the call and closed after it. -/
def awaitCall (host : Host) (call : Call) (future : Nat) : Action Unit := do
  if (← get).runningLoop.isSome then
    startCall host future call
    waitFor host future patience
  else
    modify fun w => { w with loops := w.loops + 1, openLoop := some w.loops }
    enqueue (.start call future)
    waitFor host future patience
    settleAll host patience
    modify fun w => { w with openLoop := none }

/-- Waits for the result of a call. -/
def await (host : Host) (call : Call) : Action Value := do
  let future ← addFuture
  awaitCall host call future
  match ← resultOf future with
  | some result => ofOutcome result
  | none => throw (.raised "RuntimeError" [.str "Event loop stopped before Future completed."])

/-- Starts a call that goes on by itself. -/
def spawn (host : Host) (call : Call) : Action Nat := do
  let future ← addFuture
  enqueue (.start call future)
  settleAll host patience
  return future

/-- The results of calls that go on side by side. What happens meanwhile is not observed. -/
def gather (host : Host) (calls : List Call) : Action (List (Option (Outcome Value))) := do
  let before := (← get).events
  let futures ← calls.mapM fun call => do
    let future ← addFuture
    enqueue (.start call future)
    return future
  settleAll host patience
  modify fun w => { w with events := before }
  futures.mapM resultOf

/-- Opens the loop on which everything is to happen. -/
def openLoop : Action Unit :=
  modify fun w => { w with loops := w.loops + 1, openLoop := some w.loops }

end TextPipeline.Pipeline
