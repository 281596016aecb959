import TextPipeline.Script.Writing
import TextPipeline.Transform.Completion

/-! Scripts that carry out commands on the completion of one step of a chain. -/

namespace TextPipeline.Script

open TextPipeline.Transform

mutual

/-- The command that a description of limited depth stands for. -/
def commandWithin (scope : Scope) : Nat → Value → Outcome Command
  | 0, _ => .error tooDeep
  | n + 1, v => do
    match textField v "do" with
    | "resolve" =>
      let args ← scope.atMostTwo (field v "args")
      return .resolve (args.getD 0 .none) (args.getD 1 .none)
    | "add_done" => return .addDone (listenerWithin scope n v)
    | "add_abandon" => return .addAbandon (listenerWithin scope n v)
    | _ => return .abandon

/-- The listener that a description stands for. -/
def listenerWithin (scope : Scope) : Nat → Value → Listener
  | 0, _ => .mk "" none (some tooDeep)
  | n + 1, v =>
    let fault := (field? v "raise").map faultOf
    match (field? v "then").map (commandWithin scope n) with
    | some (.ok c) => .mk (textField v "id") (some c) fault
    | some (.error f) => .mk (textField v "id") none (some f)
    | none => .mk (textField v "id") none fault

end

/-- The command that a description stands for. -/
def Scope.command (scope : Scope) (v : Value) : Outcome Command :=
  commandWithin scope (reach v) v

/-- What a listener was told, as JSON. -/
def writeNotice : Notice → Value
  | .done id error tree =>
    .list [.str "done", .str id, .bool true, View.plain.value error, View.plain.node tree]
  | .abandoned id => .list [.str "abandoned", .str id]

/-- A bound on the commands that a script can lead to: no command is carried out twice. -/
def commandBound (commands : List (Outcome Command)) : Nat :=
  let size : Outcome Command → Nat
    | .ok c => c.size
    | .error _ => 1
  2 * commands.foldl (fun total c => total + size c) 0 + 10

/-- The answers to the steps of a script: what listeners were told, and the state afterwards. -/
def replayCompletion (scope : Scope) (script : Value) : Value :=
  let commands := (listField script "steps").map scope.command
  let bound := commandBound commands
  let step (state : Exercise × List Value) (command : Outcome Command) : Exercise × List Value :=
    let run : Exercising Unit := do (← command).run bound
    let (result, x) := run.run.run { state.1 with notices := [], records := [] }
    let c := x.completion
    let (error, tree) := c.result?.getD (.none, .none)
    let answer := [
      ("events", Value.list (x.notices.map writeNotice ++ x.records.map writeRecord)),
      ("state", .list [.bool c.isDone, .bool c.isAbandoned, View.plain.value error,
        View.plain.node tree])]
    match result with
    | .ok _ => (x, state.2 ++ [.record answer])
    | .error f => (x, state.2 ++ [View.plain.failure f answer])
  .list (commands.foldl step (Exercise.start (textField script "label"), [])).2

end TextPipeline.Script
