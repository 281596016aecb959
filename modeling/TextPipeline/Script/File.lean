import TextPipeline.Script.Writing

/-! Scripts that work on one file. -/

namespace TextPipeline.Script

/-- The names that the path of a file is made of, as JSON. -/
def writeNames (f : File) : Outcome (List (String × Value)) := do
  match ← f.names with
  | some n =>
    return [("basename", .str n.base), ("stem", .str n.stem), ("extname", .str n.extension),
      ("dirname", .str n.directory)]
  | none => return ["basename", "stem", "extname", "dirname"].map fun k => (k, .none)

/-- A file with the names of its path, as JSON. -/
def writeFile (f : File) : Outcome Value := do
  return .record (View.plain.file f ++ (← writeNames f))

/-- The file after a step, what the step logged, and its result. -/
abbrev FileStep := File × List LogRecord × Outcome Value

/-- The namespace of a name after an entry of it has been set, if one is given. A namespace stays
open if its entry cannot be set. -/
def namespaceStep (f : File) (args : List Value) : FileStep :=
  let name := args.getD 0 .none
  match f.openNamespace name with
  | .error fault => (f, [], .error fault)
  | .ok g =>
    let stored := if args.length ≤ 1 then .ok g
      else g.store name (args.getD 1 .none) (args.getD 2 .none)
    match stored with
    | .error fault => (g, [], .error fault)
    | .ok g => (g, [], .ok (View.plain.value (.dict (g.results name))))

/-- A step of a name with its arguments. -/
def fileStepWith (f : File) (name : String) (args : List Value) : FileStep :=
  let arg (i : Nat) : Value := args.getD i .none
  let run (r : Outcome (File × Value)) : FileStep :=
    match r with
    | .ok (g, v) => (g, [], .ok v)
    | .error fault => (f, [], .error fault)
  let report (severity : Severity) : Outcome (File × Diagnostic) :=
    if args.isEmpty || args.length > 3 then
      .error (.wrongType (name ++ "() takes 1 to 3 arguments"))
    else f.report severity (arg 0) (arg 1) (arg 2)
  let shown (r : File × Diagnostic) : File × Value := (r.1, View.plain.diagnostic r.2)
  match name with
  | "message" => run ((report .warning).map shown)
  | "info" => run ((report .info).map shown)
  | "fail" =>
    match report .error with
    | .ok (g, d) => (g, [g.failure d.reason], .error (.diagnostic d))
    | .error fault => (f, [], .error fault)
  | "path" => run do return (← f.setPath (arg 0), .none)
  | "contents" => run (.ok ({ f with contents := arg 0 }, .none))
  | "data" => run do
    let key ← (arg 0).asKey
    return ({ f with data := Entries.insert key (arg 1) f.data }, .none)
  | "namespace" => namespaceStep f args
  | "same" => (f, [], .ok (.bool true))
  | "paths" => (f, [], do return .record (← writeNames f))
  | _ => (f, [], .ok .none)

/-- Carries out one step on a file. -/
def fileStep (scope : Scope) (f : File) (step : Value) : FileStep :=
  match (listField step "args").mapM scope.argument with
  | .ok args => fileStepWith f (textField step "do") args
  | .error fault => (f, [], .error fault)

/-- The file at first, and then the answer to each step with the file after it. -/
def replayFile (scope : Scope) (script : Value) : Logged Value := do
  let fields ← scope.value (field script "init")
  let f ← File.ofFields (fields.entries?.getD [])
  let first ← writeFile f
  let step (state : File × List Value) (step : Value) : Logged (File × List Value) := do
    let (g, records, result) := fileStep scope state.1 step
    modify (· ++ records)
    return (g, state.2 ++ [outcome result [("file", .record (View.plain.file g))]])
  let (_, answers) ← (listField script "steps").foldlM step (f, [])
  return .list (first :: answers)

end TextPipeline.Script
