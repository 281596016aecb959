import TextPipeline.Json.Printer
import TextPipeline.Script.Writing

/-! Scripts that make one fault and look at it. -/

namespace TextPipeline.Script

/-- The parameters from which a kind of fault is made, each with whether it must be given. -/
def parameters? : String → Option (List (String × Bool))
  | "SyntaxflowError" | "ConfigurationError" | "MissingTreeError" =>
    some [("message", true), ("original_error", false)]
  | "ValidationError" =>
    some [("message", true), ("parameter_name", false), ("parameter_value", false),
      ("original_error", false)]
  | "InvalidOptionsError" =>
    some [("component_name", true), ("expected_type", true), ("received_type", true)]
  | "MissingParserError" | "MissingCompilerError" => some [("processor_name", true)]
  | "AsyncTransformerError" => some [("message", true), ("transformer_name", false)]
  | "PluginAttachError" =>
    some [("message", true), ("plugin_name", false), ("original_error", false)]
  | "TransformError" =>
    some [("message", true), ("transformer_name", false), ("original_error", false)]
  | "ParsingError" =>
    some [("message", true), ("parsing_stage", false), ("original_error", false)]
  | "RenderingError" =>
    some [("message", true), ("rendering_stage", false), ("original_error", false)]
  | "VFileMessage" =>
    some [("reason", true), ("place", false), ("origin", false), ("fatal", false),
      ("file", false)]
  | _ => none

/-- The values of parameters that are given by place or by name. Each is given at most once, and
those that must be given are. -/
def bindParameters (parameters : List (String × Bool)) (args : List Value)
    (named : List (String × Value)) : Outcome (List (String × Value)) := do
  let placed := (parameters.map (·.1)).zip args
  if parameters.length < args.length then throw (.wrongType "too many arguments")
  for (name, _) in named do
    if (placed.lookup name).isSome then throw (.wrongType ("multiple values for " ++ name))
    if (parameters.lookup name).isNone then throw (.wrongType ("unexpected argument " ++ name))
  let bound := placed ++ named
  for (name, required) in parameters do
    if required && (bound.lookup name).isNone then throw (.wrongType ("missing argument " ++ name))
  return bound

/-- The name of a type that a value stands for. -/
def typeNameOf : Value → Outcome String
  | .callable name => .ok name
  | v => .error (.noAttribute ("'" ++ v.typeName ++ "' object has no attribute '__name__'"))

/-- The fault that is made from the values of parameters. Only its kind and its message count. -/
def faultWith (kind : String) (bound : List (String × Value)) : Outcome Fault := do
  let value (name : String) : Value := (bound.lookup name).getD .none
  match kind with
  | "InvalidOptionsError" =>
    return .invalidOptions (value "component_name").text (← typeNameOf (value "expected_type"))
      (← typeNameOf (value "received_type"))
  | "MissingParserError" | "MissingCompilerError" => Fault.ofKind kind (value "processor_name")
  | "VFileMessage" =>
    let fatal := (bound.lookup "fatal").getD (.bool false)
    return .diagnostic (← DiagnosticOf.make (value "reason") (value "place") (value "origin") fatal
      (value "file"))
  | kind => Fault.ofKind kind (value "message")

/-- A value that JSON can hold as it is, and any other in the form for those that it cannot. -/
def writeHeld (v : Value) : Value :=
  match Json.toText .compact v with
  | .ok _ => v
  | .error _ => View.plain.value v

/-- The facts that a fault holds: the values of the parameters that name something, and the kind of
the one that led to it. -/
def factsOf (kind : String) (bound : List (String × Value)) : List (String × Value) :=
  let fact : String × Value → Option (String × Value)
    | ("original_error", v) => if v.isNone then none else some ("original_error", .str v.typeName)
    | ("expected_type", .callable name) => some ("expected_type", .str name)
    | ("received_type", .callable name) => some ("received_type", .str name)
    | ("message", _) | ("parameter_value", _) => none
    | (name, v) => some (name, writeHeld v)
  let implied := if kind == "InvalidOptionsError" then [("parameter_name", Value.str "settings")]
    else []
  present (implied ++ bound.filterMap fact)

/-- The fault of a kind that is made from arguments, and the facts that it holds. -/
def makeFault (kind : String) (args : List Value) (named : List (String × Value)) :
    Outcome (Fault × List (String × Value)) := do
  match parameters? kind with
  | some parameters =>
    let bound ← bindParameters parameters args named
    return (← faultWith kind bound, factsOf kind bound)
  | none =>
    if named.isEmpty then return (.raised kind args, [])
    else throw (.wrongType (kind ++ "() takes no keyword arguments"))

/-- The message that a fault holds, if it holds one. -/
def messageHeld : Fault → Value
  | .diagnostic d => d.reason
  | .raised .. | .undecodable .. => .none
  | .missingParser _ said | .missingCompiler _ said => .str said
  | .general m _ | .validation m _ _ | .configuration m _ | .missingTree m _
  | .asyncTransformer m _ | .pluginAttach m _ _ | .transform m _ _ | .parsing m _ _
  | .rendering m _ _ => m
  | f => .str (Value.error f).text

/-- A fault as JSON, with the facts that it holds; a diagnostic holds itself. -/
def writeMade (f : Fault) (facts more : List (String × Value)) : Value :=
  match f, View.plain.failure f more with
  | .diagnostic _, v => v
  | _, .dict entries =>
    let own := entries.filter fun (k, _) => k.text != "attrs"
    .dict (if facts.isEmpty then own else own ++ [(.str "attrs", .record facts)])
  | _, v => v

/-- A fault as JSON, with the kinds that it is of, its message and its text. -/
def replayFault (scope : Scope) (script : Value) : Outcome Value := do
  let kind := textField script "class"
  let args ← (listField script "args").mapM scope.value
  let named ← (entriesOf (field script "kw")).mapM fun (k, v) => do
    if k == "expected_type" || k == "received_type" then return (k, Value.callable (text v))
    else return (k, ← scope.value v)
  let (f, facts) ← makeFault kind args named
  let kinds := (Fault.ancestry 8 f.kind).takeWhile (· != "BaseException")
  let more := [("bases", Value.list (kinds.map .str)), ("message_attr", writeHeld (messageHeld f)),
    ("repr", .str (← f.inspect))]
  return writeMade f facts more

end TextPipeline.Script
