import TextPipeline.File.Basic
import TextPipeline.Logging.Record
import TextPipeline.Script.Reading

/-! Values written as JSON for those who run scripts. What JSON has no form for is written as a
mapping with the key `$`. -/

namespace TextPipeline.Script

/-- A mapping with a tag. -/
def tagged (tag : String) (fields : List (String × Value)) : Value :=
  .record (("$", .str tag) :: fields)

def hexText (octets : List UInt8) : String :=
  String.ofList (octets.flatMap fun b => Text.hex 2 b.toNat)

/-- Entries for the values that are there. -/
def present (fields : List (String × Value)) : List (String × Value) :=
  fields.filter fun (_, v) => !v.isNone

/-- How the objects that a session keeps are written. -/
structure View where
  /-- A value with what it shares in full. -/
  reveal : Value → Value
  object : Handle → Value

/-- The view of values that refer to nothing. -/
def View.plain : View := ⟨id, fun _ => .none⟩

/-- The kinds of faults whose messages are not part of the answer. -/
def wordless : List String :=
  ["TypeError", "AttributeError", "OverflowError", "YAMLError", "TOMLDecodeError"]

/-- The facts that a fault holds besides its message and its origin. -/
def ownFacts : Fault → List (String × Value)
  | .validation _ p _ => [("parameter_name", .ofString? p)]
  | .invalidOptions c e r =>
    [("parameter_name", .str "settings"), ("component_name", .str c), ("expected_type", .str e),
      ("received_type", .str r)]
  | .missingParser p _ | .missingCompiler p _ => [("processor_name", p)]
  | .asyncTransformer _ t | .transform _ t _ => [("transformer_name", .ofString? t)]
  | .pluginAttach _ p _ => [("plugin_name", .ofString? p)]
  | .parsing _ s _ => [("parsing_stage", .ofString? s)]
  | .rendering _ s _ => [("rendering_stage", .ofString? s)]
  | _ => []

/-- The facts that a fault holds about the one that led to it. -/
def originFacts (f : Fault) : List (String × Value) :=
  match f.origin? with
  | some o => [("original_error", .str o.kind), ("cause", .str o.kind)]
  | none => []

mutual

/-- A value of limited depth as JSON. -/
def writeWithin (view : View) : Nat → Value → Value
  | 0, _ => .none
  | n + 1, v =>
    match v with
    | .none | .bool _ | .int _ | .str _ => v
    | .float x => tagged "float" [("v", .str (Decimal.FloatStyle.plain.text x))]
    | .bytes octets => tagged "bytes" [("hex", .str (hexText octets))]
    | .list items => .list (items.map (writeWithin view n))
    | .tuple items => tagged "tuple" [("items", .list (items.map (writeWithin view n)))]
    | .set items =>
      let sorted := items.mergeSort fun a b => !decide (b.text < a.text)
      tagged "set" [("items", .list (sorted.map (writeWithin view n)))]
    | .dict entries =>
      let plain := entries.all fun (k, _) =>
        match k with
        | .str s => s != "$"
        | _ => false
      if plain then .dict (entries.map fun (k, w) => (k, writeWithin view n w))
      else tagged "dict" [("items", .list (entries.map fun (k, w) =>
        .list [writeWithin view n k, writeWithin view n w]))]
    | .moment m =>
      let tag := match m with
        | .date _ => "date"
        | .time _ => "time"
        | .dateTime .. => "datetime"
      tagged tag [("v", .str (m.text "T"))]
    | .node node => tagged "node" [("node", writeNodeWithin view n (.node node))]
    | .handle h => view.object h
    | .point p => tagged "point" [("at", writePointWithin view n p)]
    | .span a b =>
      tagged "position" [("at", .list [writePointWithin view n a, writePointWithin view n b])]
    | .error f => .dict ((.str "$", .str "err") :: writeFaultWithin view n f)
    | .settings kind fields =>
      tagged "options" [("class", .str kind.name),
        ("fields", .record (fields.map fun (k, w) => (k, writeWithin view n w)))]
    | .callable name =>
      tagged "callable" [("name", .str (if name == "" then "function" else name))]
    | .anonymous => tagged "callable" [("name", .str "anonymous")]
    | .awaitable _ => tagged "object" [("type", .str "coroutine")]
    | .sequence (.other _) _ | .mapping (.other _) _ | .document .. | .other .. =>
      tagged "object" [("type", .str v.typeName)]

def writePointWithin (view : View) : Nat → Point → Value
  | 0, _ => .none
  | n + 1, p =>
    .list [writeWithin view n p.line, writeWithin view n p.column, writeWithin view n p.offset]

def writePositionWithin (view : View) : Nat → Value → Value
  | 0, _ => .none
  | n + 1, .span a b => .list [writePointWithin view n a, writePointWithin view n b]
  | n + 1, v => writeWithin view n v

/-- A node without a tag; anything else as a value. -/
def writeNodeWithin (view : View) : Nat → Value → Value
  | 0, _ => .none
  | n + 1, v =>
    match v with
    | .node node =>
      let children := match node.children with
        | .list cs => Value.list (cs.map (writeNodeWithin view n))
        | w => writeWithin view n w
      .record (("type", writeWithin view n node.type) :: present [("children", children),
        ("value", writeWithin view n node.value), ("data", writeWithin view n node.data),
        ("position", writePositionWithin view n node.position)])
    | w => writeWithin view n w

def writeDiagnosticWithin (view : View) : Nat → Diagnostic → Value
  | 0, _ => .none
  | n + 1, d =>
    .record [("reason", writeWithin view n d.reason), ("line", writeWithin view n d.line),
      ("column", writeWithin view n d.column), ("position", writePositionWithin view n d.position),
      ("source", writeWithin view n d.source), ("rule_id", writeWithin view n d.rule),
      ("fatal", writeWithin view n d.fatal), ("severity", .str d.severity.name),
      ("file", writeWithin view n d.file), ("str", .str (Value.error (.diagnostic d)).text)]

/-- The kind of a fault, its message and the facts that it holds. The message of a missing key is the
text of the key. -/
def writeFaultWithin (view : View) : Nat → Fault → List (Value × Value)
  | 0, _ => []
  | n + 1, f =>
    let message : String := match f with
      | .raised "KeyError" (key :: _) => key.text
      | f => (Value.error f).text
    let shown : List (Value × Value) :=
      if wordless.contains f.kind then [] else [(.str "message", .str message)]
    let attrs : Value := match f with
      | .diagnostic d => writeDiagnosticWithin view n d
      | f => .record (present (ownFacts f ++ originFacts f))
    let facts : List (Value × Value) := if attrs.truthy then [(.str "attrs", attrs)] else []
    (.str "error", .str f.kind) :: shown ++ facts

end

namespace View

/-- How deep values are written. -/
def reach : Nat := 100000

/-- A value as JSON. -/
def value (view : View) (v : Value) : Value := writeWithin view reach (view.reveal v)

/-- A node as JSON without a tag; anything else as a value. -/
def node (view : View) (v : Value) : Value := writeNodeWithin view reach (view.reveal v)

def point (view : View) (p : Point) : Value := writePointWithin view reach p

def position (view : View) (v : Value) : Value := writePositionWithin view reach v

/-- A fault with what its arguments share in full. -/
def fault (view : View) (f : Fault) : Fault :=
  match view.reveal (.error f) with
  | .error f => f
  | _ => f

def diagnostic (view : View) (d : Diagnostic) : Value :=
  match view.fault (.diagnostic d) with
  | .diagnostic d => writeDiagnosticWithin view reach d
  | _ => .none

/-- A fault as JSON, with further entries. -/
def failure (view : View) (f : Fault) (more : List (String × Value)) : Value :=
  .dict (writeFaultWithin view reach (view.fault f) ++ more.map fun (k, v) => (.str k, v))

/-- A file as JSON. -/
def file (view : View) (f : File) : List (String × Value) :=
  [("contents", view.value f.contents),
    ("str", match f.text with
      | .ok s => .str s
      | .error fault => view.failure fault []),
    ("path", view.value f.path), ("history", view.value (.list f.history)),
    ("data", view.value (.dict f.data)),
    ("messages", .list (f.messages.map view.diagnostic)),
    ("has_failed", .bool f.hasFailed),
    ("namespaces", view.value (.dict (f.namespaces.map fun (k, es) => (k, .dict es)))),
    ("repr", match f.repr with
      | .ok s => .str s
      | .error fault => view.failure fault [])]

end View

/-- A result under its name or a failure, with further entries. -/
def outcome (r : Outcome Value) (more : List (String × Value)) : Value :=
  match r with
  | .ok v => .record (("result", v) :: more)
  | .error f => View.plain.failure f more

/-- A log record as JSON. -/
def writeRecord (r : LogRecord) : Value :=
  .list [.str "log", .str r.level.name, .str r.logger, .str r.text]

/-- The records of at least the level that a script asks for. -/
def wanted (script : Value) (records : List LogRecord) : List Value :=
  match field script "logs" with
  | .str "DEBUG" => records.map writeRecord
  | .str "WARNING" =>
    (records.filter fun r => Level.warning.number ≤ r.level.number).map writeRecord
  | _ => []

end TextPipeline.Script
