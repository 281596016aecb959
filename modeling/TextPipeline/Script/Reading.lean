import TextPipeline.Decimal.Reading
import TextPipeline.Settings.Basic
import TextPipeline.Text.Hex
import TextPipeline.Tree.Basic
import TextPipeline.Value.Fault

/-! Values in scripts. A script is a JSON document that describes trees, plugins and what is done
with them. JSON values stand for themselves, except for mappings with the key `$`, which describe
what JSON has no form for. -/

namespace TextPipeline.Script

/-- The value of a key of a mapping. -/
def field? (v : Value) (name : String) : Option Value :=
  match v with
  | .dict entries => Entries.get? entries name
  | _ => none

/-- The value of a key of a mapping, absent if there is none. -/
def field (v : Value) (name : String) : Value :=
  Value.ofOption (field? v name)

def has (v : Value) (name : String) : Bool :=
  (field? v name).isSome

def flag (v : Value) (name : String) : Bool :=
  (field v name).truthy

/-- The elements of a list. -/
def items : Value → List Value
  | .list items => items
  | _ => []

/-- The elements of the list that a key has as its value. -/
def listField (v : Value) (name : String) : List Value :=
  items (field v name)

/-- An element of a list, absent if there is none. -/
def item (v : Value) (i : Nat) : Value :=
  (items v).getD i .none

/-- A text as it is, and any other value by its text. -/
def text : Value → String
  | .str s => s
  | v => v.text

def textField (v : Value) (name : String) : String :=
  text (field v name)

/-- The text of a key, or a default if it has none. -/
def textOr (v : Value) (name default : String) : String :=
  match field? v name with
  | some (.str s) => s
  | _ => default

/-- The entries of a mapping from texts. -/
def entriesOf : Value → List (String × Value)
  | .dict entries => entries.map fun (k, w) => (text k, w)
  | _ => []

/-- What the names in a script mean: objects that were named before, and parsers and compilers by
the names that they are reported under. -/
structure Scope where
  object : String → Option Value
  parser : String → Option String
  compiler : String → Option String

namespace Scope

/-- The parser that a value names; any other value stays as it is. -/
def parserOf (scope : Scope) : Value → Value
  | .str s => ((scope.parser s).map Value.callable).getD (.str s)
  | v => v

/-- The compiler that a value names; any other value stays as it is. -/
def compilerOf (scope : Scope) : Value → Value
  | .str s => ((scope.compiler s).map Value.callable).getD (.str s)
  | v => v

/-- Settings whose parser and compiler are given by name. -/
def endpointFields (scope : Scope) (kind : SettingsKind) (fields : List (String × Value)) :
    List (String × Value) :=
  fields.map fun (k, v) =>
    match kind, k with
    | .processor, "parser" => (k, scope.parserOf v)
    | .processor, "compiler" => (k, scope.compilerOf v)
    | _, _ => (k, v)

end Scope

/-- The kind of settings that is reported under a name. -/
def settingsKind? (name : String) : Option SettingsKind :=
  [SettingsKind.base, .processor, .parser, .compiler, .plainParser, .plainCompiler, .jsonParser,
    .jsonCompiler].find? fun k => k.name == name

/-- The octets that a text of hexadecimal digits stands for. -/
def octets : List Char → List UInt8
  | a :: b :: rest => UInt8.ofNat ((Text.readHex? [a, b]).getD 0) :: octets rest
  | _ => []

/-- The number that a text stands for. -/
def floatOf (s : String) : Outcome Float :=
  match Decimal.float? s.toList with
  | some x => .ok x
  | none => .error (.badValue ("could not convert string to float: " ++ Text.quoted s))

/-- The fault that a description stands for, unless making it fails. -/
def fault (v : Value) : Outcome Fault :=
  Fault.ofKind (textField v "kind") (field v "message")

/-- The fault that a description stands for, or with which making it fails. -/
def faultOf (v : Value) : Fault :=
  match fault v with
  | .ok f => f
  | .error f => f

mutual

/-- How deep lists and mappings are nested. -/
def depth : Value → Nat
  | .list items => depthOfAll items + 1
  | .dict entries => depthOfEntries entries + 1
  | _ => 1

def depthOfAll : List Value → Nat
  | [] => 0
  | v :: rest => max (depth v) (depthOfAll rest)

def depthOfEntries : List (Value × Value) → Nat
  | [] => 0
  | (_, v) :: rest => max (depth v) (depthOfEntries rest)

end

/-- The fault of a script that is nested too deep. -/
def tooDeep : Fault := .raised "RecursionError" [.str "maximum recursion depth exceeded"]

mutual

/-- The value that a description of limited depth stands for. -/
def valueWithin (scope : Scope) : Nat → Value → Outcome Value
  | 0, _ => .error tooDeep
  | n + 1, .list items => do return .list (← items.mapM (valueWithin scope n))
  | n + 1, .dict entries => do
    let v : Value := .dict entries
    match field? v "$" with
    | none => return .dict (← entries.mapM fun (k, w) => return (k, ← valueWithin scope n w))
    | some tag => specialWithin scope n (text tag) v
  | _ + 1, v => .ok v

/-- The value that a mapping with a tag stands for. -/
def specialWithin (scope : Scope) : Nat → String → Value → Outcome Value
  | 0, _, _ => .error tooDeep
  | n + 1, tag, v => do
    match tag with
    | "bytes" => return .bytes (octets (textField v "hex").toList)
    | "tuple" => return .tuple (← (listField v "items").mapM (valueWithin scope n))
    | "set" =>
      let members ← (listField v "items").mapM fun w => do (← valueWithin scope n w).asKey
      return .set ((Entries.ofList (members.map fun w => (w, Value.none))).map (·.1))
    | "dict" =>
      let pairs ← (listField v "items").mapM fun pair => do
        let k ← valueWithin scope n (item pair 0)
        let w ← valueWithin scope n (item pair 1)
        return (← k.asKey, w)
      return .dict (Entries.ofList pairs)
    | "float" => return .float (← floatOf (textField v "v"))
    | "object" => return .other "object" "<object object>"
    | "callable" => return .anonymous
    | "node" => treeWithin scope n (field v "t")
    | "point" => return .point (← pointWithin scope n (field v "at"))
    | "position" => spanWithin scope n (field v "at")
    | "err" => return .error (← fault v)
    | "options" =>
      match settingsKind? (textField v "class") with
      | none => return .none
      | some kind =>
        let fields ← (entriesOf (field v "fields")).mapM fun (k, w) =>
          return (k, ← valueWithin scope n w)
        Settings.make kind (scope.endpointFields kind fields)
    | "ref" =>
      match scope.object (textField v "id") with
      | some w => return w
      | none => throw (.raised "KeyError" [field v "id"])
    | _ => return v

def pointWithin (scope : Scope) : Nat → Value → Outcome Point
  | 0, _ => .error tooDeep
  | n + 1, v => do
    PointOf.make (← valueWithin scope n (item v 0)) (← valueWithin scope n (item v 1))
      (← valueWithin scope n (item v 2))

def spanWithin (scope : Scope) : Nat → Value → Outcome Value
  | 0, _ => .error tooDeep
  | n + 1, v => do
    return .span (← pointWithin scope n (item v 0)) (← pointWithin scope n (item v 1))

/-- The tree that a list of a type, a body and properties describes. Anything but a list stands for
a value. -/
def treeWithin (scope : Scope) : Nat → Value → Outcome Value
  | 0, _ => .error tooDeep
  | n + 1, .list parts => do
    let v : Value := .list parts
    let props := item v 2
    let (children, value) ← match item v 1 with
      | .list cs => do pure (Value.list (← cs.mapM (treeWithin scope n)), Value.none)
      | .none => pure (Value.none, Value.none)
      | w => do pure (Value.none, ← valueWithin scope n w)
    let children ← match field? props "children" with
      | some w => treesWithin scope n w
      | none => pure children
    let data ← valueWithin scope n (field props "data")
    let position ← match field props "position" with
      | .list ps => spanWithin scope n (.list ps)
      | w => valueWithin scope n w
    let type ← valueWithin scope n (item v 0)
    let node ← NodeOf.make type children value data position
    return .node (← (entriesOf (field props "then")).foldlM
      (fun node (k, w) => assignWithin scope n k w node) node)
  | n + 1, v => valueWithin scope n v

/-- The list of trees that a list stands for, or some value. -/
def treesWithin (scope : Scope) : Nat → Value → Outcome Value
  | 0, _ => .error tooDeep
  | n + 1, .list cs => do return .list (← cs.mapM (treeWithin scope n))
  | n + 1, v => valueWithin scope n v

/-- A node after an assignment that nothing checks. -/
def assignWithin (scope : Scope) : Nat → String → Value → Node → Outcome Node
  | 0, _, _, _ => .error tooDeep
  | n + 1, name, v, node => do
    match name with
    | "children" => return { node with children := ← treesWithin scope n v }
    | "type" => return { node with type := ← valueWithin scope n v }
    | "value" => return { node with value := ← valueWithin scope n v }
    | "data" => return { node with data := ← valueWithin scope n v }
    | "position" => return { node with position := ← valueWithin scope n v }
    | _ => return node

end

namespace Scope

/-- How often the description of a value is looked into. -/
def reach (v : Value) : Nat := 4 * depth v + 4

/-- The value that a description stands for. -/
def value (scope : Scope) (v : Value) : Outcome Value := valueWithin scope (reach v) v

/-- The tree that a description stands for. -/
def tree (scope : Scope) (v : Value) : Outcome Value := treeWithin scope (reach v) v

/-- The trees that the descriptions in a list stand for. -/
def trees (scope : Scope) (v : Value) : Outcome Value := treesWithin scope (reach v) v

/-- The place that a description stands for. -/
def point (scope : Scope) (v : Value) : Outcome Point := pointWithin scope (reach v) v

/-- The stretch that a description stands for. -/
def span (scope : Scope) (v : Value) : Outcome Value := spanWithin scope (reach v) v

/-- The argument that a description stands for; here a list describes a tree. -/
def argument (scope : Scope) (v : Value) : Outcome Value :=
  match v with
  | .list _ => scope.tree v
  | v => scope.value v

/-- The arguments that a list describes, for what takes at most two of them. -/
def atMostTwo (scope : Scope) (v : Value) : Outcome (List Value) := do
  let args ← (items v).mapM scope.argument
  if args.length > 2 then throw (.wrongType "takes at most 2 arguments")
  return args

/-- The fields of a mapping from names to values. -/
def fields (scope : Scope) (v : Value) : Outcome (List (String × Value)) :=
  (entriesOf v).mapM fun (k, w) => return (k, ← scope.value w)

end Scope

end TextPipeline.Script
