import TextPipeline.FrontMatter.Reading
import TextPipeline.Pipeline.Program
import TextPipeline.Script.Writing
import TextPipeline.Tree.Literal
import TextPipeline.Value.Edit
import TextPipeline.Value.Number

/-! Plugins in scripts: attachers and transformers that are described by what they do. -/

namespace TextPipeline.Script

open TextPipeline.Pipeline TextPipeline.Plugin

/-- The scope of a step, in which names mean what they do when it is carried out. -/
def Scope.seeing (scope : Scope) (sight : Sight) : Scope :=
  { scope with object := sight.object }

/-- The value that a description stands for when it is needed. -/
def Scope.later (scope : Scope) (v : Value) : Argument :=
  fun sight => (scope.seeing sight).value v

/-- The argument that a description stands for when it is needed. -/
def Scope.laterArgument (scope : Scope) (v : Value) : Argument :=
  fun sight => (scope.seeing sight).argument v

/-- Sets what a key leads to. -/
def setting (key : Value) (item : Argument) : Edit where
  apply sight data := do data.setItem key (← item sight)
  mapping sight _ _ h := by
    cases hitem : item sight with
    | error f => rw [hitem] at h; cases h
    | ok v => rw [hitem] at h; exact Value.setItem_dict h

/-- Removes what a key leads to. -/
def erasing (key : Argument) : Edit where
  apply sight data := do data.eraseItem (← key sight)
  mapping sight _ _ h := by
    cases hkey : key sight with
    | error f => rw [hkey] at h; cases h
    | ok k => rw [hkey] at h; exact Value.eraseItem_dict h

/-- The changes of data that a script lists: keys to set, to remove and to extend. -/
def alterations (scope : Scope) (v : Value) : List Alteration :=
  (entriesOf (field v "set")).map (fun (k, w) => .change (setting (.str k) (scope.later w))) ++
  (listField v "del").map (fun k => .change (erasing (scope.later k))) ++
  (listField v "push").map (fun pair =>
    .push (scope.later (item pair 0)) (scope.later (item pair 1)))

/-- The style of a name. -/
def styleOf : String → Style
  | "next" => .next
  | "next_default" => .nextDefault
  | "args" => .variadic
  | "kwonly" => .keywordNext
  | "object" => .object
  | "object_next" => .objectNext
  | "async" => .coroutine
  | "async_next" => .coroutineNext
  | "awaitable" => .awaitable
  | "future" => .future
  | _ => .plain

/-- A step that changes the tree. -/
def changeTree (f : Sight → Value → Outcome Value) : Act :=
  .change fun sight tree file =>
    match f sight tree with
    | .ok tree => { tree, file }
    | .error fault => { tree, file, fault := some fault }

/-- A step that changes the file. -/
def changeFile (f : Sight → File → Outcome File) : Act :=
  .change fun sight tree file =>
    match f sight file with
    | .ok file => { tree, file }
    | .error fault => { tree, file, fault := some fault }

/-- A tree with one more child at its end. -/
def appendChild (child : Outcome Value) (tree : Value) : Outcome Value := do
  let n ← Tree.asNode tree
  match n.children with
  | .list cs => return .node { n with children := .list (cs ++ [← child]) }
  | v => throw (.noAttribute ("'" ++ v.typeName ++ "' object has no attribute 'append'"))

/-- A node one part of which is set to a value. -/
def setPart (part : String) (v tree : Value) : Outcome Node := do
  let n ← Tree.asNode tree
  match part with
  | "type" => return { n with type := v }
  | "children" => return { n with children := v }
  | "value" => return { n with value := v }
  | "data" => return { n with data := v }
  | "position" => return { n with position := v }
  | _ => return n

/-- A step that adds a text to the values of literals. -/
def appendText (type added : Value) : Act :=
  let f (n : Node) : Outcome Value :=
    match added with
    | .str s => Tree.appended n.value s
    | v => .error (.wrongType ("cannot add " ++ v.typeName ++ " to the value of a literal"))
  .mapLiterals (if type.isNone then none else some type) f fun _ => []

/-- A step that reports on the file. The place `tree` is the tree itself; a report of an error ends
the transformer. -/
def reportStep (scope : Scope) (severity : Severity) (v : Value) : Act :=
  .change fun sight tree file =>
    let scope := scope.seeing sight
    let reported : Outcome (Value × File × Diagnostic) := do
      let reason ← scope.argument (item v 1)
      let place ← match item v 2 with
        | .str "tree" => pure tree
        | w => do pure (sight.reveal (← scope.argument w))
      return (reason, ← file.report severity reason place (← scope.argument (item v 3)))
    match reported with
    | .ok (reason, file, d) =>
      if severity == .error then
        { tree, file, records := [file.failure (sight.reveal reason)],
          fault := some (.diagnostic d) }
      else { tree, file }
    | .error fault => { tree, file, fault := some fault }

/-- The step that passes on a result, given by the places of its parts. -/
def nextPlaced (scope : Scope) (guarded : Bool) (v : Value) : Act :=
  if 3 < (items v).length then
    .next guarded (fun _ => .error (.wrongType "next() takes at most 2 arguments"))
      (fun _ => .ok .none)
  else .next guarded (scope.laterArgument (item v 1)) (scope.laterArgument (item v 2))

/-- A step that passes on a result given by the names of its parts. -/
def nextNamed (scope : Scope) (v : Value) : Act :=
  if (entriesOf v).all fun (k, _) => k == "error" || k == "new_tree" then
    .next false (scope.laterArgument (field v "error")) (scope.laterArgument (field v "new_tree"))
  else
    .next false (fun _ => .error (.wrongType "next() got an unexpected keyword argument"))
      (fun _ => .ok .none)

/-- What a tree shows of itself under a label; what is no tree shows nothing. -/
def traceOf (tree : Value) : Outcome (Option String) := do
  match tree with
  | .node _ => return some (← Tree.textOf tree)
  | _ => return none

mutual

/-- The plugin that a description of limited depth stands for. -/
def pluginWithin (scope : Scope) : Nat → Value → Outcome Plugin
  | 0, _ => .error tooDeep
  | _ + 1, .str name => .ok (.leaf (.named name))
  | n + 1, .list items => do return .many false (← items.mapM (pluginWithin scope n))
  | n + 1, v => do
    if let some batch := field? v "tuple" then
      return .many true (← (items batch).mapM (pluginWithin scope n))
    if let some name := field? v "builtin" then
      match Standard.plugins.find? fun m => m.attacher.name == text name with
      | some m => return .leaf (.attacher m.attacher)
      | none => throw (.raised "KeyError" [name])
    if let some attach := field? v "attach" then
      return .leaf (.attacher (attacherWithin scope n attach))
    if let some value := field? v "value" then return pluginOf (← scope.value value)
    if let some pair := field? v "pair" then
      let first ← pluginWithin scope n (item pair 0)
      return .many true [first, pluginOf (← scope.value (item pair 1))]
    if let some pair := field? v "pair_plugins" then
      return .many true (← (items pair).mapM (pluginWithin scope n))
    return .leaf (.other (← scope.value v))

/-- The attacher that a description stands for: it lets its call be seen, changes data, uses other
plugins, fails if it is to, and returns something. -/
def attacherWithin (scope : Scope) : Nat → Value → Attacher
  | 0, _ => .idle ""
  | n + 1, v =>
    let changes := (alterations scope v).map Preparation.alter
    let uses := (listField v "use").map fun p =>
      Preparation.use fun sight => pluginWithin (scope.seeing sight) n p
    let raises := (field? v "raise").toList.map fun f => Preparation.raise (faultOf f)
    let gives := (field? v "ret").toList.map fun r => Preparation.give (giftWithin scope n r)
    let name := textOr v "name" ""
    let program := .announce name :: changes ++ uses ++ raises ++ gives
    .mk name fun _ _ => program

/-- What an attacher returns. -/
def giftWithin (scope : Scope) : Nat → Value → Gift
  | 0, _ => .value fun _ => .error tooDeep
  | n + 1, v =>
    if let some t := field? v "transformer" then .transformer (transformerWithin scope n t)
    else if let some p := field? v "processor" then .processor (text p)
    else if let some c := field? v "clone" then
      .copy (alterations scope c) ((field? c "transformer").map (transformerWithin scope n))
    else if let some r := field? v "result" then
      let processor := (field? r "processor").map fun p =>
        match p with
        | .str id => Sum.inl id
        | p => Sum.inr (scope.later p)
      let transformer := (field? r "transformer").map fun t =>
        if has t "name" && !has t "$" then Sum.inl (transformerWithin scope n t)
        else Sum.inr (scope.later t)
      .result processor transformer
    else .value (scope.later (field v "value"))

/-- The transformer that a description stands for. -/
def transformerWithin (scope : Scope) : Nat → Value → Transformer
  | 0, _ => .idle ""
  | n + 1, v =>
    let acts := (listField v "acts").map (actWithin scope n)
    .mk (textOr v "name" "") (styleOf (textOr v "style" "plain")) fun _ _ => acts

/-- The step of a transformer that a list of its name and its arguments stands for. -/
def actWithin (scope : Scope) : Nat → Value → Act
  | 0, _ => .raise tooDeep
  | n + 1, v =>
    let first := item v 1
    let second := item v 2
    match text (item v 0) with
    | "trace" => .observe (text first) fun tree _ => traceOf tree
    | "suffix" => appendText first second
    | "append_child" => changeTree fun sight tree =>
      appendChild ((scope.seeing sight).tree first) tree
    | "set" => changeTree fun sight tree => do
      return .node (← setPart (text first) (← scope.laterArgument second sight) tree)
    | "message" => reportStep scope .warning v
    | "info" => reportStep scope .info v
    | "fail" => reportStep scope .error v
    | "file_data" => changeFile fun sight file => do
      let added ← scope.laterArgument second sight
      let key ← (← scope.laterArgument first sight).asKey
      return { file with data := Entries.insert key added file.data }
    | "file_contents" => changeFile fun sight file => do
      return { file with contents := ← scope.laterArgument first sight }
    | "file_path" => changeFile fun sight file => do
      file.setPath (← scope.laterArgument first sight)
    | "next" => nextPlaced scope false v
    | "next_kw" => nextNamed scope first
    | "try_next" => nextPlaced scope true v
    | "save_next" => .saveNext (text first)
    | "soon_next" => .laterNext false (scope.laterArgument first) (scope.laterArgument second)
    | "thread_next" => .laterNext true (scope.laterArgument first) (scope.laterArgument second)
    | "use" =>
      .use (text first) (fun sight => pluginWithin (scope.seeing sight) n second)
        (scope.laterArgument (item v 3))
    | "process" => .process (text first) (scope.later second)
    | "raise" => .raise (faultOf first)
    | "cancel" => .raise (.raised "CancelledError" [])
    | "return" => .give (scope.laterArgument first)
    | "return_message" => .giveReport (scope.laterArgument first)
    | "return_coro" => .giveAwaitable
    | _ => .sleep

end

namespace Scope

/-- The plugin that a description stands for. -/
def plugin (scope : Scope) (v : Value) : Outcome Plugin := pluginWithin scope (reach v) v

/-- The attacher that a description stands for. -/
def attacher (scope : Scope) (v : Value) : Attacher := attacherWithin scope (reach v) v

/-- The transformer that a description stands for. -/
def transformer (scope : Scope) (v : Value) : Transformer := transformerWithin scope (reach v) v

end Scope

/-- The type of options that has a name. -/
def parameterType? (name : String) : Option ParameterType :=
  [ParameterType.int, .str, .bool, .list, .float, .dict].find? fun t => t.name == name

/-- The validator of a name. -/
def validator? : String → Option (Value → Outcome Bool)
  | "bool" => some fun v => .ok v.truthy
  | "never" => some fun _ => .ok false
  | "positive" => some fun v => do
    if ← v.isAbove 0 then return true
    throw (.badValue "Must be positive")
  | "short" => some fun v => return (← v.iterate).length ≤ 3
  | "type_error" => some fun _ => .error (.noAttribute "no such attribute")
  | _ => none

/-- The value of a key, or a default if it is not there. -/
def Scope.valueOr (scope : Scope) (v : Value) (name : String) (default : Value) : Outcome Value :=
  match field? v name with
  | some w => scope.value w
  | none => .ok default

/-- The option that a description stands for. -/
def Scope.parameter (scope : Scope) (v : Value) : Outcome Parameter := do
  return {
    type := (parameterType? (textField v "type")).getD .str
    default := ← scope.value (field v "default")
    help := ← scope.valueOr v "help" (.str "")
    required := ← scope.valueOr v "required" (.bool false)
    choices := ← scope.value (field v "choices")
    validator := validator? (textField v "validator")
    elementType := parameterType? (textField v "element_type") }

/-- The plugin with a name that a description stands for. -/
def Scope.metadata (scope : Scope) (v : Value) : Outcome (Metadata Attacher) := do
  let parameters ← (entriesOf (field v "parameters")).mapM fun (k, p) =>
    return (k, ← scope.parameter p)
  let attacher ← match field? v "attacher", field? v "attach" with
    | some a, _ => do
      let given ← scope.value a
      match Attacher.ofValue? given with
      | some attacher => pure (Except.ok attacher)
      | none => pure (Except.error given.typeName)
    | none, some a => pure (Except.ok (scope.attacher a))
    | none, none => pure (Except.ok (Attacher.idle "null_attacher"))
  let name ← scope.value (field v "name")
  Metadata.check ⟨if name.truthy then text name else "", ← scope.valueOr v "description" (.str "d"),
    attacher, parameters, ← scope.valueOr v "tags" (.list []),
    ← scope.valueOr v "version" Metadata.firstVersion, ← scope.value (field v "author")⟩

/-- An option as JSON. -/
def writeParameter (p : Parameter) : Value :=
  let value := View.plain.value
  .record [("type", .str p.type.name), ("default", value p.default), ("help", value p.help),
    ("required", value p.required), ("choices", value p.choices),
    ("has_validator", .bool p.validator.isSome),
    ("element_type", .ofString? (p.elementType.map (·.name)))]

/-- A plugin with a name as JSON. -/
def writeMetadata (m : Metadata Attacher) : Value :=
  let value := View.plain.value
  .record [("name", .str m.name), ("description", value m.description),
    ("attacher", .str m.attacher.name), ("tags", value m.tags),
    ("version", value m.version), ("author", value m.author),
    ("parameters", .record (m.parameters.map fun (k, p) => (k, writeParameter p)))]

end TextPipeline.Script
