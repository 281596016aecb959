import TextPipeline.Logging.Record
import TextPipeline.Value.Data

/-! Settings: records with fixed fields and defaults, made from the fields that are given. -/

namespace TextPipeline.Settings

/-- A field of settings. A field without default has to be given. -/
structure Field where
  name : String
  default : Option Value
  help : Option String
  importance : Option String

/-- A field with a description. -/
def described (name : String) (default : Value) (help importance : String) : Field :=
  ⟨name, some default, some help, some importance⟩

/-- Whether positions are recorded. -/
def positionsField : Field :=
  described "positions" (.bool true) "Record source positions on parsed nodes" "core"

/-- Whether output ends with a line feed. -/
def finalNewlineField : Field :=
  described "ensure_final_newline" (.bool false) "End non-empty output with a newline" "core"

/-- The indent of JSON output by default. -/
def defaultIndent : Value := .int 2

/-- The fields of a kind of settings, in order. -/
def fields : SettingsKind → List Field
  | .base => []
  | .processor =>
    [⟨"name", none, none, none⟩, ⟨"parser", some .none, none, none⟩,
      ⟨"compiler", some .none, none, none⟩, ⟨"data", some (.dict []), none, none⟩]
  | .parser | .jsonParser => [positionsField]
  | .compiler => [finalNewlineField]
  | .plainParser =>
    [positionsField, described "paragraphs" (.bool true)
      "Split input on blank lines into paragraph nodes" "core"]
  | .plainCompiler =>
    [finalNewlineField, described "skip_types" (.tuple [])
      "Literal node types omitted from the output" "advanced"]
  | .jsonCompiler =>
    [finalNewlineField,
      described "indent" defaultIndent "JSON indentation (None for compact output)" "core",
      described "include_positions" (.bool true) "Include node positions in the output"
        "advanced"]

/-- Whether settings of the first kind are also settings of the second. -/
def extends_ (kind wanted : SettingsKind) : Bool :=
  kind == wanted ||
    match wanted with
    | .base => true
    | .parser => kind == .plainParser || kind == .jsonParser
    | .compiler => kind == .plainCompiler || kind == .jsonCompiler
    | _ => false

/-- The value of a field, or `none` if there is no such field. -/
def get (given : List (String × Value)) (name : String) : Value :=
  Value.ofOption (given.lookup name)

/-- Fails if an endpoint of a processor cannot be called. -/
def checkEndpoint (label : String) (endpoint : Value) : Outcome Unit :=
  if endpoint.isNone || endpoint.isCallable then .ok ()
  else
    .error (.violation label ("Processor " ++ label ++ " must be callable, got " ++
      endpoint.typeName))

/-- The name of a processor that a value is, if it is one. -/
def checkName : Value → Outcome { name : String // name ≠ "" }
  | .str s => if h : s = "" then .error badName else .ok ⟨s, h⟩
  | _ => .error badName
where
  badName : Fault := .violation "name" "Processor name must be a non-empty string"

/-- The conditions on the fields of a kind of settings. -/
def check (kind : SettingsKind) (given : List (String × Value)) : Outcome Unit :=
  match kind with
  | .processor => do
    let _ ← checkName (get given "name")
    checkEndpoint "parser" (get given "parser")
    checkEndpoint "compiler" (get given "compiler")
    (get given "data").validateData "data"
  | .jsonCompiler => do
    let indent := get given "indent"
    unless indent.isNone do
      if ← indent.isBelow 0 then
        throw (.badValue ("indent must be non-negative, got " ++ (← indent.render)))
  | _ => .ok ()

/-- The value of a field, given or by default. -/
def fill (kind : SettingsKind) (given : List (String × Value)) (field : Field) :
    Outcome (String × Value) :=
  match given.lookup field.name, field.default with
  | some v, _ => .ok (field.name, v)
  | none, some v => .ok (field.name, v)
  | none, none =>
    .error (.wrongType (kind.name ++ ".__init__() missing 1 required positional argument: '" ++
      field.name ++ "'"))

/-- Settings of a kind from the given fields. -/
def make (kind : SettingsKind) (given : List (String × Value)) : Outcome Value := do
  let known := (fields kind).map (·.name)
  match given.find? fun e => !known.contains e.1 with
  | some e =>
    throw (.wrongType (kind.name ++ ".__init__() got an unexpected keyword argument '" ++ e.1 ++
      "'"))
  | none => pure ()
  let filled ← (fields kind).mapM (fill kind given)
  check kind filled
  return .settings kind filled

/-- Settings with some fields changed. -/
def update (kind : SettingsKind) (old changed : List (String × Value)) : Outcome Value :=
  let kept := old.filter fun e => (changed.lookup e.1).isNone
  make kind (changed ++ kept)

/-- A field of settings. -/
def field (settings : Value) (name : String) : Value :=
  match settings with
  | .settings _ given => get given name
  | _ => .none

/-- Output with a line feed at its end, if the settings ask for one and it has none; empty output
stays empty. -/
def finalize (settings : Value) (text : String) : String :=
  if (field settings "ensure_final_newline").truthy && text != "" &&
      text.toList.getLast? != some '\n' then text ++ "\n"
  else text

/-- Settings of the kind that a component expects, made from what it is given: nothing, such
settings, a mapping of which other fields are ignored, or settings of the counterpart kinds, which
stand for the defaults. -/
def coerce (given : Value) (kind : SettingsKind) (component : String)
    (counterpart : List SettingsKind) : Logged Value := do
  match given with
  | .none => make kind []
  | .settings k fs =>
    if extends_ k kind then return given
    else if counterpart.any (extends_ k) then make kind []
    else throw (.invalidOptions component kind.name (Value.settings k fs).typeName)
  | .mapping _ entries =>
    let known := (fields kind).map (·.name)
    let ignored := (entries.map (·.1)).filter fun k => !k.among (known.map .str)
    unless ignored.isEmpty do
      Logged.log .debug "syntaxflow.options.base"
        (component ++ " ignoring settings it does not define: " ++ (← joinSorted ignored))
    let own := known.filterMap fun name => (Entries.get? entries name).map fun v => (name, v)
    match make kind own with
    | .ok v => return v
    | .error f =>
      if f.isKind "TypeError" || f.isKind "ValueError" then
        throw (.validation (.str ("Invalid settings for " ++ component ++ ": " ++
          (← Logged.ofOutcome f.render))) (some "settings") (some f))
      else throw f
  | v => throw (.invalidOptions component kind.name v.typeName)

end TextPipeline.Settings
