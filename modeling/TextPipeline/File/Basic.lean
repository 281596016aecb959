import TextPipeline.File.Diagnostic
import TextPipeline.Logging.Record
import TextPipeline.Text.Path
import TextPipeline.Text.Utf8

/-! Files: a document with its paths, the data and diagnostics that were gathered about it, and the
results of every processor that worked on it. -/

namespace TextPipeline

open TextPipeline.Text

/-- A document on its way through a pipeline. -/
structure File where
  contents : Value
  data : Entries
  messages : List Diagnostic
  /-- Every path the file has had, oldest first. -/
  history : List Value
  /-- The results of processors, under their names. -/
  namespaces : List (Value × Entries)

namespace File

/-- A file without anything. -/
def empty : File := ⟨.none, [], [], [], []⟩

/-- The path that the file has now. -/
def path (f : File) : Value :=
  f.history.getLast?.getD .none

/-- The path of the file as it is shown. -/
def label (f : File) : String :=
  if f.path.truthy then f.path.text else "<input>"

/-- Gives the file a path, which is remembered if it differs from the present one. -/
def setPath (f : File) (path : Value) : Outcome File :=
  if !path.truthy then .error (.violation "path" "VFile path cannot be empty")
  else if path.equals f.path then .ok f
  else .ok { f with history := f.history ++ [path] }

/-- A file from its contents, its path and its data, each of which may be absent. -/
def make (contents path data : Value) : Outcome File := do
  let data ← if data.truthy then data.toEntries else pure []
  let f : File := { File.empty with contents, data }
  if path.isNone then return f else f.setPath path

/-- A file from its fields by name. -/
def ofFields (fields : Entries) : Outcome File := do
  let known := ["contents", "path", "data"].map Value.str
  if fields.any fun e => !e.1.among known then
    throw (.wrongType "got an unexpected keyword argument")
  let field (name : String) : Value := Value.ofOption (fields.get? name)
  make (field "contents") (field "path") (field "data")

/-- The file that a value stands for: texts and octets are contents, and a mapping holds fields. -/
def ofValue (v : Value) : Outcome File :=
  match v with
  | .none | .str _ | .bytes _ => .ok { File.empty with contents := v }
  | .mapping _ entries => do
    let known := ["contents", "path", "data"].map Value.str
    let unknown := (entries.map (·.1)).filter fun k => !k.among known
    unless unknown.isEmpty do
      throw (.violation "value" ("Unknown VFile fields: " ++ (← joinSorted unknown)))
    ofFields entries
  | v => .error (.violation "value" ("Cannot create a VFile from " ++ v.typeName))

/-- The text of the file; octets are read as UTF-8. -/
def text (f : File) : Outcome String := f.contents.contentsText

/-- The file as it reads now. -/
def shown (f : File) : Value := .document f.path f.contents f.messages.length

/-- Whether a fatal diagnostic was recorded. -/
def hasFailed (f : File) : Bool :=
  f.messages.any fun d => d.fatal.truthy

/-- A short description of the file. -/
def repr (f : File) : Outcome String := f.shown.inspect

/-- How fatal a diagnostic of each severity is. -/
def fatality : Severity → Value
  | .error => .bool true
  | .warning => .bool false
  | .info => .none

/-- Records a diagnostic. -/
def report (f : File) (severity : Severity) (reason place origin : Value) :
    Outcome (File × Diagnostic) := do
  let d ← DiagnosticOf.make reason place origin (fatality severity) f.path
  return ({ f with messages := f.messages ++ [d] }, d)

/-- The logger of files. -/
def logger : String := "syntaxflow.vfile"

/-- What is logged when an error was reported. -/
def failure (f : File) (reason : Value) : LogRecord :=
  ⟨.debug, logger, "Fatal message on " ++ f.label ++ ": " ++ reason.text⟩

/-- The results stored under a name, none if nothing was stored. -/
def results (f : File) (name : Value) : Entries :=
  ((f.namespaces.find? fun e => e.1.equals name).map (·.2)).getD []

/-- Whether there is a namespace of a name. -/
def hasNamespace (f : File) (name : Value) : Bool :=
  f.namespaces.any fun e => e.1.equals name

/-- Makes sure that a namespace of the given name exists. -/
def openNamespace (f : File) (name : Value) : Outcome File := do
  unless name.truthy do throw (.violation "name" "Namespace name cannot be empty")
  let name ← name.asKey
  if f.hasNamespace name then return f
  else return { f with namespaces := f.namespaces ++ [(name, [])] }

/-- Stores a result in a namespace, which is made if it does not exist. -/
def store (f : File) (name key value : Value) : Outcome File := do
  let f ← f.openNamespace name
  let key ← key.asKey
  let put (e : Value × Entries) : Value × Entries :=
    if e.1.equals name then (e.1, Entries.insert key value e.2) else e
  return { f with namespaces := f.namespaces.map put }

/-- The names that a path gives to a file: the last component, with and without extension, the
extension, and the directory. -/
structure Names where
  base : String
  stem : String
  extension : String
  directory : String

/-- The names of the file, if it has a path. -/
def names (f : File) : Outcome (Option Names) :=
  if !f.path.truthy then .ok none
  else
    match f.path with
    | .str s =>
      let p := Path.ofString s
      .ok (some ⟨p.name, p.stem, p.extension, p.parent.toString⟩)
    | v =>
      .error (.wrongType ("expected str, bytes or os.PathLike object, not " ++ v.typeName))

end File

end TextPipeline
