import TextPipeline.Pipeline.Program
import TextPipeline.Plugin.Metadata
import TextPipeline.Text.Replace
import TextPipeline.Tree.Literal

/-! The plugin that replaces text in the text literals of a tree. -/

namespace TextPipeline.Standard

open TextPipeline.Pipeline TextPipeline.Plugin

/-- The value of a literal with `find` replaced by `new`. -/
def replaceValue (find new : String) (n : Node) : Outcome Value :=
  match n.value with
  | .str s => .ok (.str (Text.replaceString find new s))
  | v =>
    if v.truthy then
      .error (.noAttribute ("'" ++ v.typeName ++ "' object has no attribute 'replace'"))
    else .ok (.str "")

/-- The options of the plugin and what is known about it. -/
def replaceTextAbout : Metadata Unit where
  name := "text-replacer"
  description := .str "Find and replace text in text nodes"
  attacher := ()
  parameters := [
    ("find", {
      type := .str
      required := .bool true
      validator := some fun v => .ok v.truthy
      help := .str "Text to find" }),
    ("replace", { type := .str, required := .bool true, help := .str "Replacement text" })]
  tags := .list [.str "text", .str "replace"]
  version := Metadata.firstVersion
  author := .str "syntaxflow"

/-- The text of an option. -/
def textOption (options : Entries) (name : String) : String :=
  match options.get? name with
  | some (.str s) => s
  | _ => ""

/-- What is logged after text was replaced in some literals. -/
def replacedRecord (count : Nat) : LogRecord :=
  ⟨.debug, "syntaxflow.plugins.text_replacer",
    "Applied text replacement to " ++ toString count ++ " text node(s)"⟩

/-- What the transformer does: it replaces text in the text literals of a tree. -/
def replaceTextActs (find new : String) : List Act :=
  [.mapLiterals (some (.str "text")) (replaceValue find new) fun count => [replacedRecord count]]

/-- The transformer that the options ask for. -/
def replaceTextFor (options : Value) : Logged Transformer := do
  let resolved ← replaceTextAbout.resolveOptions options
  let find := textOption resolved "find"
  let new := textOption resolved "replace"
  return .mk "text_replacer.<locals>.replace_text" .plain fun _ _ =>
    replaceTextActs find new

/-- The plugin. -/
def replaceTextPlugin : Metadata Attacher :=
  replaceTextAbout.attachedBy (.mk "text_replacer" fun options _ => Attacher.steps (replaceTextFor options))

end TextPipeline.Standard
