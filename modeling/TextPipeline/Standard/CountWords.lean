import TextPipeline.Pipeline.Program
import TextPipeline.Plugin.Metadata
import TextPipeline.Tree.Literal

/-! The plugin that counts the words of a document. -/

namespace TextPipeline.Standard

open TextPipeline.Pipeline TextPipeline.Plugin

/-- Stores the number of words of a tree in the data of the file. -/
def countWords (field : Value) (sight : Sight) (tree : Value) (file : File) : Change :=
  match Tree.countWords (sight.reveal tree) with
  | .ok n => { tree, file := { file with data := Entries.insert field (.nat n) file.data } }
  | .error f => { tree, file, fault := some f }

/-- The options of the plugin and what is known about it. -/
def countWordsAbout : Metadata Unit where
  name := "word-count"
  description := .str "Store the document word count in file data"
  attacher := ()
  parameters := [("field", {
    type := .str
    default := .str "word_count"
    validator := some fun v => .ok v.truthy
    help := .str "file.data key for the count" })]
  tags := .list [.str "metadata", .str "statistics"]
  version := Metadata.firstVersion
  author := .str "syntaxflow"

/-- The transformer that the options ask for. -/
def countWordsFor (options : Value) : Logged Transformer := do
  let resolved ← countWordsAbout.resolveOptions options
  let field := Value.ofOption (resolved.get? "field")
  return .mk "word_count.<locals>.count_document_words" .plain fun _ _ =>
    [.change (countWords field)]

/-- The plugin. -/
def countWordsPlugin : Metadata Attacher :=
  countWordsAbout.attachedBy (.mk "word_count" fun options _ => Attacher.steps (countWordsFor options))

end TextPipeline.Standard
