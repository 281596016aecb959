import TextPipeline.Pipeline.Program
import TextPipeline.Plugin.Metadata
import TextPipeline.Tree.Rebuild

/-! The plugin that removes the nodes of given types from a tree. -/

namespace TextPipeline.Standard

open TextPipeline.Pipeline TextPipeline.Plugin

/-- The options of the plugin and what is known about it. -/
def removeNodesAbout : Metadata Unit where
  name := "remove-nodes"
  description := .str "Remove nodes of specified types from the tree"
  attacher := ()
  parameters := [("types", {
    type := .list
    elementType := some .str
    required := .bool true
    help := .str "Node types to remove (e.g., 'whitespace', 'yaml')" })]
  tags := .list [.str "cleanup"]
  version := Metadata.firstVersion
  author := .str "syntaxflow"

/-- The elements of a list without repetitions. -/
def distinct (values : List Value) : List Value :=
  (Entries.ofList (values.map fun v => (v, .none))).map (·.1)

/-- What the transformer does. -/
def removeNodesActs (types : List Value) (tree : Value) : List Act :=
  match joinSorted types with
  | .error f => [.raise f]
  | .ok listed =>
    [.log ⟨.debug, "syntaxflow.plugins.remove_nodes", "Removing nodes of type(s): " ++ listed⟩,
      .give fun _ => Tree.removeTypes types tree]

/-- The transformer that the options ask for. -/
def removeNodesFor (options : Value) : Logged Transformer := do
  let resolved ← removeNodesAbout.resolveOptions options
  let types := match resolved.get? "types" with
    | some (.list types) => distinct types
    | _ => []
  return .mk "remove_nodes.<locals>.remove_matching_nodes" .plain fun tree _ =>
    removeNodesActs types tree

/-- The plugin. -/
def removeNodesPlugin : Metadata Attacher :=
  removeNodesAbout.attachedBy (.mk "remove_nodes" fun options _ => Attacher.steps (removeNodesFor options))

end TextPipeline.Standard
