import TextPipeline.Json.Printer
import TextPipeline.Json.Reader
import TextPipeline.Tree.Record

/-! Trees as JSON text. -/

namespace TextPipeline.Tree

/-- The JSON text of a tree. -/
def toJson (indent tree : Value) : Outcome String := do
  let record ← toRecord tree
  Json.toText (← Json.Layout.ofValue indent) record

/-- The tree that a JSON text describes. -/
def ofJson (text : String) : Outcome Value :=
  match Json.ofString text with
  | .ok raw => ofRecord "tree" raw
  | .error f => do
    if f.isKind "JSONDecodeError" then
      throw (.parsing (.str ("Invalid JSON tree: " ++ (← f.render))) (some "json") (some f))
    else throw f

end TextPipeline.Tree
