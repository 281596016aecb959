import TextPipeline.Tree.Basic

/-! Building nodes from few words: a type, then properties, then a text or children. -/

namespace TextPipeline.Tree

/-- The data and position that a mapping of properties gives. -/
def properties (entries : Entries) : Outcome (Value × Value) := do
  let unknown := (entries.map (·.1)).filter fun k => !k.among [.str "data", .str "position"]
  unless unknown.isEmpty do
    throw (.violation "props" ("Unknown node properties: " ++ (← joinSorted unknown)))
  let data ← match Entries.get? entries "data" with
    | none | some .none => pure Value.none
    | some v => do pure (Value.dict (← v.toEntries))
  return (data, Value.ofOption (Entries.get? entries "position"))

/-- Builds a node. Properties may be left out, and then `props` is the content. A text makes a
literal and any other collection a parent. -/
def build (type props content : Value) : Outcome Node := do
  let (entries, content) := match props with
    | .dict entries => (entries, content)
    | .none => ([], content)
    | v => ([], v)
  let (data, position) ← properties entries
  match content with
  | .none => NodeOf.make type .none .none data position
  | .str s => NodeOf.make type .none (.str s) data position
  | v => do NodeOf.make type (.list (← v.iterate)) .none data position

end TextPipeline.Tree
