import TextPipeline.Plugin.Catalog
import TextPipeline.Script.Plugin

/-! Scripts that look at a catalog of plugins and change it. -/

namespace TextPipeline.Script

open TextPipeline.Pipeline TextPipeline.Plugin

/-- What another package publishes. -/
def Scope.published (scope : Scope) (v : Value) : Published Attacher :=
  let loaded : Outcome (Option (Metadata Attacher)) :=
    if let some f := field? v "raise" then .error (faultOf f)
    else if let some m := field? v "metadata" then (scope.metadata m).map some
    else .ok none
  ⟨textField v "name", loaded⟩

/-- What other packages publish. -/
def Scope.surroundings (scope : Scope) (v : Value) : Surroundings Attacher :=
  match field? v "raise" with
  | some f => .error (faultOf f)
  | none => .ok ((items v).map scope.published)

/-- Carries out one step with a catalog. -/
def catalogStep (scope : Scope) (surroundings : Surroundings Attacher) (step : Value) :
    Cataloguing Attacher Value := do
  let standard := Standard.plugins
  let name := textField step "name"
  match textField step "do" with
  | "register" =>
    Catalog.register (← scope.metadata (field step "metadata"))
    return .none
  | "get" => return writeMetadata (← Catalog.lookup standard surroundings name)
  | "attacher" => return .str (← Catalog.lookup standard surroundings name).attacher.name
  | "unregister" => return .bool (← Catalog.unregister standard surroundings name)
  | "has" => return .bool (← Catalog.has standard surroundings name)
  | "list" =>
    let tags ← scope.value (field step "tags")
    return .list ((← Catalog.list standard surroundings tags).map .str)
  | "discover" =>
    return .nat (← Catalog.discover (scope.surroundings (field step "entry_points")))
  | "singleton" => return .bool true
  | "clear" =>
    Catalog.clear
    return .none
  | _ => return .none

/-- The answers to the steps of a script, each with its log records if they are asked for. -/
def replayCatalog (scope : Scope) (script : Value) : Value :=
  let surroundings := scope.surroundings (field script "entry_points")
  let step (state : Catalog Attacher × List Value) (step : Value) :
      Catalog Attacher × List Value :=
    let run := (catalogStep scope surroundings step).run.run state.1
    let ((result, catalog), records) := run.run []
    let logs := if has script "logs" then [("logs", Value.list (wanted script records))] else []
    (catalog, state.2 ++ [outcome result logs])
  .list ((listField script "steps").foldl step (Catalog.empty, [])).2

end TextPipeline.Script
