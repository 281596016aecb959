import TextPipeline.Logging.Record
import TextPipeline.Plugin.Parameter
import TextPipeline.Value.Copy
import TextPipeline.Value.Number

/-! What a plugin says about itself: its name, what attaches it, and the options that it takes. -/

namespace TextPipeline.Plugin

/-- A plugin with a name; `α` is what attaches it. -/
structure Metadata (α : Type) where
  name : String
  description : Value
  attacher : α
  parameters : List (String × Parameter)
  /-- What the plugin is for, in words by which it can be found. -/
  tags : Value
  version : Value
  author : Value

namespace Metadata

variable {α : Type}

/-- The same plugin with another attacher. -/
def attachedBy {β : Type} (m : Metadata β) (attacher : α) : Metadata α :=
  ⟨m.name, m.description, attacher, m.parameters, m.tags, m.version, m.author⟩

/-- The version of plugins that do not give one. -/
def firstVersion : Value := .str "1.0.0"

/-- Fails if a description of a plugin has no name, or nothing that could attach it; then the type
of what it has instead is given. -/
def check (m : Metadata (Except String α)) : Outcome (Metadata α) :=
  if m.name == "" then .error (.violation "name" "Plugin name cannot be empty")
  else
    match m.attacher with
    | .error type =>
      .error (.violation "attacher" ("Plugin '" ++ m.name ++ "' attacher must be callable, got " ++
        type))
    | .ok attacher => .ok { m with attacher := attacher }

/-- The fault of a value that an option cannot have. -/
def invalidOption (plugin option : String) (f : Fault) : Outcome Fault := do
  return .validation (.str ("Invalid option '" ++ option ++ "' for plugin '" ++ plugin ++ "': " ++
    (← f.render))) (some option) (some f)

/-- The fault of an option that must be given. -/
def missingOption (plugin option : String) : Fault :=
  .violation option ("Required option '" ++ option ++ "' not provided for plugin '" ++ plugin ++ "'")

/-- The value of one option: the given one if it is valid, or else a copy of the default. -/
def resolveOne (plugin : String) (given : Entries) (option : String) (p : Parameter) :
    Outcome (Option Value) :=
  match given.get? option with
  | some v =>
    match p.validate v with
    | .ok v => .ok (some v)
    | .error f => do
      if f.isKind "ValueError" then throw (← invalidOption plugin option f) else throw f
  | none =>
    if p.required.truthy then .error (missingOption plugin option)
    else if p.default.isNone then .ok none
    else do return some (← p.copied)

/-- The options with the values of those that are declared. -/
def resolveAll (plugin : String) (given : Entries) :
    List (String × Parameter) → Entries → Outcome Entries
  | [], resolved => .ok resolved
  | (option, p) :: rest, resolved => do
    match ← resolveOne plugin given option p with
    | some v => resolveAll plugin given rest (resolved.put option v)
    | none => resolveAll plugin given rest resolved

/-- The logger of this part. -/
def logger : String := "syntaxflow.transforms.metadata"

/-- The options to hand to the attacher: the declared ones are checked in order and filled in, and
the others are kept as they are. -/
def resolveOptions (m : Metadata α) (options : Value) : Logged Entries := do
  let given ← match options with
    | .none => pure []
    | .mapping _ entries => pure entries
    | v =>
      throw (.violation "options" ("Options for plugin '" ++ m.name ++ "' must be a mapping, got " ++
        v.typeName))
  let resolved ← resolveAll m.name given m.parameters given
  let declared := m.parameters.map fun e => Value.str e.1
  let unknown := (given.map (·.1)).filter fun k => !k.among declared
  unless unknown.isEmpty || m.parameters.isEmpty do
    Logged.log .debug logger ("Plugin '" ++ m.name ++ "' received undeclared option(s): " ++
      (← joinSorted unknown))
  return resolved

end Metadata

end TextPipeline.Plugin
