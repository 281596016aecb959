import TextPipeline.Plugin.Metadata

/-! The catalog of plugins that can be attached by name. The standard plugins and those that other
packages publish are added when the catalog is first looked at. -/

namespace TextPipeline.Plugin

/-- A plugin that another package publishes: what loading it gives. -/
structure Published (α : Type) where
  name : String
  /-- A plugin, something else, or a fault. -/
  loaded : Outcome (Option (Metadata α))

/-- What other packages publish, unless looking for it fails. -/
abbrev Surroundings (α : Type) := Outcome (List (Published α))

/-- The plugins by name, in the order in which the names were first registered. -/
structure Catalog (α : Type) where
  plugins : List (String × Metadata α)
  /-- Whether the standard and the published plugins have been added. -/
  initialized : Bool

/-- A computation with a catalog, which logs and may fail. What it did before it failed stays. -/
abbrev Cataloguing (α : Type) := ExceptT Fault (StateT (Catalog α) (StateM (List LogRecord)))

namespace Catalog

variable {α : Type}

/-- The logger of this part. -/
def logger : String := "syntaxflow.transforms.catalog"

/-- Logs one record. -/
def log (level : Level) (text : String) : Cataloguing α Unit :=
  ExceptT.lift (StateT.lift (modify (· ++ [⟨level, logger, text⟩])))

def empty : Catalog α := ⟨[], false⟩

/-- The plugin of a name. -/
def find? (c : Catalog α) (name : String) : Option (Metadata α) := c.plugins.lookup name

/-- Sets the plugin of a name, which keeps its place if it had one. -/
def insert (m : Metadata α) : List (String × Metadata α) → List (String × Metadata α)
  | [] => [(m.name, m)]
  | (name, old) :: rest =>
    if name == m.name then (name, m) :: rest else (name, old) :: insert m rest

/-- Adds a plugin; one of the same name is replaced. -/
def register (m : Metadata α) : Cataloguing α Unit := do
  if ((← get).find? m.name).isSome then
    log .warning ("Plugin '" ++ m.name ++ "' already registered, overwriting")
  modify fun c => { c with plugins := insert m c.plugins }
  log .debug ("Registered plugin: " ++ m.name)

/-- Adds the plugins that other packages publish, and counts them. What does not load or is no
plugin is passed over, unless what its fault says cannot be read: then nothing after it is looked at. -/
def discoverAll : List (Published α) → Nat → Cataloguing α (Nat × Option Fault)
  | [], count => return (count, none)
  | p :: rest, count => do
    match p.loaded with
    | .ok (some m) =>
      register m
      log .debug ("Discovered plugin from entry point: " ++ p.name)
      discoverAll rest (count + 1)
    | .ok none =>
      log .warning ("Entry point '" ++ p.name ++ "' did not return PluginMetadata, skipping")
      discoverAll rest count
    | .error f =>
      unless f.isError do throw f
      match f.render with
      | .ok said =>
        log .warning ("Failed to load plugin entry point '" ++ p.name ++ "': " ++ said)
        discoverAll rest count
      | .error unread => return (count, some unread)

/-- Logs the fault that ended the search for plugins, if there was one. -/
def tellEnded : Option Fault → Cataloguing α Unit
  | none => pure ()
  | some f => do
    unless f.isError do throw f
    log .warning ("Failed to discover plugins: " ++ (← f.render))

/-- Adds the plugins that other packages publish, and counts them. -/
def discover (surroundings : Surroundings α) : Cataloguing α Nat := do
  let found ← match surroundings with
    | .ok published => discoverAll published 0
    | .error f => pure (0, some f)
  tellEnded found.2
  log .debug ("Discovered " ++ toString found.1 ++ " plugin(s) from entry points")
  return found.1

/-- Adds the standard plugins whose names are free. -/
def addStandard (standard : List (Metadata α)) (c : Catalog α) : Catalog α :=
  let add (plugins : List (String × Metadata α)) (m : Metadata α) : List (String × Metadata α) :=
    if (plugins.lookup m.name).isSome then plugins else plugins ++ [(m.name, m)]
  { c with plugins := standard.foldl add c.plugins }

/-- Adds the standard and the published plugins, unless that has been done. -/
def fillOnce (standard : List (Metadata α)) (surroundings : Surroundings α) :
    Cataloguing α Unit := do
  if (← get).initialized then return
  modify fun c => addStandard standard { c with initialized := true }
  let _ ← discover surroundings

/-- Removes a plugin, and says whether there was one. -/
def unregister (standard : List (Metadata α)) (surroundings : Surroundings α) (name : String) :
    Cataloguing α Bool := do
  fillOnce standard surroundings
  if ((← get).find? name).isSome then
    modify fun c => { c with plugins := c.plugins.filter fun e => e.1 != name }
    log .debug ("Unregistered plugin: " ++ name)
    return true
  else return false

/-- The names of all plugins in order. -/
def names (c : Catalog α) : List String := sortTexts (c.plugins.map (·.1))

/-- The fault of a name that no plugin has. -/
def unknown (c : Catalog α) (name : String) : Fault :=
  let available := if c.plugins.isEmpty then "none" else commaSeparated c.names
  .raised "KeyError" [.str ("Plugin '" ++ name ++ "' not registered (available: " ++ available ++
    ")")]

/-- The plugin of a name. -/
def lookup (standard : List (Metadata α)) (surroundings : Surroundings α) (name : String) :
    Cataloguing α (Metadata α) := do
  fillOnce standard surroundings
  let c ← get
  match c.find? name with
  | some m => return m
  | none => throw (c.unknown name)

/-- Whether there is a plugin of a name. -/
def has (standard : List (Metadata α)) (surroundings : Surroundings α) (name : String) :
    Cataloguing α Bool := do
  fillOnce standard surroundings
  return ((← get).find? name).isSome

/-- Whether a plugin has one of the given tags. -/
def hasTag (tags : Value) (m : Metadata α) : Outcome Bool := do
  (← tags.iterate).anyM fun tag => tag.isIn m.tags

/-- The names of all plugins in order, or of those that have one of the given tags. -/
def list (standard : List (Metadata α)) (surroundings : Surroundings α) (tags : Value) :
    Cataloguing α (List String) := do
  fillOnce standard surroundings
  let c ← get
  if tags.isNone then return c.names
  let tagged ← (c.plugins.filterM fun e => hasTag tags e.2 : Outcome (List (String × Metadata α)))
  return sortTexts (tagged.map (·.1))

/-- Forgets all plugins; the standard ones come back when the catalog is looked at again. -/
def clear : Cataloguing α Unit := do
  set (empty : Catalog α)
  log .debug "Cleared plugin catalog"

end Catalog

end TextPipeline.Plugin
