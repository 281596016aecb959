import TextPipeline.Pipeline.Stage
import TextPipeline.Plugin.Attach
import TextPipeline.Plugin.Batch
import TextPipeline.Value.Copy

/-! Attaching plugins to processors. An attachment that fails leaves the data of the processor as
they were. -/

namespace TextPipeline.Pipeline

open TextPipeline.Plugin
open TextPipeline.Pipeline.Action

/-- The entries of the data that a processor is given, if it is given any. -/
def givenEntries (data : Value) : Action Entries := do
  let data ← reveal data
  if data.truthy then ofOutcome data.toEntries else return []

/-- A processor with these settings. -/
def newProcessor (name parser compiler data : Value) : Action Nat := do
  let entries ← givenEntries data
  let settings ← Settings.make .processor
    [("name", name), ("parser", parser), ("compiler", compiler), ("data", .dict entries)]
  let ⟨name, named⟩ ← ofOutcome (Settings.checkName name)
  let data ← ofOutcome (Settings.field settings "data").duplicate
  addProcessor ⟨name, named, Settings.field settings "parser", Settings.field settings "compiler",
    data, Registry.empty⟩

/-- A copy of a processor, which from then on has data and plugins of its own. -/
def cloneProcessor (id : Nat) : Action Nat := do
  let p ← processor id
  let entries ← ofOutcome (← reveal p.data).toEntries
  let data ← ofOutcome (Value.dict entries).duplicate
  let copy ← newProcessor (.str p.name) p.parser p.compiler data
  setProcessor copy { ← processor copy with registry := p.registry }
  return copy

/-- The processor of a name. -/
def namedProcessor (name : String) : Action (Slot Nat) := do
  match ← named name with
  | .handle (.processor id) => return .proper id
  | v => return .stray v

/-- The processor that an explicit result names or holds. -/
def resultProcessor : Option (Sum String Argument) → Action (Option (Slot Nat))
  | none => return none
  | some (.inl name) => do
    match ← namedProcessor name with
    | .stray .none => return none
    | p => return some p
  | some (.inr v) => do
    match ← argument v with
    | .none => return none
    | .handle (.processor q) => return some (.proper q)
    | v => return some (.stray v)

/-- The transformer that an explicit result holds. -/
def resultTransformer : Option (Sum Transformer Argument) → Action (Option (Slot Transformer))
  | none => return none
  | some (.inl t) => return some (.proper t)
  | some (.inr v) => do
    match ← argument v with
    | .none => return none
    | v => return some (((Transformer.ofValue? v).map .proper).getD (.stray v))

/-- What an attacher gives, made in the world. -/
def Gift.make (id : Nat) : Gift → Action (Returned Nat Transformer)
  | .value v => do
    match ← argument v with
    | .none => return .nothing
    | .handle (.processor p) => return .processor p
    | v => return ((Transformer.ofValue? v).map .transformer).getD (.other v)
  | .transformer t => return .transformer t
  | .processor name => do
    match ← namedProcessor name with
    | .proper p => return .processor p
    | .stray .none => return .nothing
    | .stray v => return ((Transformer.ofValue? v).map .transformer).getD (.other v)
  | .copy changes t => do
    let copy ← cloneProcessor id
    changes.forM (alter copy)
    match t with
    | none => return .processor copy
    | some t => return .result (some (.proper copy)) (some (.proper t))
  | .result p t => return .result (← resultProcessor p) (← resultTransformer t)

/-- Carries out the steps of an attacher for a processor. -/
def prepare (host : Host) (id : Nat) (options : Value) :
    List Preparation → Action (Returned Nat Transformer)
  | [] => return .nothing
  | .announce label :: rest => do
    tell (.attached label (← reveal options) ((← get).namesOf (.processor id)))
    prepare host id options rest
  | .log record :: rest => do
    tell (.log record)
    prepare host id options rest
  | .alter a :: rest => do
    alter id a
    prepare host id options rest
  | .use plugin :: rest => do
    let _ ← host.use (.handle (.processor id)) (← ofOutcome (plugin (← get).sight)) .none
    prepare host id options rest
  | .raise fault :: _ => throw fault
  | .give g :: _ => g.make id

/-- Puts the data of a processor back to what they were. Data that are no mapping can be emptied at
best: lists and sets are, and only sets then take anything, the keys. -/
def restoreData (id : Nat) (entries : Entries) : Action Unit := do
  match ← content (← processor id).data with
  | .dict _ => setData id (.dict entries)
  | .set _ => setData id (.set (entries.map (·.1)))
  | .list items =>
    setData id (.list [])
    throw (.noAttribute ("'" ++ (Value.list items).typeName ++ "' object has no attribute 'update'"))
  | v => throw (.noAttribute ("'" ++ v.typeName ++ "' object has no attribute 'clear'"))

/-- Registers a plugin that was attached to a processor, and its transformer if it has one: the
processor to go on with. -/
def register (id target : Nat) (attachment : Attachment) (t : Option Transformer) (name : String) :
    Action Nat := do
  let q ← processor target
  setProcessor target { q with registry := q.registry.add attachment t }
  log .debug Registry.logger (q.registry.addText attachment t)
  if target == id then return target
  else
    log .debug logger ("Plugin '" ++ name ++ "' continued chaining on a new processor instance")
    return target

/-- Attaches a plugin under a name: the processor to go on with. -/
def attach (host : Host) (id : Nat) (a : Attacher) (options : Value) (name : String) :
    Action Nat := do
  let p ← processor id
  log .debug logger ("Attaching plugin '" ++ name ++ "' to processor '" ++ p.name ++ "'")
  let data ← reveal p.data
  let before ← ofOutcome data.toEntries
  let before ← ofOutcome (Value.duplicateEntries before)
  let attempted ← attempt do
    let returned ← prepare host id options (a.program ((← get).display options) data)
    ofOutcome (Attached.ofReturned name returned)
  match attempted with
  | .error f =>
    require f.isError f
    restoreData id before
    let said ← textOf (.error f)
    throw (.pluginAttach (.str ("Plugin '" ++ name ++ "' failed to attach: " ++ said))
      (some name) (some f))
  | .ok attached =>
    let target := attached.processor.getD id
    let q ← processor target
    match (← reveal q.data).validateData "data" with
    | .error f =>
      restoreData id before
      let said ← textOf (.error f)
      throw (.pluginAttach (.str ("Plugin '" ++ name ++ "' left invalid processor data: " ++ said))
        (some name) (some f))
    | .ok _ =>
      register id target ⟨a.name, options⟩ attached.transformer name

/-- What a fault of looking for a plugin or of its options says; of a missing key it is the key. -/
def reasonOf (f : Fault) : Action String :=
  match f with
  | .raised "KeyError" [] => throw (.raised "IndexError" [.str "tuple index out of range"])
  | .raised "KeyError" (key :: _) => textOf key
  | f => textOf (.error f)

/-- The fault of a plugin that cannot be found or does not take the options. -/
def cannotAttach (name : String) (f : Fault) : Action Fault := do
  let reason ← reasonOf f
  return .pluginAttach (.str ("Cannot attach plugin '" ++ name ++ "': " ++ reason)) (some name)
    (some f)

/-- Options that were resolved, with the given values themselves in the place of what is seen of
them. -/
def keepGiven (given : Value) (resolved : Entries) : Entries :=
  let kept (k v : Value) : Value :=
    match given, v with
    | .mapping _ entries, v =>
      match Entries.find? entries k, v with
      | some (.tuple items), .list _ => .list items
      | some w, _ => w
      | none, v => v
    | _, v => v
  resolved.map fun (k, v) => (k, kept k v)

/-- Attaches a plugin by its name in the catalog. -/
def attachNamed (host : Host) (id : Nat) (name : String) (options : Value) : Action Nat := do
  let found ← attempt do
    let m ← withCatalog (Catalog.lookup host.standard host.surroundings name)
    let resolved ← ofLogged (m.resolveOptions ((← get).display options))
    return (m, keepGiven (← content options) resolved)
  match found with
  | .ok (m, options) => attach host id m.attacher (.dict options) m.name
  | .error f =>
    if f.isKind "KeyError" || f.isKind "ValidationError" then throw (← cannotAttach name f)
    else throw f

/-- Attaches one plugin. -/
def attachItem (host : Host) (options : Value) (id : Nat) : Item → Action Nat
  | .named name => attachNamed host id name options
  | .attacher a => attach host id a options a.name
  | .other v =>
    match Attacher.ofValue? v with
    | some a => attach host id a options a.name
    | none =>
      throw (.violation "plugin" ("Plugin must be an attacher, a plugin name or a list of them, " ++
        "got " ++ v.typeName))

/-- Attaches plugins, each to the processor that the one before it left. -/
def useOn (host : Host) (id : Nat) (plugin : Plugin) (options : Value) : Action Nat :=
  plugin.visit (attachItem host options) id

/-- Whether a plugin of a factory is a pair of a plugin and its options. -/
def splitEntry (entry : Plugin) : Plugin × Value :=
  match entry with
  | .many true [plugin, .leaf (.other .none)] => (plugin, .none)
  | .many true [plugin, .leaf (.other (.mapping kind entries))] => (plugin, .mapping kind entries)
  | .many true [plugin, .leaf (.other (.handle (.dict id)))] => (plugin, .handle (.dict id))
  | entry => (entry, .none)

/-- A new processor of a factory. -/
def build (host : Host) (factory : Factory) : Action Nat := do
  let field := Settings.field factory.settings
  let id ← newProcessor (field "name") (field "parser") (field "compiler") (field "data")
  factory.plugins.foldlM (fun id (plugin, options) => useOn host id plugin options) id

/-- The processor that a value is or builds. -/
def processorFor (host : Host) (v : Value) : Action Nat := do
  match v with
  | .handle (.processor id) => return id
  | .handle (.factory id) =>
    match (← get).factories[id]? with
    | some factory => build host factory
    | none => throw (.raised "KeyError" [.nat id])
  | v => throw (.noAttribute ("'" ++ v.typeName ++ "' object has no attribute 'use'"))

end TextPipeline.Pipeline
