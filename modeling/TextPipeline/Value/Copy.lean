import TextPipeline.Value.Display

/-! Copies of values that share no changeable part with the value they are taken from. A value is
its own copy but for the faults it holds: a fault is made again from what it says, so that one that
words its own text says it about that text. Some collections have no copy. -/

namespace TextPipeline

/-- The fault of copying a value of a type of which no copies are made. -/
def notCopied (type : String) : Fault :=
  .wrongType ("cannot pickle '" ++ type ++ "' object")

mutual

/-- The copy of a value, which fails at the first part that has none. -/
def Value.duplicate : Value → Outcome Value
  | .list items => do return .list (← Value.duplicateList items)
  | .sequence .tuple items => do return .tuple (← Value.duplicateList items)
  | .sequence (.other type) items => do
    unless type.copies do throw (notCopied type.name)
    return .sequence (.other type) (← Value.duplicateList items)
  | .set items => do return .set (← Value.duplicateList items)
  | .mapping .dict entries => do return .dict (← Value.duplicateEntries entries)
  | .mapping (.other type) entries => do
    unless type.copies do throw (notCopied type.name)
    return .mapping (.other type) (← Value.duplicateEntries entries)
  | .node ⟨t, c, v, d, p⟩ => do
    return .node ⟨← t.duplicate, ← c.duplicate, ← v.duplicate, ← d.duplicate, ← p.duplicate⟩
  | .error f => do return .error (← f.duplicate)
  | .settings kind fields => do return .settings kind (← Value.duplicateFields fields)
  | .awaitable id => .error (notCopied (Value.awaitable id).typeName)
  | v => .ok v

/-- The copies of the elements of a list. -/
def Value.duplicateList : List Value → Outcome (List Value)
  | [] => .ok []
  | v :: rest => do
    let first ← v.duplicate
    return first :: (← Value.duplicateList rest)

/-- The copies of the entries of a mapping. -/
def Value.duplicateEntries : List (Value × Value) → Outcome (List (Value × Value))
  | [] => .ok []
  | (k, v) :: rest => do
    let first := (← k.duplicate, ← v.duplicate)
    return first :: (← Value.duplicateEntries rest)

/-- The copies of the fields of settings. -/
def Value.duplicateFields : List (String × Value) → Outcome (List (String × Value))
  | [] => .ok []
  | (name, v) :: rest => do
    let first := (name, ← v.duplicate)
    return first :: (← Value.duplicateFields rest)

/-- The copy of a fault. -/
def Fault.duplicate : Fault → Outcome Fault
  | .general m o => do return .general (← m.duplicate) o
  | .validation m p o => do return .validation (← m.duplicate) p o
  | .configuration m o => do return .configuration (← m.duplicate) o
  | .missingParser processor said => do
    return .missingParser (← processor.duplicate) (noParserText said)
  | .missingCompiler processor said => do
    return .missingCompiler (← processor.duplicate) (noCompilerText said)
  | .missingTree m o => do return .missingTree (← m.duplicate) o
  | .asyncTransformer m t => do return .asyncTransformer (← m.duplicate) t
  | .pluginAttach m p o => do return .pluginAttach (← m.duplicate) p o
  | .transform m t o => do return .transform (← m.duplicate) t o
  | .parsing m s o => do return .parsing (← m.duplicate) s o
  | .rendering m s o => do return .rendering (← m.duplicate) s o
  | .raised kind args => do return .raised kind (← Value.duplicateList args)
  | f => .ok f

end

/-- Whether a value is its own copy, because nothing in it can change. -/
def Value.isOwnCopy : Value → Bool
  | .none | .bool _ | .int _ | .float _ | .str _ | .bytes _ | .callable _ | .anonymous => true
  | .tuple items => all items
  | _ => false
where
  all : List Value → Bool
    | [] => true
    | v :: rest => v.isOwnCopy && all rest

/-- A copy that shares its parts with the value. Only a fault is made again, and some collections have
no copy. -/
def Value.shallowCopy : Value → Outcome Value
  | .error (.missingParser processor said) =>
    .ok (.error (.missingParser processor (noParserText said)))
  | .error (.missingCompiler processor said) =>
    .ok (.error (.missingCompiler processor (noCompilerText said)))
  | .sequence (.other type) items =>
    if type.copies then .ok (.sequence (.other type) items) else .error (notCopied type.name)
  | .mapping (.other type) entries =>
    if type.copies then .ok (.mapping (.other type) entries) else .error (notCopied type.name)
  | .awaitable id => .error (notCopied (Value.awaitable id).typeName)
  | v => .ok v

end TextPipeline
