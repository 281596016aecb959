import TextPipeline.Value.Basic

/-! Values with the objects they refer to in the place of the references. -/

namespace TextPipeline

mutual

/-- A value in which each reference to an object is replaced by what `shown` says of it. -/
def Value.revealWith (shown : Handle → Value) : Value → Value
  | .handle h => shown h
  | .list items => .list (Value.revealList shown items)
  | .sequence kind items => .sequence kind (Value.revealList shown items)
  | .set items => .set (Value.revealList shown items)
  | .mapping kind entries => .mapping kind (Value.revealEntries shown entries)
  | .node ⟨t, c, v, d, p⟩ =>
    .node ⟨t.revealWith shown, c.revealWith shown, v.revealWith shown, d.revealWith shown,
      p.revealWith shown⟩
  | .error f => .error (f.revealWith shown)
  | .settings kind fields => .settings kind (Value.revealFields shown fields)
  | .document path contents reports =>
    .document (path.revealWith shown) (contents.revealWith shown) reports
  | v => v

/-- The elements of a list, each revealed. -/
def Value.revealList (shown : Handle → Value) : List Value → List Value
  | [] => []
  | v :: rest => v.revealWith shown :: Value.revealList shown rest

/-- The entries of a mapping, each revealed. -/
def Value.revealEntries (shown : Handle → Value) : List (Value × Value) → List (Value × Value)
  | [] => []
  | (k, v) :: rest => (k.revealWith shown, v.revealWith shown) :: Value.revealEntries shown rest

/-- The fields of settings, each revealed. -/
def Value.revealFields (shown : Handle → Value) : List (String × Value) → List (String × Value)
  | [] => []
  | (name, v) :: rest => (name, v.revealWith shown) :: Value.revealFields shown rest

/-- A fault whose arguments are revealed. -/
def Fault.revealWith (shown : Handle → Value) : Fault → Fault
  | .general m o => .general (m.revealWith shown) o
  | .validation m p o => .validation (m.revealWith shown) p o
  | .configuration m o => .configuration (m.revealWith shown) o
  | .missingParser p said => .missingParser (p.revealWith shown) said
  | .missingCompiler p said => .missingCompiler (p.revealWith shown) said
  | .missingTree m o => .missingTree (m.revealWith shown) o
  | .asyncTransformer m t => .asyncTransformer (m.revealWith shown) t
  | .pluginAttach m p o => .pluginAttach (m.revealWith shown) p o
  | .transform m t o => .transform (m.revealWith shown) t o
  | .parsing m s o => .parsing (m.revealWith shown) s o
  | .rendering m s o => .rendering (m.revealWith shown) s o
  | .diagnostic ⟨reason, fatal, file, position, line, column, source, rule⟩ =>
    .diagnostic ⟨reason.revealWith shown, fatal.revealWith shown, file.revealWith shown,
      position.revealWith shown, line.revealWith shown, column.revealWith shown,
      source.revealWith shown, rule.revealWith shown⟩
  | .raised kind args => .raised kind (Value.revealList shown args)
  | f => f

end

end TextPipeline
