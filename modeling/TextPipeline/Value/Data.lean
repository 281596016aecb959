import TextPipeline.Value.Sequence

/-! The data variant: configuration values that can be written down. They are absence, truth
values, numbers and texts, sequences of data, and mappings from texts to data. Octets are no
sequence. -/

namespace TextPipeline

namespace Value

/-- The fault of a key that is not a text. -/
def keyFault (path : String) (key : Value) : Fault :=
  .violation path ("Data keys must be strings, got " ++ key.typeName ++ " at " ++ path)

/-- The fault of a value outside the data variant. -/
def unsupported (path : String) (v : Value) : Fault :=
  .violation path ("Unsupported data value at " ++ path ++ ": " ++ v.typeName)

mutual

/-- Succeeds on a value of the data variant and otherwise reports the first violation, entries and
elements taken in order. -/
def checkData (path : String) : Value → Outcome Unit
  | .none | .bool _ | .int _ | .float _ | .str _ => .ok ()
  | .mapping _ entries => checkEntries path entries
  | .list items | .sequence _ items => checkItems path 0 items
  | v => .error (unsupported path v)

/-- Checks the entries of the mapping at `path`. -/
def checkEntries (path : String) : List (Value × Value) → Outcome Unit
  | [] => .ok ()
  | (.str key, v) :: rest => do
    checkData (path ++ "." ++ key) v
    checkEntries path rest
  | (key, _) :: _ => .error (keyFault path key)

/-- Checks the elements of the list at `path` from number `i` on. -/
def checkItems (path : String) (i : Nat) : List Value → Outcome Unit
  | [] => .ok ()
  | v :: rest => do
    checkData (path ++ "[" ++ toString i ++ "]") v
    checkItems path (i + 1) rest

end

/-- Succeeds on a mapping of the data variant and otherwise reports the first violation. -/
def validateData (path : String) (v : Value) : Outcome Unit :=
  match v with
  | .mapping _ entries => checkEntries path entries
  | v => .error (.violation path (path ++ " must be a mapping, got " ++ v.typeName))

end Value

end TextPipeline
