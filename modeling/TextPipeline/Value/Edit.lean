import TextPipeline.Value.Sequence

/-! Reading and changing the parts of a value that are reached by a key. -/

namespace TextPipeline.Value

/-- The fault of a change that only mappings and lists allow. -/
def fixed (v : Value) : Fault :=
  .wrongType ("'" ++ v.typeName ++ "' object does not support item assignment")

/-- The number that a key is among `length` elements: negative numbers count from the end. -/
def place? (length : Nat) (key : Int) : Option Nat :=
  if 0 ≤ key then some key.toNat |>.filter (· < length)
  else if 0 ≤ key + length then some (key + length).toNat
  else Option.none

/-- The number that a key of a sequence of the given type is. -/
def asPlace (typeName : String) (length : Nat) (fault : Fault) (key : Value) : Outcome Nat :=
  match key with
  | .int n => number n
  | .bool b => number (if b then 1 else 0)
  | key =>
    .error (.wrongType (typeName ++ " indices must be integers or slices, not " ++ key.typeName))
where
  number (n : Int) : Outcome Nat :=
    match place? length n with
    | some i => .ok i
    | Option.none => .error fault

/-- The fault of a number that no element of a sequence has. -/
def outOfRange (sequence : String) : Fault :=
  .raised "IndexError" [.str (sequence ++ " index out of range")]

/-- The part that a key leads to. -/
def getItem (v key : Value) : Outcome Value :=
  match v with
  | .mapping _ entries => do
    let key ← key.asKey
    match Entries.find? entries key with
    | some held => return held
    | Option.none => throw (.raised "KeyError" [key])
  | .list items => nth "list" "list" items
  | .sequence .tuple items => nth "tuple" "tuple" items
  | .sequence (.other type) items => nth type.name type.name items
  | .str _ => do nth "string" "string" (← v.iterate)
  | .bytes _ => do
    let items ← v.iterate
    return items.getD (← key.asPlace "byte" items.length (.raised "IndexError"
      [.str "index out of range"])) .none
  | v => .error (noItem v)
where
  nth (typeName shown : String) (items : List Value) : Outcome Value := do
    return items.getD (← key.asPlace typeName items.length (outOfRange shown)) .none

/-- Sets the part that a key leads to. -/
def setItem (v key item : Value) : Outcome Value :=
  match v with
  | .dict entries => do return .dict (Entries.insert (← key.asKey) item entries)
  | .list items => do
    return .list (items.set (← key.asPlace "list" items.length (outOfRange "list assignment")) item)
  | v => .error (fixed v)

/-- Removes the part that a key leads to, which must be there. -/
def eraseItem (v key : Value) : Outcome Value :=
  match v with
  | .dict entries => do
    let key ← key.asKey
    if Entries.contains entries key then return .dict (Entries.erase entries key)
    else throw (.raised "KeyError" [key])
  | .list items => do
    return .list (items.eraseIdx (← key.asPlace "list" items.length (outOfRange "list assignment")))
  | v => .error (fixed v)

theorem setItem_dict {entries : Entries} {key item v : Value}
    (h : (Value.dict entries).setItem key item = .ok v) : ∃ kept, v = .dict kept := by
  unfold setItem at h
  cases hkey : key.asKey with
  | error f => rw [hkey] at h; cases h
  | ok k => rw [hkey] at h; exact ⟨_, (Except.ok.inj h).symm⟩

theorem eraseItem_dict {entries : Entries} {key v : Value}
    (h : (Value.dict entries).eraseItem key = .ok v) : ∃ kept, v = .dict kept := by
  unfold eraseItem at h
  cases hkey : key.asKey with
  | error f => rw [hkey] at h; cases h
  | ok k =>
    rw [hkey] at h
    change (if Entries.contains entries k then _ else _) = _ at h
    split at h
    · exact ⟨_, (Except.ok.inj h).symm⟩
    · cases h

/-- A list with one more element at its end. -/
def extended (v item : Value) : Outcome Value :=
  match v with
  | .list items => .ok (.list (items ++ [item]))
  | v => .error (.noAttribute ("'" ++ v.typeName ++ "' object has no attribute 'append'"))

/-- A value in which the part that a key leads to is another one. -/
def withItem (v key item : Value) : Value :=
  match v with
  | .mapping kind entries => .mapping kind (Entries.insert key item entries)
  | .list items => .list (replaced items)
  | .sequence kind items => .sequence kind (replaced items)
  | v => v
where
  replaced (items : List Value) : List Value :=
    match key.asPlace "" items.length (outOfRange "") with
    | .ok i => items.set i item
    | .error _ => items

end TextPipeline.Value
