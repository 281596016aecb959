import TextPipeline.Value.Number

/-! Values as collections: what they yield one by one, and mappings made from pairs. -/

namespace TextPipeline

namespace Value

/-- What a value yields one by one: the elements of a collection, the keys of a mapping, the
characters of a text, the octets of octets. -/
def iterate : Value → Outcome (List Value)
  | .list items | .sequence _ items | .set items => .ok items
  | .mapping _ entries => .ok (entries.map (·.1))
  | .str s => .ok (s.toList.map fun c => .str (String.ofList [c]))
  | .bytes octets => .ok (octets.map fun b => .int b.toNat)
  | v => .error (.wrongType ("'" ++ v.typeName ++ "' object is not iterable"))

/-- The number of elements of a value. -/
def length : Value → Outcome Nat
  | .list items | .sequence _ items | .set items => .ok items.length
  | .mapping _ entries => .ok entries.length
  | .str s => .ok s.length
  | .bytes octets => .ok octets.length
  | v => .error (.wrongType ("object of type '" ++ v.typeName ++ "' has no len()"))

/-- The value of the key `i` of a mapping. -/
def entry (entries : Entries) (i : Nat) : Outcome Value :=
  match entries.find? (.nat i) with
  | some v => .ok v
  | Option.none => .error (.raised "KeyError" [.nat i])

/-- The fault of reading an element of a value by its number. -/
def noItem (v : Value) : Fault :=
  .wrongType ("'" ++ v.typeName ++ "' object is not subscriptable")

/-- The element of number `i`; of a mapping, the value of the key `i`. -/
def item (v : Value) (i : Nat) : Outcome Value :=
  match v with
  | .mapping _ entries => entry entries i
  | .list items | .sequence _ items => nth items
  | .str _ | .bytes _ => do nth (← v.iterate)
  | v => .error (noItem v)
where
  nth (items : List Value) : Outcome Value :=
    match items[i]? with
    | some v => .ok v
    | Option.none => .error (.raised "IndexError" [.str "list index out of range"])

/-- The values of the keys below `n` of a mapping, where the last is read first. -/
def entriesBelow (entries : Entries) : Nat → Outcome (List Value)
  | 0 => .ok []
  | n + 1 => do
    let last ← entry entries n
    return (← entriesBelow entries n) ++ [last]

/-- The elements of a value that are reached by number. -/
def indexed : Value → Outcome (List Value)
  | .list items | .sequence _ items => .ok items
  | .str s => iterate (.str s)
  | .bytes octets => iterate (.bytes octets)
  | .set [] => .ok []
  | .set items => .error (noItem (.set items))
  | .mapping _ entries => entriesBelow entries entries.length
  | v => do
    let _ ← v.length
    return []

/-- Whether a value can be a key: it has no parts that can be changed. -/
def isKey : Value → Bool
  | .list _ | .set _ | .mapping .dict _ | .node _ => false
  | .mapping (.other type) _ | .sequence (.other type) _ => type.keys
  | .handle (.node _) | .handle (.list _) | .handle (.dict _) => false
  | .sequence .tuple items => keys items
  | .settings _ fields => fieldKeys fields
  | _ => true
where
  keys : List Value → Bool
    | [] => true
    | v :: rest => isKey v && keys rest
  fieldKeys : List (String × Value) → Bool
    | [] => true
    | (_, v) :: rest => isKey v && fieldKeys rest

/-- A value that can be a key. -/
def asKey (v : Value) : Outcome Value :=
  if v.isKey then .ok v else .error (.wrongType ("unhashable type: '" ++ v.typeName ++ "'"))

/-- The pair that element number `i` of a list of pairs stands for. -/
def asPair (i : Nat) (v : Value) : Outcome (Value × Value) :=
  match iterate v with
  | .error _ =>
    .error (.wrongType ("cannot convert dictionary update sequence element #" ++ toString i ++
      " to a sequence"))
  | .ok [k, w] => (asKey k).map fun k => (k, w)
  | .ok items =>
    .error (.badValue ("dictionary update sequence element #" ++ toString i ++ " has length " ++
      toString items.length ++ "; 2 is required"))

/-- A mapping as a dictionary. -/
def asDict : Value → Value
  | .mapping _ entries => .dict entries
  | v => v

/-- The entries of a mapping, or of the mapping that a collection of pairs describes. -/
def toEntries (v : Value) : Outcome Entries :=
  match v with
  | .mapping _ entries => .ok entries
  | v => do
    let items ← v.iterate
    return Entries.ofList (← items.zipIdx.mapM fun (item, i) => asPair i item)

end Value

end TextPipeline
