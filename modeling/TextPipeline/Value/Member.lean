import TextPipeline.Value.Sequence

/-! Whether a value is in a collection. -/

namespace TextPipeline

/-- Whether one list stands somewhere in another. -/
def hasPart {α : Type} [BEq α] (part : List α) : List α → Bool
  | [] => part.isEmpty
  | c :: rest => part.isPrefixOf (c :: rest) || hasPart part rest

namespace Value

/-- Whether `v` is in a collection: it is an element, a key of a mapping, or a part of a text or of
octets. A value that cannot be a key is in no set or mapping that could be asked for it. -/
def isIn (v collection : Value) : Outcome Bool :=
  match collection with
  | .list items | .sequence _ items => .ok (v.among items)
  | .set items =>
    match v with
    | .set _ => .ok false
    | v => do return (← v.asKey).among items
  | .mapping _ entries => do return Entries.contains entries (← v.asKey)
  | .str s =>
    match v with
    | .str part => .ok (hasPart part.toList s.toList)
    | v =>
      .error (.wrongType ("'in <string>' requires string as left operand, not " ++ v.typeName))
  | .bytes octets =>
    match v with
    | .bytes part => .ok (hasPart part octets)
    | .int n => octet octets n
    | .bool b => octet octets (if b then 1 else 0)
    | v => .error (.wrongType ("a bytes-like object is required, not '" ++ v.typeName ++ "'"))
  | c => .error (.wrongType ("argument of type '" ++ c.typeName ++ "' is not iterable"))
where
  octet (octets : List UInt8) (n : Int) : Outcome Bool :=
    if 0 ≤ n ∧ n < 256 then .ok (octets.any fun b => (b.toNat : Int) == n)
    else .error (.badValue "byte must be in range(0, 256)")

end Value

end TextPipeline
