import TextPipeline.Decimal.Reading
import TextPipeline.Decimal.Shortest
import TextPipeline.Text.Hex
import TextPipeline.Value.Display

/-! Writing JSON. Texts keep their characters, except quotes, backslashes and control characters.
Without an indent everything stands on one line; with one, every element has a line of its own. -/

namespace TextPipeline.Json

open TextPipeline.Decimal TextPipeline.Text

/-- One character of a string. -/
def stringChar (c : Char) : List Char :=
  if c == '"' then ['\\', '"']
  else if c == '\\' then ['\\', '\\']
  else if c == '\n' then ['\\', 'n']
  else if c == '\r' then ['\\', 'r']
  else if c == '\t' then ['\\', 't']
  else if c == '\x08' then ['\\', 'b']
  else if c == '\x0c' then ['\\', 'f']
  else if c.toNat < 0x20 then '\\' :: 'u' :: hex 4 c.toNat
  else [c]

/-- A string in quotes. -/
def stringText (s : String) : List Char :=
  '"' :: s.toList.flatMap stringChar ++ ['"']

/-- How a text is laid out: on one line, or every element on its own line after as many indents as
it is deep. -/
inductive Layout where
  | compact
  | indented (indent : List Char)

/-- The layout that an indent stands for: none is compact, a number counts spaces, and a text is
used as it is. -/
def Layout.ofValue : Value → Outcome Layout
  | .none => .ok .compact
  | .int n =>
    if n ≥ 9223372036854775808 ∨ n < -9223372036854775808 then
      .error (.raised "OverflowError" [.str "cannot fit 'int' into an index-sized integer"])
    else if n ≥ 1099511627776 then .error (.raised "MemoryError" [])
    else .ok (.indented (List.replicate n.toNat ' '))
  | .bool b => .ok (.indented (if b then [' '] else []))
  | .str s => .ok (.indented s.toList)
  | v =>
    .error (.wrongType ("can't multiply sequence by non-int of type '" ++ v.typeName ++ "'"))

/-- What stands before an element at a depth. -/
def Layout.break (layout : Layout) (depth : Nat) : List Char :=
  match layout with
  | .compact => []
  | .indented indent => '\n' :: (List.replicate depth indent).flatten

/-- What stands between two elements at a depth. -/
def Layout.separator (layout : Layout) (depth : Nat) : List Char :=
  match layout with
  | .compact => [',', ' ']
  | .indented _ => ',' :: layout.break depth

/-- The elements of a collection at a depth between its brackets. -/
def Layout.enclose (layout : Layout) (depth : Nat) (opening closing : Char)
    (items : List (List Char)) : List Char :=
  match items with
  | [] => [opening, closing]
  | items =>
    opening :: layout.break (depth + 1) ++ List.intercalate (layout.separator (depth + 1)) items ++
      layout.break depth ++ [closing]

/-- The text of a number or a word; anything else has none, which is the fault `otherwise`. -/
def scalarText (otherwise : Fault) : Value → Outcome String
  | .none => .ok "null"
  | .bool b => .ok (if b then "true" else "false")
  | .int n => integerText n
  | .float x => .ok (FloatStyle.data.text x)
  | _ => .error otherwise

/-- The name of a member: a text, or the text of a scalar. -/
def memberName (key : Value) : Outcome (List Char) :=
  match key with
  | .str s => .ok (stringText s)
  | key => do
    return stringText (← scalarText
      (.wrongType ("keys must be str, int, float, bool or None, not " ++ key.typeName)) key)

mutual

/-- The text of a value at a depth. -/
def write (layout : Layout) (depth : Nat) : Value → Outcome (List Char)
  | .str s => .ok (stringText s)
  | .list items => do
    return layout.enclose depth '[' ']' (← writeItems layout (depth + 1) items)
  | .tuple items => do
    return layout.enclose depth '[' ']' (← writeItems layout (depth + 1) items)
  | .dict entries => do
    return layout.enclose depth '\x7b' '\x7d' (← writeMembers layout (depth + 1) entries)
  | v => do
    return (← scalarText
      (.wrongType ("Object of type " ++ v.typeName ++ " is not JSON serializable")) v).toList

/-- The texts of the elements of a list. -/
def writeItems (layout : Layout) (depth : Nat) : List Value → Outcome (List (List Char))
  | [] => .ok []
  | v :: rest => do
    let first ← write layout depth v
    return first :: (← writeItems layout depth rest)

/-- The texts of the members of an object. -/
def writeMembers (layout : Layout) (depth : Nat) :
    List (Value × Value) → Outcome (List (List Char))
  | [] => .ok []
  | (k, v) :: rest => do
    let name ← memberName k
    let text ← write layout depth v
    return (name ++ [':', ' '] ++ text) :: (← writeMembers layout depth rest)

end

/-- The text of a value. -/
def toText (layout : Layout) (v : Value) : Outcome String := do
  return String.ofList (← write layout 0 v)

end TextPipeline.Json
