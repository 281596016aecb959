import TextPipeline.Decimal.Binary
import TextPipeline.Value.Basic

/-! Equality of values: numbers and moments by what they denote, mappings and sets regardless of
order, and all else by structure. Errors, files and unknown values equal nothing. -/

namespace TextPipeline

open TextPipeline.Decimal

namespace Value

/-- The number that a value denotes exactly, if it denotes a finite one. -/
def number? : Value → Option Binary
  | .bool b => some (Binary.ofInt (if b then 1 else 0))
  | .int n => some (Binary.ofInt n)
  | .float x =>
    match parts x with
    | .finite b => some b
    | _ => Option.none
  | _ => Option.none

/-- Whether two values are equal as numbers. -/
def numberEquals (a b : Value) : Bool :=
  match a, b with
  | .float x, .float y => x == y
  | _, _ =>
    match a.number?, b.number? with
    | some x, some y => x.compare y == .eq
    | _, _ => false

mutual

/-- Whether two values are equal. What equals nothing but itself, such as no number, counts as equal
if the two values are known to be `shared`: made of the same parts. -/
def equalsWith (shared : Bool) : Value → Value → Bool
  | .none, .none => true
  | .str s, .str t => s == t
  | .bytes s, .bytes t => s == t
  | .list s, .list t => listEquals shared s t
  | .sequence k s, .sequence l t => k == l && listEquals shared s t
  | .set s, .set t => s.length == t.length && listWithin shared s t
  | .mapping _ s, .mapping _ t => s.length == t.length && entriesWithin shared s t
  | .moment s, .moment t => s.sameAs t
  | .node ⟨t, c, v, d, p⟩, .node n =>
    equalsWith shared t n.type && equalsWith shared c n.children &&
      equalsWith shared v n.value && equalsWith shared d n.data &&
      equalsWith shared p n.position
  | .point ⟨l, c, o⟩, .point q =>
    equalsWith shared l q.line && equalsWith shared c q.column && equalsWith shared o q.offset
  | .span ⟨l, c, o⟩ ⟨l', c', o'⟩, .span a b =>
    equalsWith shared l a.line && equalsWith shared c a.column &&
      equalsWith shared o a.offset && (equalsWith shared l' b.line &&
      equalsWith shared c' b.column && equalsWith shared o' b.offset)
  | .settings k s, .settings j t => k == j && fieldsEqual shared s t
  | .callable s, .callable t => s == t
  | .anonymous, .anonymous => shared
  | .awaitable i, .awaitable j => i == j
  | .handle g, .handle h => g == h
  | .float a, .float b => numberEquals (.float a) (.float b) || (shared && a.toBits == b.toBits)
  | .bool a, b => numberEquals (.bool a) b
  | .int a, b => numberEquals (.int a) b
  | .float a, b => numberEquals (.float a) b
  | _, _ => false

/-- Whether two lists are equal element by element. -/
def listEquals (shared : Bool) : List Value → List Value → Bool
  | [], [] => true
  | a :: s, b :: t => equalsWith shared a b && listEquals shared s t
  | _, _ => false

/-- Whether every element of the first list equals one of the second. -/
def listWithin (shared : Bool) : List Value → List Value → Bool
  | [], _ => true
  | a :: s, t => t.any (equalsWith shared a) && listWithin shared s t

/-- Whether every entry of the first list equals one of the second. -/
def entriesWithin (shared : Bool) : List (Value × Value) → List (Value × Value) → Bool
  | [], _ => true
  | (k, v) :: s, t =>
    (t.any fun e => equalsWith shared k e.1 && equalsWith shared v e.2) &&
      entriesWithin shared s t

/-- Whether two lists of fields are equal, in order. -/
def fieldsEqual (shared : Bool) : List (String × Value) → List (String × Value) → Bool
  | [], [] => true
  | (k, v) :: s, (j, w) :: t => k == j && equalsWith shared v w && fieldsEqual shared s t
  | _, _ => false

end

/-- Whether two values that were made apart are equal. -/
abbrev equals : Value → Value → Bool := equalsWith false

/-- Whether a list holds a value equal to `v`. -/
def among (v : Value) (items : List Value) : Bool :=
  items.any (equals v)

end Value

/-- The entries of a mapping in the order in which their keys were first given. -/
abbrev Entries := List (Value × Value)

namespace Entries

/-- The value of a key. -/
def find? (entries : Entries) (key : Value) : Option Value :=
  (List.find? (fun e => e.1.equals key) entries).map (·.2)

/-- The value of a text key. -/
def get? (entries : Entries) (key : String) : Option Value :=
  entries.find? (.str key)

def contains (entries : Entries) (key : Value) : Bool :=
  entries.any fun e => e.1.equals key

/-- Sets the value of a key, which keeps its place if it had one and comes last otherwise. -/
def insert (key value : Value) : Entries → Entries
  | [] => [(key, value)]
  | (k, v) :: rest =>
    if k.equals key then (k, value) :: rest else (k, v) :: insert key value rest

/-- Sets the value of a text key. -/
def put (entries : Entries) (key : String) (value : Value) : Entries :=
  entries.insert (.str key) value

/-- Removes a key. -/
def erase (entries : Entries) (key : Value) : Entries :=
  entries.filter fun e => !e.1.equals key

/-- Entries given one after another, where a later value of a key replaces an earlier one. -/
def ofList (pairs : List (Value × Value)) : Entries :=
  pairs.foldl (fun entries e => entries.insert e.1 e.2) []

end Entries

end TextPipeline
