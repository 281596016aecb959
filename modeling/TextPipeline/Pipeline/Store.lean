import TextPipeline.Tree.Literal
import TextPipeline.Value.Reveal

/-! The nodes, lists and mappings that several places share. Each is kept once and known by its
number, so that a change of it shows wherever it is used. -/

namespace TextPipeline.Pipeline

/-- What is shared, by number. -/
structure Store where
  cells : List Value := []

namespace Store

/-- The number under which an object is kept, if it is a node, a list or a mapping. -/
def number? : Handle → Option Nat
  | .node id | .list id | .dict id => some id
  | _ => none

/-- What is kept of an object. -/
def content? (s : Store) (h : Handle) : Option Value :=
  (number? h).bind fun id => s.cells[id]?

/-- The content of a value that is kept; any other value is its own. -/
def content (s : Store) : Value → Value
  | .handle h => (s.content? h).getD (.handle h)
  | v => v

/-- Changes what is kept of an object. -/
def write (s : Store) (h : Handle) (v : Value) : Store :=
  match number? h with
  | some id => ⟨s.cells.set id v⟩
  | none => s

/-- A value in which objects are shown, down to a depth. -/
def revealWithin (s : Store) : Nat → Value → Value
  | 0, v => v
  | n + 1, v => v.revealWith fun h =>
    match s.content? h with
    | some c => s.revealWithin n c
    | none => .handle h

/-- A value with what it shares in full. -/
def reveal (s : Store) (v : Value) : Value :=
  s.revealWithin (s.cells.length + 1) v

/-- Keeps one more object. -/
def keep (handle : Nat → Handle) (v : Value) : StateM Store Value := do
  let s ← get
  set (⟨s.cells ++ [v]⟩ : Store)
  return .handle (handle s.cells.length)

mutual

/-- A value that can be used in several places: nodes, lists and mappings are kept, also those in
fixed sequences. -/
def share : Value → StateM Store Value
  | .node n => keep .node (.node n)
  | .list items => keep .list (.list items)
  | .dict entries => keep .dict (.dict entries)
  | .tuple items => do return .tuple (← shareAll items)
  | v => pure v

/-- Values that can be used in several places. -/
def shareAll : List Value → StateM Store (List Value)
  | [] => pure []
  | v :: rest => do
    let first ← share v
    return first :: (← shareAll rest)

end

/-- A mapping whose values can be used in several places; anything else stays as it is. -/
def shareValues : Value → StateM Store Value
  | .dict entries => do
    return .dict (← entries.mapM fun (k, v) => do return (k, ← share v))
  | v => pure v

/-- Makes a change to a value: to what is kept of it, or else to the value itself. -/
def change (f : Value → Value) (v : Value) : StateM Store Value := do
  let s ← get
  match v with
  | .handle h =>
    set (s.write h (f (s.content v)))
    return v
  | v => return f v

/-- Changes the literals of an object that is kept, and of those that it shares as often as a walk
comes to them, down to a depth. -/
def mapWithin (f : Node → Outcome Value) (type : Option Value) :
    Nat → Handle → StateM Store Tree.Mapped
  | 0, h => pure ⟨.handle h, 0, some Tree.endless⟩
  | n + 1, h => do
    match (← get).content? h with
    | none => return ⟨.handle h, 0, some (Tree.notNode (.handle h))⟩
    | some c =>
      let m ← Tree.mapLiteralsWith (mapWithin f type n) f type c
      modify fun s => s.write h m.tree
      return { m with tree := .handle h }

/-- Changes the literals of a tree, which stands for itself or is kept. -/
def mapLiterals (f : Node → Outcome Value) (type : Option Value) (tree : Value) :
    StateM Store Tree.Mapped := do
  Tree.mapLiteralsWith (mapWithin f type ((← get).cells.length + 1)) f type tree

end Store

end TextPipeline.Pipeline
