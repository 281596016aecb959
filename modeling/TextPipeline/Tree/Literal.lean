import TextPipeline.Text.Blank
import TextPipeline.Tree.Walk

/-! The literal text of a tree: joining it, counting its words, and changing it in place. -/

namespace TextPipeline.Tree

/-- Texts with `joiner` between them. Anything that is not a text cannot be joined. -/
def joinTexts (joiner : String) (values : List Value) : Outcome String := do
  let texts ← values.mapM fun v =>
    match v with
    | .str s => Except.ok s
    | v => .error (.wrongType ("expected str instance, " ++ v.typeName ++ " found"))
  return String.intercalate joiner texts

/-- The values of the literals of several trees. -/
def literalValues (trees : List Value) : Outcome (List Value) := do
  let all ← trees.mapM (collect fun n => .ok (if n.isLiteral then [n.value] else []))
  return all.flatten

/-- The values of the literals of several trees in the order of a walk, joined. -/
def textOfAll (trees : List Value) (joiner : String) : Outcome String := do
  joinTexts joiner (← literalValues trees)

/-- The literal text of a tree. -/
def textOf (tree : Value) : Outcome String :=
  textOfAll [tree] ""

/-- The number of words of a tree. Literals are kept apart, so that no word spans two of them. -/
def countWords (tree : Value) : Outcome Nat := do
  return (Text.words (← textOfAll [tree] " ").toList).length

/-- The result of changing literals: the tree, the number of literals changed, and the fault
that stopped the change, if one did. -/
structure Mapped where
  tree : Value
  count : Nat
  fault : Option Fault

/-- Changes one node if it is a literal, of the type asked for if there is one. -/
def mapNode (f : Node → Outcome Value) (type : Option Value) (n : Node) :
    Outcome (Node × Nat) := do
  if n.isLiteral && (match type with | none => true | some t => n.type.equals t) then
    return ({ n with value := ← f n }, 1)
  else return (n, 0)

/-- The entries of a mapping with their trees changed in the order of the numbers that are their
keys, up to the first fault. -/
def inNumberOrder (changed : List (Value × Mapped)) (entries : Entries) :
    Entries × Nat × Option Fault :=
  (List.range entries.length).foldl (fun (entries, count, fault) i =>
    match fault, changed.find? fun e => e.1.equals (.nat i) with
    | none, some (key, m) => (Entries.insert key m.tree entries, count + m.count, m.fault)
    | fault, _ => (entries, count, fault)) (entries, 0, none)

section

variable {m : Type → Type} [Monad m]

mutual

/-- Changes the literals of a tree in the order of a walk; `shared` changes those of the trees that
are kept elsewhere. -/
def mapLiteralsWith (shared : Handle → m Mapped) (f : Node → Outcome Value)
    (type : Option Value) : Value → m Mapped
  | .node ⟨t, .list cs, v, d, p⟩ =>
    match mapNode f type ⟨t, .list cs, v, d, p⟩ with
    | .error fault => pure ⟨.node ⟨t, .list cs, v, d, p⟩, 0, some fault⟩
    | .ok (n, k) => do
      let (below, count, fault) ← mapLiteralsAll shared f type cs
      return ⟨.node { n with children := .list below }, k + count, fault⟩
  | .node ⟨t, .sequence kind cs, v, d, p⟩ =>
    match mapNode f type ⟨t, .sequence kind cs, v, d, p⟩ with
    | .error fault => pure ⟨.node ⟨t, .sequence kind cs, v, d, p⟩, 0, some fault⟩
    | .ok (n, k) => do
      let (below, count, fault) ← mapLiteralsAll shared f type cs
      return ⟨.node { n with children := .sequence kind below }, k + count, fault⟩
  | .node ⟨t, .mapping kind es, v, d, p⟩ =>
    match mapNode f type ⟨t, .mapping kind es, v, d, p⟩ with
    | .error fault => pure ⟨.node ⟨t, .mapping kind es, v, d, p⟩, 0, some fault⟩
    | .ok (n, k) =>
      match children n with
      | .error fault => pure ⟨.node n, k, some fault⟩
      | .ok _ => do
        let (below, count, fault) := inNumberOrder (← mapLiteralsEntries shared f type es) es
        return ⟨.node { n with children := .mapping kind below }, k + count, fault⟩
  | .node n =>
    match mapNode f type n with
    | .error fault => pure ⟨.node n, 0, some fault⟩
    | .ok (n, k) =>
      match children n with
      | .error fault => pure ⟨.node n, k, some fault⟩
      | .ok [] => pure ⟨.node n, k, none⟩
      | .ok (stray :: _) => pure ⟨.node n, k, some (notNode stray)⟩
  | .handle h => shared h
  | v => pure ⟨v, 0, some (notNode v)⟩

/-- Changes the literals of several trees, up to the first fault. -/
def mapLiteralsAll (shared : Handle → m Mapped) (f : Node → Outcome Value)
    (type : Option Value) : List Value → m (List Value × Nat × Option Fault)
  | [] => pure ([], 0, none)
  | c :: rest => do
    let first ← mapLiteralsWith shared f type c
    match first.fault with
    | some fault => return (first.tree :: rest, first.count, some fault)
    | none =>
      let (others, count, fault) ← mapLiteralsAll shared f type rest
      return (first.tree :: others, first.count + count, fault)

/-- Changes the literals of each of the trees that a mapping holds. -/
def mapLiteralsEntries (shared : Handle → m Mapped) (f : Node → Outcome Value)
    (type : Option Value) : List (Value × Value) → m (List (Value × Mapped))
  | [] => pure []
  | (k, c) :: rest => do
    let first ← mapLiteralsWith shared f type c
    return (k, first) :: (← mapLiteralsEntries shared f type rest)

end

end

/-- Changes the literals of a tree in the order of a walk. -/
def mapLiterals (f : Node → Outcome Value) (type : Option Value) (tree : Value) : Mapped :=
  Id.run (mapLiteralsWith (fun h => pure ⟨.handle h, 0, some (notNode (.handle h))⟩) f type tree)

/-- A text with another one after it. -/
def appended (v : Value) (suffix : String) : Outcome Value :=
  match v with
  | .str s => .ok (.str (s ++ suffix))
  | v => .error (.wrongType ("can only concatenate str (not \"" ++ v.typeName ++ "\") to str"))

mutual

/-- A tree without the positions of its nodes. -/
def dropPositions : Value → Value
  | .node ⟨t, .list cs, v, d, _⟩ => .node ⟨t, .list (dropPositionsAll cs), v, d, .none⟩
  | .node ⟨t, .sequence kind cs, v, d, _⟩ =>
    .node ⟨t, .sequence kind (dropPositionsAll cs), v, d, .none⟩
  | .node n => .node { n with position := .none }
  | v => v

/-- Several trees without the positions of their nodes. -/
def dropPositionsAll : List Value → List Value
  | [] => []
  | c :: rest => dropPositions c :: dropPositionsAll rest

end

end TextPipeline.Tree
