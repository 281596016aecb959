import TextPipeline.Value.Display

/-! What a step of a chain results in: a fault, another tree, or neither. -/

namespace TextPipeline.Transform

/-- The result of a step: a fault, or the tree with which to go on; with neither, the chain goes on
with the tree that the step was given. -/
structure Resolution where
  error : Option Fault
  tree : Option Value

namespace Resolution

/-- The step failed. -/
def failed (f : Fault) : Resolution := ⟨some f, none⟩

/-- The step changed nothing but the tree that it was given. -/
def unchanged : Resolution := ⟨none, none⟩

/-- The fault of a step that answered with something of the wrong kind. -/
def misuse (name message : String) : Resolution := failed (.transform (.str message) (some name) none)

/-- The result that a transformer of the given name returned. -/
def ofReturn (name : String) (v : Value) : Resolution :=
  match v with
  | .none => unchanged
  | .error f => failed f
  | v =>
    if v.isNode then ⟨none, some v⟩
    else misuse name ("Transformer '" ++ name ++ "' returned unsupported value of type " ++
      v.typeName)

/-- The result that a transformer of the given name passed on. An error that is none is reported
by its text. -/
def ofCall (name : String) (error tree : Value) : Resolution :=
  match error with
  | .error f => if tree.isNone || tree.isNode then failed f else strayTree
  | .none =>
    if tree.isNone then unchanged
    else if tree.isNode then ⟨none, some tree⟩
    else strayTree
  | v => misuse name v.text
where
  strayTree : Resolution :=
    misuse name ("Transformer '" ++ name ++ "' passed a " ++ tree.typeName ++
      " to next() instead of a Node")

end Resolution

/-- How a parameter of a function can be given. -/
inductive ParameterKind where
  | positional
  | positionalOnly
  | variadic
  | keyword
  | keywords
  deriving DecidableEq, Repr, Inhabited

/-- Whether a function with these parameters takes a third one by its place, in which it is handed
the way to pass on its result. -/
def acceptsNext (parameters : List ParameterKind) : Bool :=
  3 ≤ (parameters.filter fun p => p == .positional || p == .positionalOnly).length

/-- The first of the names of a function that is not empty, or else that of its type. -/
def nameOf (qualified simple : Option String) (type : String) : String :=
  match qualified.filter (· != ""), simple.filter (· != "") with
  | some name, _ => name
  | none, some name => name
  | none, none => type

end TextPipeline.Transform
