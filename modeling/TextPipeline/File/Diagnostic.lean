import TextPipeline.Tree.Basic

/-! Diagnostics: remarks about a place of a document, with the rule that led to them. -/

namespace TextPipeline

/-- How serious a diagnostic is. -/
inductive Severity where
  | error
  | warning
  | info
  deriving DecidableEq, Repr, Inhabited

/-- The name of a severity. -/
def Severity.name : Severity → String
  | .error => "error"
  | .warning => "warning"
  | .info => "info"

namespace DiagnosticOf

/-- The severity of a diagnostic: fatal ones are errors, and those for which it is not said whether
they are fatal are information. -/
def severity (d : Diagnostic) : Severity :=
  if d.fatal.truthy then .error
  else if d.fatal.isNone then .info
  else .warning

/-- The stretch, line and column of a place: a node stands for its position, and a stretch starts
where its first point is. -/
def locate (place : Value) : Outcome (Value × Value × Value) :=
  let place := match place with
    | .node n => n.position
    | v => v
  match place with
  | .none => .ok (.none, .none, .none)
  | .span start stop => .ok (.span start stop, start.line, start.column)
  | .point p => .ok (.none, p.line, p.column)
  | .error (.diagnostic d) => .ok (.none, d.line, d.column)
  | v => .error (.noAttribute ("'" ++ v.typeName ++ "' object has no attribute 'line'"))

/-- The source and the rule that an origin names: the texts before and after its first colon. -/
def splitOrigin (origin : Value) : Outcome (Value × Value) :=
  if !origin.truthy then .ok (.none, .none)
  else
    match origin with
    | .str s =>
      let cs := s.toList
      if cs.contains ':' then
        .ok (.str (String.ofList (cs.takeWhile (· != ':'))),
          .str (String.ofList ((cs.dropWhile (· != ':')).drop 1)))
      else .ok (origin, .none)
    | .list items | .sequence _ items | .set items =>
      if Value.among (.str ":") items then .error (unsplittable origin) else .ok (origin, .none)
    | .mapping _ entries =>
      if Entries.contains entries (.str ":") then .error (unsplittable origin)
      else .ok (origin, .none)
    | v => .error (.wrongType ("argument of type '" ++ v.typeName ++ "' is not iterable"))
where
  unsplittable (v : Value) : Fault :=
    .noAttribute ("'" ++ v.typeName ++ "' object has no attribute 'split'")

/-- A diagnostic about a place. -/
def make (reason place origin fatal file : Value) : Outcome Diagnostic := do
  let (position, line, column) ← locate place
  let (source, rule) ← splitOrigin origin
  return ⟨reason, fatal, file, position, line, column, source, rule⟩

end DiagnosticOf

end TextPipeline
