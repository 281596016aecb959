import TextPipeline.Value.Basic

/-! Places in a text. The offsets at which its lines start are found once, and the line of an offset is
then searched among them. -/

namespace TextPipeline.Grammar

/-- Where `x` goes among the ordered numbers between `lo` and `hi`: after all that are not above it. -/
def bisectRight (xs : Array Nat) (x lo hi : Nat) : Nat :=
  if lo < hi then
    let mid := (lo + hi) / 2
    if x < xs.getD mid 0 then bisectRight xs x lo mid else bisectRight xs x (mid + 1) hi
  else lo
termination_by hi - lo
decreasing_by all_goals omega

/-- The offsets after the line feeds of a text that starts at `offset`. -/
def lineEnds (offset : Nat) : List Char → List Nat
  | [] => []
  | c :: rest =>
    if c == '\n' then (offset + 1) :: lineEnds (offset + 1) rest else lineEnds (offset + 1) rest

/-- What finds the places of a text. -/
structure Locator where
  lineStarts : Array Nat

namespace Locator

/-- What finds the places of `s`. -/
def ofText (s : List Char) : Locator :=
  ⟨(0 :: lineEnds 0 s).toArray⟩

/-- The place at an offset, with line and column from one. -/
def point (l : Locator) (offset : Nat) : Point :=
  let index := bisectRight l.lineStarts offset 0 l.lineStarts.size - 1
  ⟨.nat (index + 1), .nat (offset - l.lineStarts.getD index 0 + 1), .nat offset⟩

/-- The position between two offsets. -/
def position (l : Locator) (start stop : Nat) : Value :=
  .span (l.point start) (l.point stop)

end Locator

end TextPipeline.Grammar
