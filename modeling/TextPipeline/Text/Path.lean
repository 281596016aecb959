/-! Slash-separated paths and their parts. -/

namespace TextPipeline.Text

/-- A path: its root, which is empty, one slash or exactly two, and its components, none of them
empty or a single dot. -/
structure Path where
  root : String
  parts : List String
  deriving DecidableEq, Repr

namespace Path

/-- The path that a text denotes. -/
def ofString (s : String) : Path :=
  let cs := s.toList
  let slashes := (cs.takeWhile (· == '/')).length
  let root := if slashes == 0 then "" else if slashes == 2 then "//" else "/"
  ⟨root, (s.splitOn "/").filter fun part => part != "" && part != "."⟩

/-- The text of a path; a path without root and components is the current directory. -/
def toString (p : Path) : String :=
  let text := p.root ++ String.intercalate "/" p.parts
  if text == "" then "." else text

/-- The last component, or the empty text if there is none. -/
def name (p : Path) : String :=
  p.parts.getLast?.getD ""

/-- The position of the dot that starts the extension: the last dot of the name, if it neither
starts nor ends the name. -/
def dot? (p : Path) : Option Nat :=
  let cs := p.name.toList
  let after := (cs.reverse.takeWhile (· != '.')).length
  if after < cs.length && 0 < cs.length - 1 - after && 0 < after then some (cs.length - 1 - after)
  else none

/-- The extension with its dot, or the empty text. -/
def extension (p : Path) : String :=
  match p.dot? with
  | some i => String.ofList (p.name.toList.drop i)
  | none => ""

/-- The name without its extension. -/
def stem (p : Path) : String :=
  match p.dot? with
  | some i => String.ofList (p.name.toList.take i)
  | none => p.name

/-- The path without its last component. -/
def parent (p : Path) : Path :=
  ⟨p.root, p.parts.dropLast⟩

end Path

end TextPipeline.Text
