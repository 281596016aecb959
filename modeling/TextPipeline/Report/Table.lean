import TextPipeline.Report.Tally
import TextPipeline.Text.Line
import TextPipeline.Text.Wrap

/-! Reports on files: a table of the diagnostics of each file, and a line that counts them. -/

namespace TextPipeline.Report

/-- The style in which a severity is shown. -/
def style : Severity → String
  | .error => "bold red"
  | .warning => "yellow"
  | .info => "blue"

/-- Where a diagnostic is: a stretch, or else a line and a column from one. -/
def location (d : Diagnostic) : String :=
  if d.position.isNone then part d.line ++ ":" ++ part d.column else d.position.text
where
  part (v : Value) : String := if v.truthy then v.text else "1"

/-- The rule that led to a diagnostic, with its source. -/
def rule (d : Diagnostic) : Value :=
  if d.source.truthy && d.rule.truthy then .str (d.source.text ++ ":" ++ d.rule.text)
  else if d.source.truthy then d.source
  else if d.rule.truthy then d.rule
  else .str ""

/-- The text of a cell. Only a text can be shown, and what is absent is shown as an empty one. -/
def cell (v : Value) : Outcome String :=
  match v with
  | .str s => .ok s
  | .none => .ok ""
  | v =>
    .error (.raised "NotRenderableError" [.str ("unable to render " ++ v.typeName ++
      "; a string or other renderable object is required")])

/-- A line of a table. -/
structure Row where
  location : String
  severity : Severity
  message : String
  rule : String

namespace Row

def ofDiagnostic (d : Diagnostic) : Outcome Row := do
  return ⟨Report.location d, d.severity, ← cell d.reason, ← cell (Report.rule d)⟩

/-- The cells of a line as they are shown. -/
def cells (r : Row) : List String := [r.location, r.severity.name, r.message, r.rule]

/-- The cells of a line with the style of its severity marked. -/
def marked (r : Row) : List String :=
  [r.location, "[" ++ style r.severity ++ "]" ++ r.severity.name ++ "[/]", r.message, r.rule]

end Row

/-- The diagnostics of one file. -/
structure Table where
  title : String
  rows : List Row

namespace Table

/-- The headings of the columns. -/
def columns : List String := ["Location", "Severity", "Message", "Rule"]

def ofFile (f : File) : Outcome Table := do
  return ⟨f.label, ← f.messages.mapM Row.ofDiagnostic⟩

/-- What becomes of a cell that is too wide for its column. -/
def overflows : List Text.Overflow := [.abridged, .abridged, .wrapped, .abridged]

/-- Whether a character is left out: the bell, and those that would move where the next is shown. -/
def isLeftOut (c : Char) : Bool :=
  c.toNat == 7 || c.toNat == 8 || (11 ≤ c.toNat && c.toNat ≤ 13)

/-- The lines in which a text is shown in `columns`. -/
def linesOf (columns : Nat) (overflow : Text.Overflow) (s : String) : List (List Char) :=
  Text.fit columns overflow (s.toList.filter fun c => !isLeftOut c)

/-- The width of a cell: that of its widest line, and a blank on each side. -/
def cellWidth (s : String) : Nat :=
  let lines := Text.pieces Text.isLineBreak (s.toList.filter fun c => !isLeftOut c)
  lines.foldl (fun w line => max w (Text.width line)) 0 + 2

/-- The number of columns that the lines between the cells take. -/
def bars : Nat := columns.length - 1

/-- A quotient rounded to the nearest number. A half goes to the even neighbour. -/
def roundDiv (n d : Nat) : Nat :=
  let q := n / d
  if 2 * (n % d) < d || (2 * (n % d) == d && q % 2 == 0) then q else q + 1

/-- Takes `excess` in even shares from the widths that are not zero, of which there are `sharing`.
No share is more than the width. -/
def takeEvenly (excess sharing : Nat) : List Nat → List Nat
  | [] => []
  | w :: rest =>
    if w = 0 then 0 :: takeEvenly excess sharing rest
    else
      let share := min w (roundDiv excess sharing)
      (w - share) :: takeEvenly (excess - share) (sharing - 1) rest

/-- Widths that together take no more than `room`: columns that can wrap give way first, and then
all of them. -/
def shrink (room : Nat) (widths : List Nat) : List Nat :=
  let excess := widths.foldl (· + ·) 0 - room
  let widths := List.zipWith (fun o w => if o = .wrapped then w - excess else w) overflows widths
  takeEvenly (widths.foldl (· + ·) 0 - room) (widths.filter (· ≠ 0)).length widths

/-- The width of a column is that of its widest cell, the heading included, if a page has room for
all of them. -/
def widths (t : Table) (page : Nat) : List Nat :=
  let room := page - bars
  let widest := t.rows.foldl (fun ws r => List.zipWith (fun w s => max w (cellWidth s)) ws r.cells)
    (columns.map cellWidth)
  shrink room (widest.map (min room))

/-- A text filled up with blanks. -/
def pad (width : Nat) (s : List Char) : List Char :=
  s ++ List.replicate (width - Text.width s) ' '

/-- A line of a cell, between two blanks. -/
def padCell (width : Nat) (s : List Char) : String :=
  String.ofList (if width < 2 then pad width [] else ' ' :: pad (width - 2) s ++ [' '])

/-- The line below the headings. -/
def rule (widths : List Nat) : String :=
  String.intercalate "╇" (widths.map fun w => String.ofList (List.replicate w '━'))

/-- The lines of a row, as many as its highest cell has. -/
def rowLines (bar : String) (widths : List Nat) (cells : List String) : List String :=
  let parts := List.zipWith (fun w (o, s) => linesOf (w - 2) o s) widths (overflows.zip cells)
  let height := parts.foldl (fun h lines => max h lines.length) 1
  (List.range height).map fun i =>
    String.intercalate bar (List.zipWith (fun w lines => padCell w (lines.getD i [])) widths parts)

/-- A table as lines: the title, the headings and the rows. -/
def lines (t : Table) (page : Nat) : List String :=
  let ws := t.widths page
  let width := ws.foldl (· + ·) bars
  (linesOf width .divided t.title).map (fun line => String.ofList (pad width line)) ++
    rowLines "┃" ws columns ++ rule ws :: t.rows.flatMap fun r => rowLines "│" ws r.cells

end Table

/-- The report on files, in which those without diagnostics have no table. It fits a page of `page`
columns. If it is coloured, the line at the end is green when there is nothing to say. -/
def format (files : List File) (page : Nat) (coloured : Bool) : Outcome String := do
  let tables ← (files.filter fun f => !f.messages.isEmpty).mapM Table.ofFile
  let summary := (Table.linesOf page .divided (Tally.ofFiles files).summary).map String.ofList
  let summary := if coloured && tables.isEmpty then summary.map ("\x1b[32m" ++ · ++ "\x1b[0m")
    else summary
  let lines := tables.flatMap (fun t => t.lines page ++ [""]) ++ summary
  return String.join (lines.map (· ++ "\n"))

end TextPipeline.Report
