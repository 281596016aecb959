import TextPipeline.File.Basic

/-! How many diagnostics of each severity files have. -/

namespace TextPipeline.Report

/-- A count for each severity. -/
structure Tally where
  error : Int
  warning : Int
  info : Int
  deriving DecidableEq, Repr, Inhabited

namespace Tally

def zero : Tally := ⟨0, 0, 0⟩

/-- The count of a severity. -/
def count (t : Tally) : Severity → Int
  | .error => t.error
  | .warning => t.warning
  | .info => t.info

/-- One more of a severity. -/
def add (t : Tally) : Severity → Tally
  | .error => { t with error := t.error + 1 }
  | .warning => { t with warning := t.warning + 1 }
  | .info => { t with info := t.info + 1 }

/-- The diagnostics of files, counted. -/
def ofFiles (files : List File) : Tally :=
  (files.flatMap (·.messages)).foldl (fun t d => t.add d.severity) zero

/-- The severities, most serious first. -/
def severities : List Severity := [.error, .warning, .info]

/-- The name of a severity beside a count. -/
def label (severity : Severity) (count : Value) : String :=
  if count.equals (.int 1) || severity == .info then severity.name else severity.name ++ "s"

/-- The counts of severities that are not zero, in a line. -/
def summaryOf (count : Severity → Value) : String :=
  let counted := severities.filter fun s => (count s).truthy
  if counted.isEmpty then "no issues found"
  else commaSeparated (counted.map fun s => (count s).text ++ " " ++ label s (count s))

/-- The counts that are not zero, in a line. -/
def summary (t : Tally) : String :=
  summaryOf fun s => .int (t.count s)

end Tally

end TextPipeline.Report
