import TextPipeline.Logging.Record
import TextPipeline.Text.Case
import TextPipeline.Value.Display

/-! The levels of log records as numbers and by name. -/

namespace TextPipeline.Level

/-- The levels by name; some have two. -/
def numbers : List (String × Int) :=
  [("CRITICAL", 50), ("FATAL", 50), ("ERROR", 40), ("WARN", 30), ("WARNING", 30), ("INFO", 20),
    ("DEBUG", 10), ("NOTSET", 0)]

/-- The name of the level with a number. -/
def nameOf (number : Int) : String :=
  match number with
  | 50 => "CRITICAL"
  | 40 => "ERROR"
  | 30 => "WARNING"
  | 20 => "INFO"
  | 10 => "DEBUG"
  | 0 => "NOTSET"
  | n => "Level " ++ toString n

/-- The level that a value stands for: a number, or a name in any case. All else stands for
information. -/
def resolve (v : Value) : Value :=
  match v with
  | .int _ | .bool _ => v
  | v => .int ((numbers.lookup (Text.upper v.text)).getD Level.info.number)

/-- The number of a resolved level. -/
def numberOf (v : Value) : Int :=
  match v with
  | .int n => n
  | .bool true => 1
  | _ => 0

end TextPipeline.Level
