import TextPipeline.Value.Basic

/-! Log records, and computations that log while they may fail. -/

namespace TextPipeline

/-- How important a log record is. -/
inductive Level where
  | debug
  | info
  | warning
  | error
  | critical
  deriving DecidableEq, Repr, Inhabited

namespace Level

/-- The number of a level; higher is more important. -/
def number : Level → Nat
  | .debug => 10
  | .info => 20
  | .warning => 30
  | .error => 40
  | .critical => 50

def name : Level → String
  | .debug => "DEBUG"
  | .info => "INFO"
  | .warning => "WARNING"
  | .error => "ERROR"
  | .critical => "CRITICAL"

end Level

/-- A line of a log. -/
structure LogRecord where
  level : Level
  logger : String
  text : String
  deriving DecidableEq, Repr, Inhabited

/-- A computation that logs and may fail; what was logged before a failure is kept. -/
abbrev Logged := ExceptT Fault (StateM (List LogRecord))

/-- Logs one record. -/
def Logged.log (level : Level) (logger text : String) : Logged Unit :=
  modify (· ++ [⟨level, logger, text⟩])

/-- An outcome without any record. -/
def Logged.ofOutcome {α : Type} : Outcome α → Logged α
  | .ok a => pure a
  | .error f => throw f

/-- The outcome of a computation and its records. -/
def Logged.result {α : Type} (x : Logged α) : Outcome α × List LogRecord :=
  StateT.run (ExceptT.run x) []

end TextPipeline
