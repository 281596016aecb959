import TextPipeline.Logging.Record
import TextPipeline.Text.Blank
import TextPipeline.Text.Case
import TextPipeline.Value.Number

/-! Progress of a pipeline: what has begun, been done, finished or failed. -/

namespace TextPipeline

/-- An event on the way of a document through a pipeline. -/
structure Progress where
  kind : String
  message : String
  current : Value
  total : Value
  /-- Further facts about the event. -/
  facts : Entries

namespace Progress

/-- An event with its place in a sequence of known length. -/
def at_ (kind message : String) (current total : Nat) (facts : Entries) : Progress :=
  ⟨kind, message, .nat current, .nat total, facts⟩

/-- The text of an event: its kind in capitals, the message, and the place if the length of the
sequence is known. -/
def text (p : Progress) : Outcome String := do
  let known ← p.total.isAbove 0
  let place ← if known then do pure ("(" ++ (← p.current.render) ++ "/" ++ (← p.total.render) ++ ")")
    else pure ""
  let line := "[" ++ Text.upper p.kind ++ "] " ++ p.message ++ " " ++ place
  return String.ofList (Text.strip line.toList)

/-- The logger of this part. -/
def logger : String := "syntaxflow.progress"

/-- What becomes of a fault of an observer: errors are logged if what they say can be read, and requests
to stop go on. -/
def observed (fault : Option Fault) : Logged Unit :=
  match fault with
  | none => pure ()
  | some f =>
    if f.isError then do
      let said ← Logged.ofOutcome f.render
      Logged.log .warning logger ("Progress callback failed: " ++ said)
    else throw f

end Progress

end TextPipeline
