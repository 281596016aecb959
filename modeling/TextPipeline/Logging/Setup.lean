import TextPipeline.Logging.Level
import TextPipeline.Text.Quoted

/-! Loggers and where their records go. The names of loggers are divided by dots into a hierarchy
with the root above all others. A record goes to the handlers of its logger and of those above it,
as far as records are passed on. -/

namespace TextPipeline.Logging

/-- A record on its way to the handlers. -/
structure Entry where
  level : Int
  logger : String
  text : String

/-- How records are written. -/
inductive Style where
  /-- The name of the level and the text. -/
  | plain
  /-- Also the time and the name of the logger. -/
  | traced
  /-- The text alone. -/
  | bare
  deriving DecidableEq, Repr, Inhabited

namespace Style

/-- The pattern by which a style is reported. -/
def pattern : Style → String
  | .plain => "%(levelname)s: %(message)s"
  | .traced => "[%(asctime)s] [%(levelname)s] [%(name)s] %(message)s"
  | .bare => "%(message)s"

/-- The pattern of times by which a style is reported. -/
def timePattern : Style → Option String
  | .traced => some "%Y-%m-%d %H:%M:%S"
  | _ => none

/-- The line that a record is written as; `time` stands for the time. -/
def line (style : Style) (time : String) (e : Entry) : String :=
  match style with
  | .plain => Level.nameOf e.level ++ ": " ++ e.text ++ "\n"
  | .traced =>
    "[" ++ time ++ "] [" ++ Level.nameOf e.level ++ "] [" ++ e.logger ++ "] " ++ e.text ++ "\n"
  | .bare => e.text ++ "\n"

end Style

/-- Where a handler writes. -/
inductive Sink where
  /-- The console, as it was when the handler was made. -/
  | console (id : Nat)
  /-- The console with colours, which is not observed. -/
  | styled
  | file (path : String)
  deriving DecidableEq, Repr, Inhabited

/-- The name of a kind of handler. -/
def Sink.kind : Sink → String
  | .console _ => "StreamHandler"
  | .styled => "RichHandler"
  | .file _ => "FileHandler"

/-- Writes records of at least its level. -/
structure Handler where
  sink : Sink
  level : Value
  style : Style

/-- A logger that was configured. The level zero leaves the decision to the logger above. -/
structure Logger where
  level : Value
  handlers : List Handler
  /-- Whether records are passed on to the logger above. -/
  passesOn : Bool

/-- All loggers by name, the files that were written, and the consoles with what was printed on
them. The root has the empty name. -/
structure Loggers where
  loggers : List (String × Logger)
  files : List (String × String)
  consoles : List String
  time : String

namespace Loggers

/-- A logger that was never configured. -/
def fresh (name : String) : Logger :=
  ⟨.int (if name == "" then Level.warning.number else 0), [], true⟩

/-- No logger is configured; `time` is what is written for the time. -/
def empty (time : String) : Loggers := ⟨[], [], [], time⟩

def logger (s : Loggers) (name : String) : Logger :=
  (s.loggers.lookup name).getD (fresh name)

def setLogger (s : Loggers) (name : String) (l : Logger) : Loggers :=
  { s with loggers := (name, l) :: s.loggers.filter fun e => e.1 != name }

/-- The name of a logger as it is written. -/
def shownName (name : String) : String := if name == "" then "root" else name

/-- The name of a logger, where the root may also be called by its written name. -/
def nameOf (given : String) : String := if given == "root" then "" else given

/-- The part of a name before its last dot. -/
def parent (name : List Char) : List Char :=
  ((name.reverse.dropWhile (· != '.')).drop 1).reverse

/-- The names of a logger and of those above it, up to the root. -/
def lineage : Nat → List Char → List String
  | 0, _ => [""]
  | _ + 1, [] => [""]
  | n + 1, name => String.ofList name :: lineage n (parent name)

/-- The names of a logger and of those above it. -/
def above (name : String) : List String := lineage name.length name.toList

/-- The level that decides about the records of a logger: that of the first one in the line that
has one. -/
def effectiveLevel (s : Loggers) (name : String) : Int :=
  let levels := (above name).map fun n => Level.numberOf (s.logger n).level
  (levels.find? (· != 0)).getD 0

/-- The handlers of a line of loggers, as far as records are passed on. -/
def handlersAlong (s : Loggers) : List String → List Handler
  | [] => []
  | name :: rest =>
    let l := s.logger name
    l.handlers ++ if l.passesOn then handlersAlong s rest else []

/-- Adds a line to a file. -/
def appendTo (path line : String) : List (String × String) → List (String × String)
  | [] => [(path, line)]
  | (p, content) :: rest =>
    if p == path then (p, content ++ line) :: rest else (p, content) :: appendTo path line rest

/-- Writes a line. -/
def write (s : Loggers) (sink : Sink) (line : String) : Loggers :=
  match sink with
  | .console id => { s with consoles := s.consoles.modify id (· ++ line) }
  | .styled => s
  | .file path => { s with files := appendTo path line s.files }

/-- Hands a record to a handler. -/
def handle (s : Loggers) (e : Entry) (h : Handler) : Loggers :=
  if Level.numberOf h.level ≤ e.level then s.write h.sink (h.style.line s.time e) else s

/-- Logs a record. Where there is no handler at all, warnings go to the console that is present. -/
def log (s : Loggers) (name : String) (level : Int) (text : String) : Loggers :=
  if level ≤ 0 || level < s.effectiveLevel name then s
  else
    let e : Entry := ⟨level, shownName name, text⟩
    match s.handlersAlong (above name) with
    | [] =>
      if (Level.warning.number : Int) ≤ level then
        s.write (.console (s.consoles.length - 1)) (Style.bare.line s.time e)
      else s
    | handlers => handlers.foldl (fun s h => s.handle e h) s

/-- Why a file cannot be opened: its directory is missing, or is a file. -/
def openFault (s : Loggers) (path : String) (isRoom : String → Bool) : Option String :=
  let directory := String.ofList ((path.toList.reverse.dropWhile (· != '/')).drop 1).reverse
  let quoted := Text.quoted path
  if isRoom path then some ("[Errno 21] Is a directory: " ++ quoted)
  else if isRoom directory then none
  else if (s.files.lookup directory).isSome then some ("[Errno 20] Not a directory: " ++ quoted)
  else some ("[Errno 2] No such file or directory: " ++ quoted)

/-- How a logger is to be configured. -/
structure Request where
  level : Value
  /-- A file that receives a copy of every record, if it is not empty. -/
  file : String
  traced : Bool
  coloured : Bool
  logger : String

/-- Adds a handler that writes to a file, or logs why that cannot be. -/
def addFile (s : Loggers) (r : Request) (handler : Handler) (isRoom : String → Bool) : Loggers :=
  let name := nameOf r.logger
  match s.openFault r.file isRoom with
  | some reason =>
    s.log name Level.warning.number ("Could not create log file " ++ r.file ++ ": " ++ reason)
  | none =>
    let s := { s with files := appendTo r.file "" s.files }
    let l := s.logger name
    (s.setLogger name { l with handlers := l.handlers ++ [handler] }).log name Level.info.number
      ("Logging to file: " ++ r.file)

/-- Configures a logger anew on a new console: its former handlers are replaced, and its records
are not passed on unless it is the root. `isRoom` says which directories there are. -/
def configure (s : Loggers) (r : Request) (isRoom : String → Bool) : Loggers :=
  let name := nameOf r.logger
  let level := Level.resolve r.level
  let style : Style := if r.traced then .traced else .plain
  let console : Handler := if r.coloured then ⟨.styled, level, .bare⟩
    else ⟨.console s.consoles.length, level, style⟩
  let s := { s with consoles := s.consoles ++ [""] }
  let s := s.setLogger name { s.logger name with level := level, handlers := [console] }
  let s := if r.file == "" then s else s.addFile r ⟨.file r.file, level, style⟩ isRoom
  s.setLogger name { s.logger name with passesOn := r.logger == "" }

end Loggers

end TextPipeline.Logging
