import TextPipeline.File.Basic
import TextPipeline.Grammar.Plain
import TextPipeline.Settings.Basic
import TextPipeline.Tree.Json

/-! The two ends of a pipeline: parsers turn a file into a tree, and compilers a tree into text. -/

namespace TextPipeline.Grammar

/-- A parser: how it is called, the settings it expects, and what it makes of a file. It is given
the data of the processor, if it works for one. -/
structure Parser where
  name : String
  settings : SettingsKind
  parse : Value → File → Option Value → Logged Value
  /-- Whether its trees hold parts of the data of the processor. -/
  holdsData : Bool := false

/-- A compiler: how it is called, the settings it expects, and what it makes of a tree. It is given
the data of the processor, if it works for one. -/
structure Compiler where
  name : String
  settings : SettingsKind
  compile : Value → Value → Option Value → Logged Value

/-- The settings of a parser, made from what it is given. -/
def Parser.configure (p : Parser) (given : Value) : Logged Value :=
  Settings.coerce given p.settings p.name [.compiler]

/-- The settings of a compiler, made from what it is given. -/
def Compiler.configure (c : Compiler) (given : Value) : Logged Value :=
  Settings.coerce given c.settings c.name [.parser]

/-- The parser of plain text. -/
def plainParser : Parser where
  name := "PlainTextParser"
  settings := .plainParser
  parse settings file _ := do
    let text ← file.text
    let s := text.toList
    let paragraphs := (Settings.field settings "paragraphs").truthy
    let tree := Plain.parse paragraphs (Settings.field settings "positions").truthy s
    if paragraphs then
      Logged.log .debug "syntaxflow.parsers.plaintext"
        ("Parsed " ++ toString s.length ++ " characters into " ++
          toString (Plain.chunks s).length ++ " top-level nodes")
    return .node tree

/-- The parser of trees in JSON. -/
def jsonParser : Parser where
  name := "AstJsonParser"
  settings := .jsonParser
  parse settings file _ := do
    let tree ← Tree.ofJson (← file.text)
    if (Settings.field settings "positions").truthy then return tree
    else return Tree.dropPositions tree

/-- The compiler to plain text. -/
def plainCompiler : Compiler where
  name := "PlainTextCompiler"
  settings := .plainCompiler
  compile settings tree _ := do
    let items ← (Settings.field settings "skip_types").iterate
    let skip ← (items.mapM Value.asKey : Outcome (List Value))
    return .str (Settings.finalize settings (← Plain.compile skip tree))

/-- The compiler to JSON. -/
def jsonCompiler : Compiler where
  name := "AstJsonCompiler"
  settings := .jsonCompiler
  compile settings tree _ := do
    let kept ← if (Settings.field settings "include_positions").truthy then pure tree
      else do
        let _ ← (Tree.nodes tree : Outcome (List Node))
        pure (Tree.dropPositions tree)
    return .str (Settings.finalize settings
      (← Tree.toJson (Settings.field settings "indent") kept))

/-- The parsers and compilers that can be named. -/
structure Endpoints where
  parsers : List Parser
  compilers : List Compiler

/-- The ends that come with the library. -/
def Endpoints.standard : Endpoints :=
  ⟨[plainParser, jsonParser], [plainCompiler, jsonCompiler]⟩

/-- The parser of a name. -/
def Endpoints.parser? (e : Endpoints) (name : String) : Option Parser :=
  e.parsers.find? fun p => p.name == name

/-- The compiler of a name. -/
def Endpoints.compiler? (e : Endpoints) (name : String) : Option Compiler :=
  e.compilers.find? fun c => c.name == name

/-- The parser that a value stands for. -/
def Endpoints.parserOf? (e : Endpoints) : Value → Option Parser
  | .callable name => e.parser? name
  | _ => none

/-- The compiler that a value stands for. -/
def Endpoints.compilerOf? (e : Endpoints) : Value → Option Compiler
  | .callable name => e.compiler? name
  | _ => none

/-- The fault of using something as an end of a pipeline that is none. -/
def notEndpoint (part : String) : Fault :=
  .noAttribute ("'NoneType' object has no attribute '" ++ part ++ "'")

/-- The settings of a parser and the tree of a file. -/
def Parser.run (p : Parser) (given : Value) (file : File) (data : Option Value) :
    Logged (Value × Value) := do
  let settings ← p.configure given
  return (settings, ← p.parse settings file data)

/-- The settings of a compiler and the text of a tree. -/
def Compiler.run (c : Compiler) (given tree : Value) (data : Option Value) :
    Logged (Value × Value) := do
  let settings ← c.configure given
  return (settings, ← c.compile settings tree data)

end TextPipeline.Grammar
