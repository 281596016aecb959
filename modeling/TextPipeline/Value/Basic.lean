import TextPipeline.Value.Moment

/-! Dynamic values. Plugins, settings and front matter exchange data whose shape is known only when
it is used; `Value` holds all of it, syntax tree nodes and errors included. -/

namespace TextPipeline

/-- The fields of a syntax tree node. A well-formed node has a text as its type, and a list of
nodes or a text as its content; a node may be edited into any other state, which `Tree.validate`
detects. -/
structure NodeOf (α : Type) where
  type : α
  children : α
  value : α
  data : α
  position : α

/-- A place in a document: line and column from one, and the offset from zero if known. -/
structure PointOf (α : Type) where
  line : α
  column : α
  offset : α

/-- A diagnostic about a document. `fatal` is true for an error, false for a warning and absent
for information. -/
structure DiagnosticOf (α : Type) where
  reason : α
  fatal : α
  file : α
  position : α
  line : α
  column : α
  source : α
  rule : α

/-- The kinds of settings that processors, parsers and compilers are configured with. -/
inductive SettingsKind where
  | base
  | processor
  | parser
  | compiler
  | plainParser
  | plainCompiler
  | jsonParser
  | jsonCompiler
  deriving DecidableEq, Repr, Inhabited

/-- The name under which a kind of settings is reported. -/
def SettingsKind.name : SettingsKind → String
  | .base => "CloneFrozenMixin"
  | .processor => "ProcessorOptions"
  | .parser => "BaseParserOptions"
  | .compiler => "BaseCompilerOptions"
  | .plainParser => "PlainTextParserOptions"
  | .plainCompiler => "PlainTextCompilerOptions"
  | .jsonParser => "AstJsonParserOptions"
  | .jsonCompiler => "AstJsonCompilerOptions"

/-- An object that a session keeps, so that several places can share it. Nodes, lists and mappings
are kept in one store, files, processors and factories each in one of their own. -/
inductive Handle where
  | node (id : Nat)
  | list (id : Nat)
  | dict (id : Nat)
  | file (id : Nat)
  | processor (id : Nat)
  | factory (id : Nat)
  deriving DecidableEq, Repr, Inhabited

/-- What is known of a type of collections besides the built-in ones. -/
structure CollectionType where
  name : String
  /-- How every collection of the type reads, if its text does not show the elements. -/
  shown : Option String
  /-- Whether a copy of a collection of the type can be made. -/
  copies : Bool
  /-- Whether a collection of the type can be a key. -/
  keys : Bool
  deriving DecidableEq, Repr, Inhabited

/-- The sequences besides lists: fixed ones, and those of other types, such as ranges, queues and views
of octets. -/
inductive SequenceKind where
  | tuple
  | other (type : CollectionType)
  deriving DecidableEq, Repr, Inhabited

/-- The mappings: dictionaries, and those of other types, such as views that cannot be written to. -/
inductive MappingKind where
  | dict
  | other (type : CollectionType)
  deriving DecidableEq, Repr, Inhabited

mutual

/-- A dynamic value. -/
inductive Value where
  | none
  | bool (b : Bool)
  | int (n : Int)
  | float (x : Float)
  | str (s : String)
  | bytes (octets : List UInt8)
  | list (items : List Value)
  | sequence (kind : SequenceKind) (items : List Value)
  | set (items : List Value)
  /-- Entries in the order in which their keys were first given. -/
  | mapping (kind : MappingKind) (entries : List (Value × Value))
  | moment (m : Moment)
  | node (n : NodeOf Value)
  | point (p : PointOf Value)
  /-- A stretch of a document: `stop` is the point after its last character. -/
  | span (start stop : PointOf Value)
  | error (fault : Fault)
  | settings (kind : SettingsKind) (fields : List (String × Value))
  /-- A function known by its name; there is one of each name. -/
  | callable (name : String)
  /-- A function that does nothing when called. No two of them are the same. -/
  | anonymous
  /-- A result that is still to come. -/
  | awaitable (id : Nat)
  | handle (h : Handle)
  /-- A file as it reads: its path, its contents, and the number of diagnostics about it. -/
  | document (path contents : Value) (reports : Nat)
  /-- A value of which only the name of its type and its text are known. No two of them are the
  same. -/
  | other (typeName shown : String)
  deriving Inhabited

/-- What can go wrong. The first constructors are the failures of this library; `raised` is an
error of the surroundings, known by its kind and arguments. -/
inductive Fault where
  | general (message : Value) (origin : Option Fault)
  | validation (message : Value) (parameter : Option String) (origin : Option Fault)
  | invalidOptions (component expected received : String)
  | configuration (message : Value) (origin : Option Fault)
  /-- A processor lacks a parser; `said` is what the fault says about it. -/
  | missingParser (processor : Value) (said : String)
  /-- A processor lacks a compiler; `said` is what the fault says about it. -/
  | missingCompiler (processor : Value) (said : String)
  | missingTree (message : Value) (origin : Option Fault)
  | asyncTransformer (message : Value) (transformer : Option String)
  | pluginAttach (message : Value) (plugin : Option String) (origin : Option Fault)
  | transform (message : Value) (transformer : Option String) (origin : Option Fault)
  | parsing (message : Value) (stage : Option String) (origin : Option Fault)
  | rendering (message : Value) (stage : Option String) (origin : Option Fault)
  | diagnostic (d : DiagnosticOf Value)
  /-- The octets from `start` up to `stop` are not UTF-8. -/
  | undecodable (octets : List UInt8) (start stop : Nat) (reason : String)
  | raised (kind : String) (args : List Value)
  deriving Inhabited

end

/-- A sequence of fixed length. -/
@[match_pattern]
abbrev Value.tuple (items : List Value) : Value := .sequence .tuple items

/-- A dictionary. -/
@[match_pattern]
abbrev Value.dict (entries : List (Value × Value)) : Value := .mapping .dict entries

/-- A syntax tree node. -/
abbrev Node := NodeOf Value

/-- A place in a document. -/
abbrev Point := PointOf Value

/-- A diagnostic about a document. -/
abbrev Diagnostic := DiagnosticOf Value

/-- The outcome of a computation that may fail. -/
abbrev Outcome (α : Type) := Except Fault α

namespace Fault

/-- The parameter of the given name does not satisfy a rule. -/
def violation (parameter message : String) : Fault :=
  .validation (.str message) (some parameter) none

/-- An operation was applied to a value of the wrong type. -/
def wrongType (message : String) : Fault := .raised "TypeError" [.str message]

/-- A value lacks an attribute. -/
def noAttribute (message : String) : Fault := .raised "AttributeError" [.str message]

/-- A value is outside the range of an operation. -/
def badValue (message : String) : Fault := .raised "ValueError" [.str message]

/-- The name of the kind of a fault. -/
def kind : Fault → String
  | .general .. => "SyntaxflowError"
  | .validation .. => "ValidationError"
  | .invalidOptions .. => "InvalidOptionsError"
  | .configuration .. => "ConfigurationError"
  | .missingParser .. => "MissingParserError"
  | .missingCompiler .. => "MissingCompilerError"
  | .missingTree .. => "MissingTreeError"
  | .asyncTransformer .. => "AsyncTransformerError"
  | .pluginAttach .. => "PluginAttachError"
  | .transform .. => "TransformError"
  | .parsing .. => "ParsingError"
  | .rendering .. => "RenderingError"
  | .diagnostic .. => "VFileMessage"
  | .undecodable .. => "UnicodeDecodeError"
  | .raised kind _ => kind

/-- The fault that led to this one. -/
def origin? : Fault → Option Fault
  | .general _ o | .validation _ _ o | .configuration _ o | .missingTree _ o
  | .pluginAttach _ _ o | .transform _ _ o | .parsing _ _ o | .rendering _ _ o => o
  | _ => none

/-- The parameter that a violation is about. -/
def parameter? : Fault → Option String
  | .validation _ p _ => p
  | .invalidOptions .. => some "settings"
  | _ => none

/-- The next more general kind of a kind of error of the surroundings, up to `Exception` for errors
and `BaseException` for requests to stop. -/
def general? : String → Option String
  | "Exception" | "Abort" | "CancelledError" | "KeyboardInterrupt" | "SystemExit"
  | "GeneratorExit" => some "BaseException"
  | "BaseException" => none
  | "SyntaxflowError" => some "Exception"
  | "ValidationError" | "ConfigurationError" | "PluginAttachError" | "TransformError"
  | "ParsingError" | "RenderingError" | "VFileMessage" => some "SyntaxflowError"
  | "InvalidOptionsError" => some "ValidationError"
  | "MissingParserError" | "MissingCompilerError" | "MissingTreeError"
  | "AsyncTransformerError" => some "ConfigurationError"
  | "KeyError" | "IndexError" => some "LookupError"
  | "ZeroDivisionError" | "OverflowError" | "FloatingPointError" => some "ArithmeticError"
  | "UnicodeDecodeError" | "UnicodeEncodeError" | "UnicodeTranslateError" => some "UnicodeError"
  | "UnicodeError" | "JSONDecodeError" | "TOMLDecodeError" => some "ValueError"
  | "FileNotFoundError" | "PermissionError" | "FileExistsError" | "IsADirectoryError"
  | "NotADirectoryError" | "TimeoutError" | "ConnectionError" | "InterruptedError"
  | "BlockingIOError" | "ChildProcessError" | "ProcessLookupError" => some "OSError"
  | "NotImplementedError" | "RecursionError" => some "RuntimeError"
  | "ModuleNotFoundError" => some "ImportError"
  | "UnboundLocalError" => some "NameError"
  | "ScannerError" | "ParserError" | "ComposerError" | "ConstructorError" => some "MarkedYAMLError"
  | "MarkedYAMLError" | "ReaderError" => some "YAMLError"
  | "IndentationError" => some "SyntaxError"
  | "TabError" => some "IndentationError"
  | _ => some "Exception"

/-- A kind with all more general kinds, most special first. -/
def ancestry : Nat → String → List String
  | 0, _ => []
  | fuel + 1, kind => kind :: ((general? kind).map (ancestry fuel)).getD []

/-- Whether a fault is of a kind or of one more special than it. -/
def isKind (f : Fault) (kind : String) : Bool :=
  (ancestry 8 f.kind).contains kind

/-- Whether a fault is an error, as opposed to a request to stop. -/
def isError (f : Fault) : Bool :=
  f.isKind "Exception"

end Fault

namespace Value

/-- The name of a value's type. -/
def typeName : Value → String
  | .none => "NoneType"
  | .bool _ => "bool"
  | .int _ => "int"
  | .float _ => "float"
  | .str _ => "str"
  | .bytes _ => "bytes"
  | .list _ => "list"
  | .sequence .tuple _ => "tuple"
  | .sequence (.other type) _ => type.name
  | .set _ => "set"
  | .mapping .dict _ => "dict"
  | .mapping (.other type) _ => type.name
  | .moment (.date _) => "date"
  | .moment (.time _) => "time"
  | .moment (.dateTime ..) => "datetime"
  | .node _ => "Node"
  | .point _ => "Point"
  | .span .. => "Position"
  | .error f => f.kind
  | .settings k _ => k.name
  | .callable _ | .anonymous => "function"
  | .awaitable _ => "coroutine"
  | .handle (.node _) => "Node"
  | .handle (.list _) => "list"
  | .handle (.dict _) => "dict"
  | .handle (.file _) => "VFile"
  | .handle (.processor _) => "Processor"
  | .handle (.factory _) => "ProcessorFactory"
  | .document .. => "VFile"
  | .other t _ => t

def isNone : Value → Bool
  | .none => true
  | _ => false

/-- Whether a value stands for a node, kept by a session or not. -/
def isNode : Value → Bool
  | .node _ | .handle (.node _) => true
  | _ => false

/-- Whether a value can be called. -/
def isCallable : Value → Bool
  | .callable _ | .anonymous | .handle (.factory _) => true
  | _ => false

/-- The name of a function. -/
def functionName? : Value → Option String
  | .callable name => some name
  | .anonymous => some "anonymous"
  | _ => Option.none

/-- Whether a value counts as true: anything but absence, falsehood, zero and emptiness. -/
def truthy : Value → Bool
  | .none => false
  | .bool b => b
  | .int n => n != 0
  | .float x => x != 0.0
  | .str s => s != ""
  | .bytes octets => !octets.isEmpty
  | .list items | .sequence _ items | .set items => !items.isEmpty
  | .mapping _ entries => !entries.isEmpty
  | _ => true

/-- The entries of a mapping. -/
def entries? : Value → Option (List (Value × Value))
  | .mapping _ entries => some entries
  | _ => Option.none

/-- An absent value for `none`. -/
def ofOption : Option Value → Value
  | some v => v
  | Option.none => .none

/-- A text, or an absent value. -/
def ofString? (s : Option String) : Value :=
  ofOption (s.map .str)

/-- A mapping from texts. -/
def record (fields : List (String × Value)) : Value :=
  .dict (fields.map fun (k, v) => (.str k, v))

/-- A natural number. -/
def nat (n : Nat) : Value := .int n

end Value

end TextPipeline
