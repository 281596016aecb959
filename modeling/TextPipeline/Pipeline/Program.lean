import TextPipeline.File.Basic
import TextPipeline.Plugin.Batch
import TextPipeline.Transform.Resolution

/-! Plugins as programs. A transformer is given by what it does when it sees a tree and a file, and
an attacher by what it does when it sees options and the data of a processor; both are lists of
steps that are carried out in order. -/

namespace TextPipeline.Pipeline

open TextPipeline.Plugin TextPipeline.Transform

/-- How a transformer is called and how it answers. -/
inductive Style where
  | plain
  | next
  | nextDefault
  | variadic
  | keywordNext
  | object
  | objectNext
  | coroutine
  | coroutineNext
  | awaitable
  | future
  deriving DecidableEq, Repr, Inhabited

namespace Style

/-- The parameters of transformers of a style. -/
def parameters : Style → List ParameterKind
  | .next | .nextDefault | .objectNext | .coroutineNext => [.positional, .positional, .positional]
  | .variadic => [.positional, .variadic]
  | .keywordNext => [.positional, .positional, .keyword]
  | _ => [.positional, .positional]

/-- Whether transformers of a style are handed the way to pass on their result. -/
def takesNext (s : Style) : Bool := acceptsNext s.parameters

/-- The name of a transformer of a style. Those that are objects go by the name of their type. -/
def name (s : Style) (given : String) : String :=
  match s with
  | .object => "Step"
  | .objectNext => "NextStep"
  | _ => nameOf (some given) none "function"

end Style

/-- What a step can see of everything that pipelines share. -/
structure Sight where
  /-- The object of a name. -/
  object : String → Option Value
  /-- A value with what it shares in full. -/
  reveal : Value → Value

/-- An argument that is made when it is needed, which may fail. -/
abbrev Argument := Sight → Outcome Value

/-- A tree and a file after a change, what the change logged, and the fault with which it ended if
it did. -/
structure Change where
  tree : Value
  file : File
  records : List LogRecord := []
  fault : Option Fault := none

/-- An edit of the data of a processor: it changes the entries of a mapping, at any depth, but what
is a mapping stays one. -/
structure Edit where
  apply : Sight → Value → Outcome Value
  mapping : ∀ (sight : Sight) (entries : Entries) (data : Value),
    apply sight (.dict entries) = .ok data → ∃ kept, data = .dict kept

/-- A change of the data of a processor, which changes nothing if it fails. -/
inductive Alteration where
  | change (e : Edit)
  /-- Adds an element to the list that a key leads to. -/
  | push (key item : Argument)

mutual

/-- A plugin that stands for itself: by its name, by its attacher, or not at all. -/
inductive Item where
  | named (name : String)
  | attacher (a : Attacher)
  | other (v : Value)

/-- What attaches a plugin: its steps, given the options and the data of the processor. -/
inductive Attacher where
  | mk (name : String) (program : Value → Value → List Preparation)

/-- A step of an attacher. -/
inductive Preparation where
  /-- Lets its call be seen under a name. -/
  | announce (label : String)
  | log (record : LogRecord)
  | alter (a : Alteration)
  | use (plugin : Sight → Except Fault (Batch Item))
  | raise (fault : Fault)
  | give (g : Gift)

/-- What an attacher returns. -/
inductive Gift where
  | value (v : Argument)
  | transformer (t : Transformer)
  | processor (name : String)
  /-- A copy of the processor with changed data, alone or with a transformer. -/
  | copy (changes : List Alteration) (t : Option Transformer)
  /-- An explicit result; each part is of the right kind or some value. -/
  | result (processor : Option (Sum String Argument)) (transformer : Option (Sum Transformer Argument))

/-- What is done to a tree and a file: the steps, given the tree and the file at the start. -/
inductive Transformer where
  | mk (name : String) (style : Style) (program : Value → File → List Act)

/-- A step of a transformer. -/
inductive Act where
  /-- Changes the tree, what it shares with others excepted, and the file. -/
  | change (f : Sight → Value → File → Change)
  /-- Changes the literals of the tree, of a type if one is given; their number is then logged. -/
  | mapLiterals (type : Option Value) (f : Node → Outcome Value) (records : Nat → List LogRecord)
  /-- Sees the tree; what is seen of it goes under a label. -/
  | observe (label : String) (f : Value → File → Outcome (Option String))
  | log (record : LogRecord)
  /-- Passes on a result; with `guarded`, a fault is only noted. -/
  | next (guarded : Bool) (error tree : Argument)
  /-- Keeps the way to pass on the result under a name. -/
  | saveNext (id : String)
  /-- Passes on a result in the way that is kept under a name, by whichever step. -/
  | callNext (guarded : Bool) (id : String) (error tree : Argument)
  /-- Passes on a result on the next turn of the loop, from another thread if `threaded`. -/
  | laterNext (threaded : Bool) (error tree : Argument)
  | use (processor : String) (plugin : Sight → Except Fault (Batch Item)) (options : Argument)
  | process (processor : String) (value : Argument)
  /-- Lets others go on. -/
  | sleep
  | raise (fault : Fault)
  | give (v : Argument)
  /-- Reports on the file and returns the diagnostic. -/
  | giveReport (reason : Argument)
  /-- Returns something that has to be waited for. -/
  | giveAwaitable

end

/-- What can be attached. -/
abbrev Plugin := Batch Item

mutual

/-- The plugin that a value stands for: a text is a name, and a list is a batch. -/
def pluginOf : Value → Plugin
  | .str name => .leaf (.named name)
  | .list items => .many false (pluginsOf items)
  | .tuple items => .many true (pluginsOf items)
  | v => .leaf (.other v)

/-- The plugins that values stand for. -/
def pluginsOf : List Value → List Plugin
  | [] => []
  | v :: rest => pluginOf v :: pluginsOf rest

end

/-- The name under which a factory is called as a plugin. -/
def factoryName : String := "ProcessorFactory"

/-- The fault of calling a factory with the arguments of a plugin. -/
def factoryMisuse : Fault :=
  .wrongType (factoryName ++ ".__call__() takes 1 positional argument but 3 were given")

namespace Attacher

def name : Attacher → String
  | .mk name _ => nameOf (some name) none "function"

def program : Attacher → Value → Value → List Preparation
  | .mk _ program => program

/-- An attacher that does nothing. -/
def idle (name : String) : Attacher := .mk name fun _ _ => []

/-- The attacher that a value is when it is called; a factory takes no arguments. -/
def ofValue? : Value → Option Attacher
  | .handle (.factory _) => some (.mk factoryName fun _ _ => [.raise factoryMisuse])
  | v => v.functionName?.map idle

/-- The steps of an attacher that comes to a transformer or fails. -/
def steps (x : Logged Transformer) : List Preparation :=
  let (result, records) := x.result
  records.map .log ++
    match result with
    | .ok t => [.give (.transformer t)]
    | .error f => [.raise f]

end Attacher

namespace Transformer

/-- The name that a transformer was given. -/
def label : Transformer → String
  | .mk name _ _ => name

def style : Transformer → Style
  | .mk _ style _ => style

def name : Transformer → String
  | .mk name style _ => style.name name

def program : Transformer → Value → File → List Act
  | .mk _ _ program => program

/-- A transformer that does nothing. -/
def idle (name : String) : Transformer := .mk name .plain fun _ _ => []

/-- The transformer that a value is when it is called; a factory takes no arguments. -/
def ofValue? : Value → Option Transformer
  | .handle (.factory _) => some (.mk factoryName .plain fun _ _ => [.raise factoryMisuse])
  | v => v.functionName?.map idle

end Transformer

end TextPipeline.Pipeline
