import TextPipeline.Pipeline.Program
import TextPipeline.Progress.Event

/-! What can be observed while pipelines run. -/

namespace TextPipeline.Pipeline

/-- What a step sees when it is called: the tree in full, and the file. -/
structure View where
  tree : Value
  file : File

/-- A call of a step: its number, the step, the tree that it was given, what it saw, and its
completion. -/
structure Invocation where
  index : Nat
  step : Transformer
  tree : Value
  seen : View
  completion : Nat

/-- Something that happened. Trees are as they were then. -/
inductive Event where
  | log (record : LogRecord)
  /-- An attacher was called for the processor with these names. -/
  | attached (attacher : String) (options : Value) (names : List String)
  /-- A transformer saw a tree with this text, or something that is no tree. -/
  | traced (label : String) (text : Option String)
  /-- A transformer was called with this number of further arguments. -/
  | arguments (transformer : String) (count : Nat)
  /-- A result was passed on, or could not be. -/
  | passed (fault : Option Fault)
  /-- A transformer processed another document. -/
  | nested (text : Value)
  /-- The receiver of a run was told of its result. -/
  | ran (error : Option Fault) (tree : Value) (treeNames fileNames : List String)
  /-- The receiver of a whole pipeline was told of its result. -/
  | processed (error : Option Fault) (text : Value) (fileNames : List String) (contents : Value)
  /-- The observer of a number was told of progress. -/
  | progress (watcher : Nat) (p : Progress)
  /-- Reading a file, or running on it, came to a tree for a processor of this name. -/
  | produced (name : String) (file : Nat) (tree : Value)
  /-- A step of a chain was called. -/
  | called (run : Nat) (a : Invocation)
  /-- A step was resolved. -/
  | resolved (completion : Nat) (result : Transform.Resolution)
  /-- A chain came to an end: its fault if there is one, and the tree as it was then. -/
  | delivered (run : Nat) (error : Option Fault) (tree : Value)

end TextPipeline.Pipeline
