import TextPipeline.Logging.Record

/-! The result of one step of a chain, which may come later. A completion is resolved at most once,
and whoever waits for it is told exactly once; a completion that is abandoned ignores what comes
afterwards. -/

namespace TextPipeline.Transform

/-- How far a step has come. -/
inductive Phase (ρ : Type) where
  | pending
  | done (result : ρ)
  | abandoned

/-- A result to come, those to be told of it, and those to be told if nobody waits any more. -/
structure Completion (ρ κ ν : Type) where
  /-- The name of the step. -/
  label : String
  phase : Phase ρ
  onDone : List κ
  onAbandon : List ν

namespace Completion

variable {ρ κ ν : Type}

/-- A completion to which nothing has happened. -/
def start (label : String) : Completion ρ κ ν := ⟨label, .pending, [], []⟩

def isDone (c : Completion ρ κ ν) : Bool := c.phase matches .done _

def isAbandoned (c : Completion ρ κ ν) : Bool := c.phase matches .abandoned

/-- The result, if there is one. -/
def result? (c : Completion ρ κ ν) : Option ρ :=
  match c.phase with
  | .done r => some r
  | _ => none

theorem pending_of_result? {c : Completion ρ κ ν} (hr : c.result? = none) (ho : c.phase ≠ .abandoned) :
    c.phase = .pending := by
  cases hp : c.phase with
  | pending => rfl
  | done result => simp [result?, hp] at hr
  | abandoned => exact absurd hp ho

/-- The fault of resolving a step again. -/
def resolvedTwice (label : String) : Fault :=
  .transform (.str ("Transformer '" ++ label ++ "' resolved more than once")) (some label) none

/-- Resolves a step: the completion afterwards, and those to be told now. A step that was abandoned
has no use for the result, which `none` stands for. -/
def resolve (c : Completion ρ κ ν) (r : ρ) : Outcome (Option (Completion ρ κ ν × List κ)) :=
  match c.phase with
  | .abandoned => .ok none
  | .done _ => .error (resolvedTwice c.label)
  | .pending => .ok (some ({ c with phase := .done r, onDone := [] }, c.onDone))

/-- Asks to be told of the result: the completion afterwards, and whether to tell at once. -/
def addDone (c : Completion ρ κ ν) (k : κ) : Completion ρ κ ν × Bool :=
  if c.isDone then (c, true) else ({ c with onDone := c.onDone ++ [k] }, false)

/-- Asks to be told if the step is abandoned. -/
def addAbandon (c : Completion ρ κ ν) (v : ν) : Completion ρ κ ν :=
  { c with onAbandon := c.onAbandon ++ [v] }

/-- Stops waiting for a step that is pending; otherwise there is nothing to do. -/
def abandon (c : Completion ρ κ ν) : Option (Completion ρ κ ν) :=
  match c.phase with
  | .pending => some { c with phase := .abandoned, onDone := [] }
  | _ => none

end Completion

/-- The logger of chains. -/
def logger : String := "syntaxflow.transforms.chain"

/-- The text of the warning that a result came after nobody waited for it any more. -/
def lateText (label : String) : String :=
  "Ignoring late resolution of abandoned transformer '" ++ label ++ "'"

mutual

/-- Something that is done to a completion. -/
inductive Command where
  | resolve (error tree : Value)
  | addDone (k : Listener)
  | addAbandon (k : Listener)
  | abandon

/-- Who is told of a result. When told, it carries out a command and may then fail. -/
inductive Listener where
  | mk (id : String) (command : Option Command) (fault : Option Fault)

end

/-- Something that happened to a listener. -/
inductive Notice where
  | done (id : String) (error tree : Value)
  | abandoned (id : String)

/-- A completion under commands, with what its listeners were told. -/
structure Exercise where
  completion : Completion (Value × Value) Listener Listener
  notices : List Notice
  records : List LogRecord

/-- A command as a computation. -/
abbrev Exercising := ExceptT Fault (StateM Exercise)

namespace Exercise

def start (label : String) : Exercise := ⟨.start label, [], []⟩

def tell (n : Notice) : Exercising Unit :=
  modify fun x => { x with notices := x.notices ++ [n] }

def put (c : Completion (Value × Value) Listener Listener) : Exercising Unit :=
  modify fun x => { x with completion := c }

end Exercise

open Exercise

mutual

/-- Carries out a command. -/
def Command.run : Nat → Command → Exercising Unit
  | 0, _ => throw (.raised "RecursionError" [.str "maximum recursion depth exceeded"])
  | fuel + 1, .resolve error tree => do
    let c := (← get).completion
    match c.resolve (error, tree) with
    | .error f => throw f
    | .ok none =>
      let record : LogRecord := ⟨.warning, logger, lateText c.label⟩
      modify fun x => { x with records := x.records ++ [record] }
    | .ok (some (c, listeners)) =>
      put c
      listeners.forM (Listener.done fuel)
  | fuel + 1, .addDone k => do
    let (c, now) := (← get).completion.addDone k
    put c
    if now then Listener.done fuel k
  | _ + 1, .addAbandon k => do put ((← get).completion.addAbandon k)
  | fuel + 1, .abandon => do
    match (← get).completion.abandon with
    | none => pure ()
    | some c =>
      put c
      tellAbandoned fuel 0

/-- Tells a listener of the result. -/
def Listener.done : Nat → Listener → Exercising Unit
  | 0, _ => throw (.raised "RecursionError" [.str "maximum recursion depth exceeded"])
  | fuel + 1, .mk id command fault => do
    let (error, tree) := ((← get).completion.result?).getD (.none, .none)
    tell (.done id error tree)
    match command with
    | some c => c.run fuel
    | none => pure ()
    match fault with
    | some f => throw f
    | none => pure ()

/-- Tells the listeners from number `i` on that the step was abandoned, those included that are
added meanwhile. -/
def tellAbandoned : Nat → Nat → Exercising Unit
  | 0, _ => throw (.raised "RecursionError" [.str "maximum recursion depth exceeded"])
  | fuel + 1, i => do
    match (← get).completion.onAbandon[i]? with
    | none => pure ()
    | some (.mk id command fault) =>
      tell (.abandoned id)
      match command with
      | some c => c.run fuel
      | none => pure ()
      match fault with
      | some f => throw f
      | none => pure ()
      tellAbandoned fuel (i + 1)

end

mutual

/-- The number of commands in a command, itself included. -/
def Command.size : Command → Nat
  | .resolve .. | .abandon => 1
  | .addDone k | .addAbandon k => k.size + 1

def Listener.size : Listener → Nat
  | .mk _ none _ => 1
  | .mk _ (some c) _ => c.size + 1

end

end TextPipeline.Transform
