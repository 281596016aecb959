import TextPipeline.Value.Copy
import TextPipeline.Value.Member

/-! The options that a plugin declares. -/

namespace TextPipeline.Plugin

/-- The types that an option can have: the built-in ones, and others, each with its name and the values
that are of it. -/
inductive ParameterType where
  | int
  | str
  | bool
  | list
  | float
  | dict
  | other (name : String) (holds : Value → Bool)
  deriving Inhabited

namespace ParameterType

def name : ParameterType → String
  | .int => "int"
  | .str => "str"
  | .bool => "bool"
  | .list => "list"
  | .float => "float"
  | .dict => "dict"
  | .other name _ => name

/-- Whether a value is of a type. Truth values are integers, too. -/
def holds : ParameterType → Value → Bool
  | .int, .int _ => true
  | .int, .bool _ => true
  | .str, .str _ => true
  | .bool, .bool _ => true
  | .list, .list _ => true
  | .float, .float _ => true
  | .dict, .dict _ => true
  | .other _ holds, v => holds v
  | _, _ => false

/-- Whether a value can be given for an option of a type, where truth values are no integers. -/
def accepts : ParameterType → Value → Bool
  | .int, .bool _ => false
  | t, v => t.holds v

end ParameterType

/-- An option that a plugin declares. -/
structure Parameter where
  type : ParameterType
  /-- The value if none is given; an absent one stands for no default. -/
  default : Value := .none
  /-- What copying the default gives. -/
  copied : Outcome Value := default.shallowCopy
  help : Value := .str ""
  /-- A value must be given if this counts as true. -/
  required : Value := .bool false
  /-- What the value must be in; if this is absent, it may be any. -/
  choices : Value := .none
  validator : Option (Value → Outcome Bool) := none
  /-- The type of the elements of a list. -/
  elementType : Option ParameterType := none

namespace Parameter

/-- A fixed sequence stands for a list where a list is expected. -/
def coerce (p : Parameter) (v : Value) : Value :=
  match p.type, v with
  | .list, .tuple items => .list items
  | _, v => v

/-- The fault of the first element of the wrong type, if there is one. -/
def strayElement (type : ParameterType) (i : Nat) : List Value → Option Fault
  | [] => none
  | v :: rest =>
    if type.holds v then strayElement type (i + 1) rest
    else some (.badValue ("List element at index " ++ toString i ++ " has wrong type: expected " ++
      type.name ++ ", got " ++ v.typeName))

/-- Fails if the elements of a list are not of the declared type. -/
def checkElements (p : Parameter) (v : Value) : Outcome Unit :=
  match p.type, p.elementType, v with
  | .list, some type, .list items =>
    match strayElement type 0 items with
    | some f => .error f
    | none => .ok ()
  | _, _, _ => .ok ()

/-- Fails if a value is none of the choices. -/
def checkChoices (p : Parameter) (v : Value) : Outcome Unit :=
  if p.choices.isNone then .ok ()
  else do
    unless ← v.isIn p.choices do
      let choices ← p.choices.render
      throw (.badValue ("Value must be one of " ++ choices ++ ", got " ++ (← v.render)))

/-- Fails if the validator does not accept a value. -/
def checkValidator (p : Parameter) (v : Value) : Outcome Unit := do
  match p.validator with
  | none => return
  | some accepts =>
    unless ← accepts v do throw (.badValue ("Validation failed for value: " ++ (← v.render)))

/-- The value of the option when `given` is given. It must be of the declared type with elements of
the declared type, one of the choices, and accepted by the validator, checked in this order. -/
def validate (p : Parameter) (given : Value) : Outcome Value := do
  let v := p.coerce given
  unless p.type.accepts v do
    throw (.badValue ("Expected type " ++ p.type.name ++ ", got " ++ v.typeName))
  p.checkElements v
  p.checkChoices v
  p.checkValidator v
  return v

end Parameter

end TextPipeline.Plugin
