import TextPipeline.Value.Basic

/-! What attaching a plugin comes to: the processor to go on with, and a transformer to add. -/

namespace TextPipeline.Plugin

/-- Part of an explicit result: what it should be, or a value that is something else. -/
inductive Slot (α : Type) where
  | proper (a : α)
  | stray (v : Value)

/-- What an attacher returned; `π` are processors and `τ` transformers. -/
inductive Returned (π τ : Type) where
  | nothing
  | processor (p : π)
  | transformer (t : τ)
  | result (processor : Option (Slot π)) (transformer : Option (Slot τ))
  | other (v : Value)

/-- The processor to go on with if it is another one, and the transformer to add. -/
structure Attached (π τ : Type) where
  processor : Option π
  transformer : Option τ

namespace Attached

variable {π τ : Type}

/-- The proper content of a part of an explicit result. -/
def slot {α : Type} (fault : Value → Fault) : Option (Slot α) → Outcome (Option α)
  | none => .ok none
  | some (.proper a) => .ok (some a)
  | some (.stray v) => .error (fault v)

/-- The fault of an explicit result in which something else stands for the processor. -/
def strayProcessor (attacher : String) (v : Value) : Fault :=
  .violation "processor" ("Attacher '" ++ attacher ++
    "' returned an AttachResult whose processor is a " ++ v.typeName)

/-- The fault of an explicit result in which the transformer cannot be called. -/
def strayTransformer (attacher : String) : Fault :=
  .violation "transformer" ("Attacher '" ++ attacher ++
    "' returned an AttachResult with a non-callable transformer")

/-- The fault of a result that says nothing about how to go on. -/
def unsupported (attacher : String) (v : Value) : Fault :=
  .violation "attacher" ("Attacher '" ++ attacher ++ "' returned unsupported value of type " ++
    v.typeName ++ "; expected None, a transformer, a Processor or an AttachResult")

/-- Reads what the attacher of the given name returned. -/
def ofReturned (attacher : String) : Returned π τ → Outcome (Attached π τ)
  | .nothing => .ok ⟨none, none⟩
  | .processor p => .ok ⟨some p, none⟩
  | .transformer t => .ok ⟨none, some t⟩
  | .result p t => do
    let p ← slot (strayProcessor attacher) p
    let t ← slot (fun _ => strayTransformer attacher) t
    return ⟨p, t⟩
  | .other v => .error (unsupported attacher v)

end Attached

end TextPipeline.Plugin
