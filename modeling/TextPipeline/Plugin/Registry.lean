import TextPipeline.Logging.Record

/-! The record of the plugins that were attached to a processor. It only grows, and its order is
the order in which transformers run. -/

namespace TextPipeline.Plugin

/-- A plugin that was attached, by its name and with its options. -/
structure Attachment where
  name : String
  options : Value

/-- The plugins attached to a processor and the transformers they added; `τ` is the type of
transformers. -/
structure Registry (τ : Type) where
  attachments : List Attachment
  transformers : List τ

namespace Registry

variable {τ : Type}

def empty : Registry τ := ⟨[], []⟩

/-- The logger of this part. -/
def logger : String := "syntaxflow.transforms.registry"

/-- Adds an attachment and its transformer if it has one. -/
def add (r : Registry τ) (a : Attachment) (t : Option τ) : Registry τ :=
  ⟨r.attachments ++ [a], r.transformers ++ t.toList⟩

/-- What is logged when an attachment was added to `r`. -/
def addText (r : Registry τ) (a : Attachment) (t : Option τ) : String :=
  match t with
  | some _ =>
    "Registered transformer from '" ++ a.name ++ "' at position " ++
      toString (r.transformers.length + 1)
  | none => "Registered attach-only plugin '" ++ a.name ++ "'"

end Registry

end TextPipeline.Plugin
