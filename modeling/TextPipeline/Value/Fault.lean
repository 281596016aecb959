import TextPipeline.Value.Display

/-! Faults made from the name of their kind and one argument. -/

namespace TextPipeline.Fault

/-- The fault of a kind that is made from more than one argument. -/
def missingArguments (kind : String) : Fault :=
  .wrongType (kind ++ "() is missing arguments")

/-- The fault of the given kind with one argument, its message or the name it is about. -/
def ofKind (kind : String) (argument : Value) : Outcome Fault :=
  match kind with
  | "SyntaxflowError" => .ok (.general argument none)
  | "ValidationError" => .ok (.validation argument none none)
  | "ConfigurationError" => .ok (.configuration argument none)
  | "MissingParserError" => do
    return .missingParser argument (noParserText (← argument.render))
  | "MissingCompilerError" => do
    return .missingCompiler argument (noCompilerText (← argument.render))
  | "MissingTreeError" => .ok (.missingTree argument none)
  | "AsyncTransformerError" => .ok (.asyncTransformer argument none)
  | "PluginAttachError" => .ok (.pluginAttach argument none none)
  | "TransformError" => .ok (.transform argument none none)
  | "ParsingError" => .ok (.parsing argument none none)
  | "RenderingError" => .ok (.rendering argument none none)
  | "VFileMessage" =>
    .ok (.diagnostic ⟨argument, .bool false, .none, .none, .none, .none, .none, .none⟩)
  | "InvalidOptionsError" | "UnicodeDecodeError" | "UnicodeEncodeError"
  | "UnicodeTranslateError" | "ExceptionGroup" | "BaseExceptionGroup" =>
    .error (missingArguments kind)
  | kind => .ok (.raised kind [argument])

end TextPipeline.Fault
