import TextPipeline.Decimal.Reading
import TextPipeline.Decimal.Shortest
import TextPipeline.Text.Quoted
import TextPipeline.Text.Utf8
import TextPipeline.Value.Basic

/-! The text of values: `render` is how a value reads within a message, and `inspect` how it reads as
part of another value, where texts are quoted. A value need not have a text: octets need not be UTF-8,
and integers of too many digits are not written. -/

namespace TextPipeline

open TextPipeline.Decimal TextPipeline.Text

/-- Texts joined by a comma and a space. -/
def commaSeparated (parts : List String) : String :=
  String.intercalate ", " parts

/-- Texts between brackets. -/
def bracketed (opening closing : String) (parts : List String) : String :=
  opening ++ commaSeparated parts ++ closing

/-- A moment with its parts as arguments: seconds and microseconds only when there are any. -/
def Moment.repr : Moment → String
  | .date d => bracketed "datetime.date(" ")" (day d)
  | .time c => bracketed "datetime.time(" ")" (clock c)
  | .dateTime d c offset => bracketed "datetime.datetime(" ")" (day d ++ clock c ++ zone offset)
where
  day (d : Day) : List String := [toString d.year, toString d.month, toString d.day]
  clock (c : Clock) : List String :=
    [toString c.hour, toString c.minute] ++
      (if c.second == 0 && c.microsecond == 0 then [] else [toString c.second]) ++
      (if c.microsecond == 0 then [] else [toString c.microsecond])
  zone : Option Int → List String
    | none => []
    | some 0 => ["tzinfo=datetime.timezone.utc"]
    | some seconds =>
      let days := seconds.fdiv 86400
      let rest := seconds.fmod 86400
      let parts := (if days == 0 then [] else ["days=" ++ toString days]) ++
        (if rest == 0 then [] else ["seconds=" ++ toString rest])
      ["tzinfo=" ++ bracketed "datetime.timezone(datetime.timedelta(" "))" parts]

/-- A point from the texts of its parts. -/
def pointRepr (line column offset : String) : String :=
  bracketed "Point(" ")" ["line=" ++ line, "column=" ++ column, "offset=" ++ offset]

/-- The text of an integer. Those of too many digits are not written. -/
def integerText (n : Int) : Outcome String :=
  if n.natAbs < Nat.pow 10 digitLimit then .ok (toString n)
  else
    .error (.badValue ("Exceeds the limit (" ++ toString digitLimit ++
      " digits) for integer string conversion; use sys.set_int_max_str_digits() to increase the limit"))

/-- What is said about settings of the wrong kind. -/
def wrongSettings (component expected received : String) : String :=
  component ++ " expects settings of type " ++ expected ++ ", got " ++ received

mutual

/-- The text of a value as part of another value. It has none if an integer in it has none. -/
def Value.inspect : Value → Outcome String
  | .none => .ok "None"
  | .bool b => .ok (if b then "True" else "False")
  | .int n => integerText n
  | .float x => .ok (FloatStyle.plain.text x)
  | .str s => .ok (quoted s)
  | .bytes octets => .ok (quotedOctets octets)
  | .list items => do return bracketed "[" "]" (← Value.inspectList items)
  | .sequence .tuple [item] => do return "(" ++ (← item.inspect) ++ ",)"
  | .sequence .tuple items => do return bracketed "(" ")" (← Value.inspectList items)
  | .sequence (.other type) items => do
    match type.shown with
    | some shown => return shown
    | none => return bracketed (type.name ++ "([") "])" (← Value.inspectList items)
  | .set [] => .ok "set()"
  | .set items => do return bracketed "\x7b" "\x7d" (← Value.inspectList items)
  | .mapping .dict entries => do return bracketed "\x7b" "\x7d" (← Value.inspectEntries entries)
  | .mapping (.other type) entries => do
    match type.shown with
    | some shown => return shown
    | none => return bracketed (type.name ++ "(\x7b") "\x7d)" (← Value.inspectEntries entries)
  | .moment m => .ok m.repr
  | .node ⟨t, c, v, d, p⟩ => do
    return bracketed "Node(" ")" ["type=" ++ (← t.inspect), "children=" ++ (← c.inspect),
      "value=" ++ (← v.inspect), "data=" ++ (← d.inspect), "position=" ++ (← p.inspect)]
  | .point ⟨l, c, o⟩ => do return pointRepr (← l.inspect) (← c.inspect) (← o.inspect)
  | .span ⟨l, c, o⟩ ⟨l', c', o'⟩ => do
    return bracketed "Position(" ")"
      ["start=" ++ pointRepr (← l.inspect) (← c.inspect) (← o.inspect),
        "end=" ++ pointRepr (← l'.inspect) (← c'.inspect) (← o'.inspect)]
  | .error f => f.inspect
  | .settings kind fields => do return bracketed (kind.name ++ "(") ")" (← Value.inspectFields fields)
  | .callable name => .ok ("<function " ++ name ++ ">")
  | .anonymous => .ok "<function anonymous>"
  | .awaitable _ => .ok "<coroutine>"
  | .handle h => .ok ("<" ++ (Value.handle h).typeName ++ ">")
  | .document path _ reports => do
    return "VFile(path=" ++ (← path.inspect) ++ ", messages=" ++ toString reports ++ ")"
  | .other _ shown => .ok shown

/-- The texts of the elements of a list. -/
def Value.inspectList : List Value → Outcome (List String)
  | [] => .ok []
  | v :: rest => do
    let first ← v.inspect
    return first :: (← Value.inspectList rest)

/-- The texts of the entries of a mapping. -/
def Value.inspectEntries : List (Value × Value) → Outcome (List String)
  | [] => .ok []
  | (k, v) :: rest => do
    let first := (← k.inspect) ++ ": " ++ (← v.inspect)
    return first :: (← Value.inspectEntries rest)

/-- The texts of the fields of settings. -/
def Value.inspectFields : List (String × Value) → Outcome (List String)
  | [] => .ok []
  | (k, v) :: rest => do
    let first := k ++ "=" ++ (← v.inspect)
    return first :: (← Value.inspectFields rest)

/-- The text of a fault as part of another value: its kind and what it was made from. -/
def Fault.inspect : Fault → Outcome String
  | .general m _ => do return "SyntaxflowError(" ++ (← m.inspect) ++ ")"
  | .validation m _ _ => do return "ValidationError(" ++ (← m.inspect) ++ ")"
  | .invalidOptions c e r => .ok ("InvalidOptionsError(" ++ quoted (wrongSettings c e r) ++ ")")
  | .configuration m _ => do return "ConfigurationError(" ++ (← m.inspect) ++ ")"
  | .missingParser _ said => .ok ("MissingParserError(" ++ quoted said ++ ")")
  | .missingCompiler _ said => .ok ("MissingCompilerError(" ++ quoted said ++ ")")
  | .missingTree m _ => do return "MissingTreeError(" ++ (← m.inspect) ++ ")"
  | .asyncTransformer m _ => do return "AsyncTransformerError(" ++ (← m.inspect) ++ ")"
  | .pluginAttach m _ _ => do return "PluginAttachError(" ++ (← m.inspect) ++ ")"
  | .transform m _ _ => do return "TransformError(" ++ (← m.inspect) ++ ")"
  | .parsing m _ _ => do return "ParsingError(" ++ (← m.inspect) ++ ")"
  | .rendering m _ _ => do return "RenderingError(" ++ (← m.inspect) ++ ")"
  | .diagnostic ⟨reason, _, _, _, _, _, _, _⟩ => do
    return "VFileMessage(" ++ (← reason.inspect) ++ ")"
  | .undecodable octets start stop reason =>
    .ok (bracketed "UnicodeDecodeError(" ")"
      [quoted "utf-8", quotedOctets octets, toString start, toString stop, quoted reason])
  | .raised kind args => do return bracketed (kind ++ "(") ")" (← Value.inspectList args)

end

/-- What is said about octets that are not UTF-8. -/
def undecodableText (octets : List UInt8) (start stop : Nat) (reason : String) : String :=
  if stop ≤ start + 1 then
    let octet := (octets.getD start 0).toNat
    "'utf-8' codec can't decode byte 0x" ++ String.ofList (hex 2 octet) ++ " in position " ++
      toString start ++ ": " ++ reason
  else
    "'utf-8' codec can't decode bytes in position " ++ toString start ++ "-" ++
      toString (stop - 1) ++ ": " ++ reason

/-- The text that the contents of a file are; octets are read as UTF-8. -/
def Value.contentsText (contents : Value) : Outcome String :=
  match contents with
  | .none => .ok ""
  | .str s => .ok s
  | .bytes octets =>
    match Utf8.decode octets with
    | .ok s => .ok s
    | .error failure =>
      .error (.undecodable octets failure.start failure.stop failure.reason.text)
  | v => .error (.wrongType ("__str__ returned non-string (type " ++ v.typeName ++ ")"))

mutual

/-- The text of a value within a message. A file reads as its contents, if those are a text. -/
def Value.render : Value → Outcome String
  | .str s => .ok s
  | .moment m => .ok (m.text " ")
  | .point ⟨l, c, _⟩ => do return (← l.render) ++ ":" ++ (← c.render)
  | .span ⟨l, c, _⟩ ⟨l', c', _⟩ => do
    return (← l.render) ++ ":" ++ (← c.render) ++ "-" ++ (← l'.render) ++ ":" ++ (← c'.render)
  | .error f => f.render
  | .document _ contents _ => contents.contentsText
  | v => v.inspect

/-- What a fault says. -/
def Fault.render : Fault → Outcome String
  | .general m _ | .validation m _ _ | .configuration m _ | .missingTree m _
  | .asyncTransformer m _ | .pluginAttach m _ _ | .transform m _ _ | .parsing m _ _
  | .rendering m _ _ => m.render
  | .invalidOptions c e r => .ok (wrongSettings c e r)
  | .missingParser _ said | .missingCompiler _ said => .ok said
  | .diagnostic ⟨reason, _, file, _, line, column, _, _⟩ => do
    let file ← if file.truthy then file.render else pure "<input>"
    let line ← if line.truthy then line.render else pure "1"
    let column ← if column.truthy then column.render else pure "1"
    return file ++ ":" ++ line ++ ":" ++ column ++ ": " ++ (← reason.render)
  | .undecodable octets start stop reason => .ok (undecodableText octets start stop reason)
  | .raised "KeyError" [v] => v.inspect
  | .raised _ [] => .ok ""
  | .raised _ [v] => v.render
  | .raised _ args => do return bracketed "(" ")" (← Value.inspectList args)

end

/-- The text of a value where it is only shown: what has no text is shown by its type. -/
def Value.text (v : Value) : String :=
  match v.render with
  | .ok s => s
  | .error _ => "<" ++ v.typeName ++ ">"

/-- What is said of a processor that lacks a parser. -/
def noParserText (processor : String) : String :=
  "Cannot parse with processor '" ++ processor ++ "': no Parser is configured"

/-- What is said of a processor that lacks a compiler. -/
def noCompilerText (processor : String) : String :=
  "Cannot stringify with processor '" ++ processor ++ "': no Compiler is configured"

/-- The processor of a name lacks a parser. -/
def Fault.noParser (processor : String) : Fault :=
  .missingParser (.str processor) (noParserText processor)

/-- The processor of a name lacks a compiler. -/
def Fault.noCompiler (processor : String) : Fault :=
  .missingCompiler (.str processor) (noCompilerText processor)

end TextPipeline
