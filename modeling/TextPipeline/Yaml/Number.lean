import TextPipeline.Text.Base64
import TextPipeline.Text.Lower
import TextPipeline.Value.Number
import TextPipeline.Yaml.Cursor

/-! What the texts of YAML scalars stand for: numbers, truth values and octets. -/

namespace TextPipeline.Yaml

open TextPipeline.Decimal TextPipeline.Text

/-- Reads an integer: decimal, to base 2, 8 or 16, or in parts to base sixty. -/
def readInt (text : String) : Outcome Int := do
  let s := text.toList.filter (· != '_')
  let missing : Fault := .raised "IndexError" [.str "string index out of range"]
  let (negative, s) ← match s with
    | [] => throw missing
    | '-' :: rest => pure (true, rest)
    | '+' :: rest => pure (false, rest)
    | rest => pure (false, rest)
  let based (base : Nat) (letter : Char) (digits : List Char) : Outcome Int :=
    match integerIn? base letter digits with
    | some n => .ok n
    | none => .error (Value.notInteger base (quoted (String.ofList digits)))
  let decimal (digits : List Char) : Outcome Int :=
    Value.readInteger digits (quoted (String.ofList digits))
  let n ← match s with
    | [] => throw missing
    | ['0'] => pure 0
    | '0' :: 'b' :: rest => based 2 'b' rest
    | '0' :: 'x' :: rest => based 16 'x' rest
    | '0' :: rest => based 8 'o' ('0' :: rest)
    | s =>
      if s.contains ':' then do
        let parts ← (pieces (· == ':') s).mapM decimal
        pure (parts.foldl (fun n part => n * 60 + part) 0)
      else decimal s
  return if negative then -n else n

/-- Reads a floating-point number, which may be given in parts to base sixty. -/
def readFloat (text : String) : Outcome Float := do
  let s := (lower (String.ofList (text.toList.filter (· != '_')))).toList
  let (negative, s) ← match s with
    | [] => throw (.raised "IndexError" [.str "string index out of range"])
    | '-' :: rest => pure (true, rest)
    | '+' :: rest => pure (false, rest)
    | rest => pure (false, rest)
  let decimal (digits : List Char) : Outcome Float :=
    match float? digits with
    | some x => .ok x
    | none => .error (.badValue ("could not convert string to float: " ++
        quoted (String.ofList digits)))
  let x ← match String.ofList s with
    | ".inf" => pure (1.0 / 0.0)
    | ".nan" => return 0.0 / 0.0
    | _ =>
      if s.contains ':' then do
        let parts ← (pieces (· == ':') s).mapM decimal
        let place (x : Float) (part : Float × Nat) : Outcome Float := do
          let unit := Nat.pow 60 part.2
          if unit ≥ Nat.pow 2 1024 then
            throw (.raised "OverflowError" [.str "int too large to convert to float"])
          return x + part.1 * Float.ofNat unit
        parts.reverse.zipIdx.foldlM place 0.0
      else decimal s
  return if negative then -x else x

/-- The words for truth and falsehood. -/
def readBool (text : String) : Outcome Bool :=
  let word := lower text
  match word with
  | "yes" | "true" | "on" => .ok true
  | "no" | "false" | "off" => .ok false
  | _ => .error (.raised "KeyError" [.str word])

/-- Reads octets. -/
def readBinary (text : String) : Outcome (List UInt8) :=
  if text.toList.any (fun c => 128 ≤ c.toNat) then
    .error (malformed "failed to convert base64 data into ascii")
  else
    match readBase64? 0 0 0 text.toList with
    | some octets => .ok octets
    | none => .error (malformed "failed to decode base64 data")

end TextPipeline.Yaml
