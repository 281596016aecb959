import TextPipeline.Text.Hex
import TextPipeline.Value.Basic

/-! Reading TOML texts and keys. Every reader takes what it reads off the front of the input and
returns the rest. -/

namespace TextPipeline.Toml

open TextPipeline.Text

/-- The fault of a text that is not TOML. -/
def malformed (why : String) : Fault := .raised "TOMLDecodeError" [.str why]

/-- Whether a character is a blank within a line. -/
def isPad (c : Char) : Bool := c == ' ' || c == '\t'

/-- Whether a character is a blank between lines. -/
def isSpace (c : Char) : Bool := isPad c || c == '\n'

/-- Whether a character may not stand in a comment or a text on one line. -/
def isControl (c : Char) : Bool :=
  (decide (c.toNat < 32) && c != '\t') || c.toNat == 127

/-- Whether a character may not stand in a text on several lines. -/
def isLongControl (c : Char) : Bool := isControl c && c != '\n'

/-- Whether a character may stand in a key without quotes. -/
def isKeyChar (c : Char) : Bool := c.isAlphanum || c == '-' || c == '_'

/-- Skips a comment up to the end of its line. -/
def skipComment (s : List Char) : Outcome (List Char) :=
  match s with
  | '#' :: rest =>
    let comment := rest.takeWhile (· != '\n')
    if comment.any isControl then .error (malformed "Found invalid character")
    else .ok (rest.dropWhile (· != '\n'))
  | s => .ok s

/-- Reads a character given by its code. -/
def codePoint (length : Nat) (s : List Char) : Outcome (List Char × List Char) :=
  match readHex? (s.take length), decide (length ≤ s.length) with
  | some n, true =>
    if n < 0xD800 || (0xE000 ≤ n && n < 0x110000) then .ok ([Char.ofNat n], s.drop length)
    else .error (malformed "Escaped character is not a Unicode scalar value")
  | _, _ => .error (malformed "Invalid hex value")

/-- Reads an escape after its backslash. In a text on several lines a backslash at the end of a line
takes out all blanks up to the next character. -/
def escape (long : Bool) (s : List Char) : Outcome (List Char × List Char) :=
  match s with
  | 'b' :: rest => .ok (['\x08'], rest)
  | 't' :: rest => .ok (['\t'], rest)
  | 'n' :: rest => .ok (['\n'], rest)
  | 'f' :: rest => .ok (['\x0c'], rest)
  | 'r' :: rest => .ok (['\r'], rest)
  | '"' :: rest => .ok (['"'], rest)
  | '\\' :: rest => .ok (['\\'], rest)
  | 'u' :: rest => codePoint 4 rest
  | 'U' :: rest => codePoint 8 rest
  | s =>
    match long, s.dropWhile isPad with
    | true, '\n' :: rest => .ok ([], rest.dropWhile isSpace)
    | _, _ => .error (malformed "Unescaped '\\' in a string")

/-- Reads a text with escapes after its opening quotes, up to and with the closing ones. -/
def basic (long : Bool) : Nat → List Char → Outcome (List Char × List Char)
  | 0, _ | _, [] => .error (malformed "Unterminated string")
  | fuel + 1, '"' :: rest =>
    if !long then .ok ([], rest)
    else
      match rest with
      | '"' :: '"' :: rest => .ok ([], rest)
      | rest => do
        let (text, rest) ← basic long fuel rest
        return ('"' :: text, rest)
  | fuel + 1, '\\' :: rest => do
    let (first, rest) ← escape long rest
    let (text, rest) ← basic long fuel rest
    return (first ++ text, rest)
  | fuel + 1, c :: rest => do
    if (if long then isLongControl c else isControl c) then throw (malformed "Illegal character")
    let (text, rest) ← basic long fuel rest
    return (c :: text, rest)

/-- Reads a text without escapes on one line after its opening quote. -/
def literal (s : List Char) : Outcome (List Char × List Char) :=
  let text := s.takeWhile (· != '\'')
  match s.dropWhile (· != '\'') with
  | [] => .error (malformed "Expected \"'\"")
  | _ :: rest =>
    if text.any isControl then .error (malformed "Found invalid character")
    else .ok (text, rest)

/-- Reads a text without escapes on several lines after its opening quotes. -/
def longLiteral : List Char → Outcome (List Char × List Char)
  | [] => .error (malformed "Expected \"'''\"")
  | '\'' :: '\'' :: '\'' :: rest => .ok ([], rest)
  | c :: rest => do
    let (text, rest) ← longLiteral rest
    if isLongControl c then throw (malformed "Found invalid character")
    return (c :: text, rest)

/-- Up to two quotes may stand right before the closing ones. -/
def extraQuotes (quote : Char) (text s : List Char) : List Char × List Char :=
  match s with
  | a :: b :: rest =>
    if a != quote then (text, s)
    else if b != quote then (text ++ [quote], b :: rest)
    else (text ++ [quote, quote], rest)
  | [a] => if a == quote then (text ++ [quote], []) else (text, s)
  | [] => (text, [])

/-- A text without a line feed at its start. -/
def dropBreak : List Char → List Char
  | '\n' :: rest => rest
  | s => s

/-- Reads a text in quotes of any kind, on one line or on several. -/
def text (s : List Char) : Outcome (String × List Char) := do
  let (text, rest) ← match s with
    | '"' :: '"' :: '"' :: rest => do
      let rest := dropBreak rest
      let (text, rest) ← basic true (rest.length + 1) rest
      pure (extraQuotes '"' text rest)
    | '"' :: rest => basic false (rest.length + 1) rest
    | '\'' :: '\'' :: '\'' :: rest => do
      let (text, rest) ← longLiteral (dropBreak rest)
      pure (extraQuotes '\'' text rest)
    | '\'' :: rest => literal rest
    | _ => throw (malformed "Expected a string")
  return (String.ofList text, rest)

/-- Reads one part of a key. -/
def keyPart (s : List Char) : Outcome (String × List Char) :=
  match s with
  | '"' :: rest => (basic false (rest.length + 1) rest).map fun (t, r) => (String.ofList t, r)
  | '\'' :: rest => (literal rest).map fun (t, r) => (String.ofList t, r)
  | s =>
    let part := s.takeWhile isKeyChar
    if part.isEmpty then .error (malformed "Invalid initial character for a key part")
    else .ok (String.ofList part, s.dropWhile isKeyChar)

/-- Reads a key: parts with points between them. -/
def key : Nat → List Char → Outcome (List String × List Char)
  | 0, _ => .error (malformed "Invalid initial character for a key part")
  | fuel + 1, s => do
    let (part, rest) ← keyPart s
    match rest.dropWhile isPad with
    | '.' :: rest =>
      let (parts, rest) ← key fuel (rest.dropWhile isPad)
      return (part :: parts, rest)
    | rest => return ([part], rest)

end TextPipeline.Toml
