import TextPipeline.Text.Hex
import TextPipeline.Text.Utf8
import TextPipeline.Value.Number
import TextPipeline.Yaml.Cursor

/-! The tokens of a YAML text, and the reading of those that are names: directives, anchors and
tags. -/

namespace TextPipeline.Yaml

open TextPipeline.Decimal TextPipeline.Text

/-- A tag as it is written: a suffix, after a handle that stands for its beginning. -/
structure TagName where
  handle : Option String
  suffix : String

/-- A line at the head of a document that says how to read it. -/
inductive Directive where
  | version (major minor : Nat)
  | tag (handle start : String)
  | unknown

/-- A piece of a YAML text. Nesting by indentation has become starts and ends. -/
inductive Token where
  | streamEnd
  | directive (d : Directive)
  | documentStart
  | documentEnd
  | sequenceStart
  | mappingStart
  | blockEnd
  | flowSequenceStart
  | flowSequenceEnd
  | flowMappingStart
  | flowMappingEnd
  | blockEntry
  | flowEntry
  | key
  | value
  | alias_ (name : String)
  | anchor (name : String)
  | tag (name : TagName)
  | scalar (text : String) (plain : Bool)

namespace Token

/-- Whether a character may follow an anchor. -/
def endsAnchor (c : Char) : Bool :=
  endsWord c || ['?', ':', ',', ']', '\x7d', '%', '@', '\x60'].contains c

/-- Reads the name of an anchor or alias after its mark. -/
def anchorName (c : Cursor) : Outcome (String × Cursor) :=
  let (name, c) := c.takeWhile isNameChar
  if name.isEmpty || !endsAnchor c.here then
    .error (malformed "expected alphabetic or numeric character")
  else .ok (String.ofList name, c)

/-- Whether a character may stand in a tag. -/
def isTagChar (c : Char) : Bool :=
  isNameChar c ||
    [';', '/', '?', ':', '@', '&', '=', '+', '$', ',', '.', '!', '~', '*', '\'', '(', ')', '[',
      ']', '%'].contains c

/-- Reads the octets of consecutive percent escapes. -/
def octets : Nat → Cursor → Outcome (List UInt8 × Cursor)
  | 0, c => .ok ([], c)
  | fuel + 1, c => do
    if c.here != '%' then return ([], c)
    match hexValue? (c.peek 1), hexValue? (c.peek 2) with
    | some high, some low =>
      let (others, c) ← octets fuel (Cursor.forward 3 c)
      return ((16 * high + low).toUInt8 :: others, c)
    | _, _ => throw (malformed "expected an escape sequence of two hexadecimal numbers")

/-- Reads the characters of a tag. -/
def tagChars : Nat → Cursor → Outcome (List Char × Cursor)
  | 0, c => .ok ([], c)
  | fuel + 1, c => do
    let ch := c.here
    if ch == '%' then
      let (codes, c) ← octets (c.rest.length + 1) c
      match Utf8.decode codes with
      | .error _ => throw (malformed "expected an escape sequence of characters")
      | .ok first =>
        let (others, c) ← tagChars fuel c
        return (first.toList ++ others, c)
    else if isTagChar ch then
      let (others, c) ← tagChars fuel c.step
      return (ch :: others, c)
    else return ([], c)

/-- Reads a tag or the start of one, which must not be empty. -/
def tagText (c : Cursor) : Outcome (String × Cursor) := do
  let (text, after) ← tagChars (c.rest.length + 1) c
  if after.index == c.index then throw (malformed "expected a tag")
  return (String.ofList text, after)

/-- Reads a tag handle: an exclamation mark, alone before a space or else with a name and another
mark. -/
def tagHandle (c : Cursor) : Outcome (String × Cursor) := do
  if c.here != '!' then throw (malformed "expected '!'")
  let c := c.step
  if c.here == ' ' then return ("!", c)
  let (name, c) := c.takeWhile isNameChar
  if c.here != '!' then throw (malformed "expected '!'")
  return ("!" ++ String.ofList name ++ "!", c.step)

/-- Reads a tag. -/
def tagName (c : Cursor) : Outcome (TagName × Cursor) := do
  let next := c.peek 1
  let (name, c) ←
    if next == '<' then do
      let (suffix, c) ← tagText (Cursor.forward 2 c)
      if c.here != '>' then throw (malformed "expected '>'")
      pure (⟨none, suffix⟩, c.step)
    else if endsWord next then pure (⟨none, "!"⟩, c.step)
    else do
      let word := (c.rest.drop 1).takeWhile fun ch => !endsPlace ch
      let (handle, c) ← if word.contains '!' then tagHandle c else pure ("!", c.step)
      let (suffix, c) ← tagText c
      pure ((⟨some handle, suffix⟩ : TagName), c)
  if endsPlace c.here then return (name, c) else throw (malformed "expected ' '")

/-- Reads a number of a directive. -/
def number (c : Cursor) : Outcome (Nat × Cursor) :=
  let (digits, c) := c.takeWhile Char.isDigit
  if digits.isEmpty then .error (malformed "expected a digit")
  else if digits.length > digitLimit then .error (Value.tooManyDigits digits.length)
  else .ok (ofDigits (digits.map fun d => d.toNat - 48), c)

/-- Reads a directive after its mark, up to the end of its line. -/
def directiveLine (c : Cursor) : Outcome (Directive × Cursor) := do
  let (name, c) := c.takeWhile isNameChar
  if name.isEmpty || !endsPlace c.here then throw (malformed "expected a directive name")
  let blank (ch : Char) : Bool := ch == ' '
  let (d, c) ← match String.ofList name with
    | "YAML" => do
      let (major, c) ← number (c.skipWhile blank)
      if c.here != '.' then throw (malformed "expected a digit or '.'")
      let (minor, c) ← number c.step
      if !endsPlace c.here then throw (malformed "expected a digit or ' '")
      pure (.version major minor, c)
    | "TAG" => do
      let (handle, c) ← tagHandle (c.skipWhile blank)
      if c.here != ' ' then throw (malformed "expected ' '")
      let (start, c) ← tagText (c.skipWhile blank)
      if !endsPlace c.here then throw (malformed "expected ' '")
      pure (Directive.tag handle start, c)
    | _ => pure (.unknown, c.skipWhile fun ch => !endsLine ch)
  return (d, ← c.skipLineEnd)

end Token

end TextPipeline.Yaml
