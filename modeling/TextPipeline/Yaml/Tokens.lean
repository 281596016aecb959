import TextPipeline.Yaml.Scalar
import TextPipeline.Yaml.Token

/-! Cutting a YAML text into tokens. Indentation opens and closes block collections, and a colon
makes a key of the scalar or collection before it on its line, whose place the scanner remembers. -/

namespace TextPipeline.Yaml

/-- The place of a token that may turn out to start a key. -/
structure KeyPlace where
  /-- The number of tokens before the key. -/
  tokens : Nat
  /-- Whether nothing but a key can stand there. -/
  required : Bool
  index : Nat
  line : Nat
  column : Nat

/-- The state of cutting a text into tokens. -/
structure Scanner where
  cursor : Cursor
  /-- The column of the innermost block collection, or minus one outside all. -/
  indent : Int
  /-- The columns of the block collections around it. -/
  indents : List Int
  /-- Whether a key may start here without a mark. -/
  allowKey : Bool
  /-- The possible key of this level. -/
  key : Option KeyPlace
  /-- The possible keys of the levels around this one: one for each open bracket. -/
  outer : List (Option KeyPlace)
  /-- The tokens so far, the last one first. -/
  read : List Token
  /-- Their number. -/
  count : Nat
  /-- The length of the whole text, which bounds every walk through it. -/
  size : Nat

namespace Scanner

/-- The state before a text. -/
def start (s : List Char) : Scanner :=
  ⟨⟨s, 0, 0, 0⟩, -1, [], true, none, [], [], 0, s.length⟩

/-- Whether the scanner is inside brackets. -/
def inFlow (s : Scanner) : Bool := !s.outer.isEmpty

/-- The tokens so far, in order. -/
def tokens (s : Scanner) : List Token := s.read.reverse

def emit (s : Scanner) (t : Token) : Scanner :=
  { s with read := t :: s.read, count := s.count + 1 }

/-- Puts a token behind the first `n`. -/
def insert (s : Scanner) (n : Nat) (t : Token) : Scanner :=
  { s with read := s.read.insertIdx (s.count - n) t, count := s.count + 1 }

/-- Goes on at another place. -/
def moveTo (s : Scanner) (c : Cursor) : Scanner := { s with cursor := c }

/-- Skips blanks, comments and line breaks. After a line break outside brackets a key may
start. -/
def skipBlanks : Nat → Scanner → Scanner
  | 0, s => s
  | fuel + 1, s =>
    let c := s.cursor.skipWhile (· == ' ')
    let c := if c.here == '#' then c.skipWhile fun ch => !endsLine ch else c
    if isBreak c.here then
      skipBlanks fuel { s with cursor := c.lineBreak.2, allowKey := s.allowKey || !s.inFlow }
    else s.moveTo c

/-- The longest distance between the start of a key and its colon. -/
def keyReach : Nat := 1024

/-- A possible key, unless its line has ended or it is too far back. -/
def fresh (c : Cursor) : Option KeyPlace → Outcome (Option KeyPlace)
  | none => .ok none
  | some k =>
    if k.line == c.line && c.index - k.index ≤ keyReach then .ok (some k)
    else if k.required then .error (malformed "could not find expected ':'")
    else .ok none

/-- Forgets the possible keys that can no longer be keys. -/
def dropStaleKeys (s : Scanner) : Outcome Scanner := do
  let key ← fresh s.cursor s.key
  let outer ← s.outer.mapM (fresh s.cursor)
  return { s with key := key, outer := outer }

/-- Forgets the possible key of this level. -/
def forgetKey (s : Scanner) : Outcome Scanner :=
  match s.key with
  | none => .ok s
  | some k =>
    if k.required then .error (malformed "could not find expected ':'")
    else .ok { s with key := none }

/-- Remembers that a key may start here. -/
def rememberKey (s : Scanner) : Outcome Scanner := do
  if !s.allowKey then return s
  let s ← s.forgetKey
  let c := s.cursor
  let required := !s.inFlow && decide (s.indent = c.column)
  return { s with key := some ⟨s.count, required, c.index, c.line, c.column⟩ }

/-- Ends the block collections that are further to the right than a column. -/
def closeFrom (column : Int) (s : Scanner) : List Int → Int → Scanner
  | [], indent => { s with indent := indent, indents := [] }
  | outer :: rest, indent =>
    if indent > column then closeFrom column (s.emit .blockEnd) rest outer
    else { s with indent := indent, indents := outer :: rest }

/-- Ends the block collections that are further to the right than a column; inside brackets
indentation means nothing. -/
def close (column : Int) (s : Scanner) : Scanner :=
  if s.inFlow then s else closeFrom column s s.indents s.indent

/-- Starts a block collection at a column, if it is further to the right than the innermost one. -/
def open? (s : Scanner) (column : Nat) : Option Scanner :=
  if s.indent < column then
    some { s with indent := column, indents := s.indent :: s.indents }
  else none

/-- Starts a block collection at a column with a token, unless it is open already. -/
def openWith (s : Scanner) (column : Nat) (t : Token) : Scanner :=
  match s.open? column with
  | some s => s.emit t
  | none => s

/-- Outside brackets, a mark may only stand where a key may start. -/
def checkAllowed (s : Scanner) : Outcome Unit :=
  if s.inFlow || s.allowKey then .ok ()
  else .error (malformed "collection entries are not allowed here")

/-- Reads a directive, or a mark between documents, which ends all block collections. -/
def separator (s : Scanner) (read : Cursor → Outcome (Token × Cursor)) : Outcome Scanner := do
  let s ← (s.close (-1)).forgetKey
  let (t, c) ← read s.cursor
  return { s with allowKey := false }.emit t |>.moveTo c

/-- Reads an opening bracket. -/
def openFlow (s : Scanner) (t : Token) : Outcome Scanner := do
  let s ← s.rememberKey
  return { s with outer := s.key :: s.outer, key := none, allowKey := true }.emit t
    |>.moveTo s.cursor.step

/-- Reads a closing bracket. -/
def closeFlow (s : Scanner) (t : Token) : Outcome Scanner := do
  let s ← s.forgetKey
  match s.outer with
  | [] => throw (malformed "unexpected closing bracket")
  | key :: outer =>
    return { s with outer := outer, key := key, allowKey := false }.emit t |>.moveTo s.cursor.step

/-- Reads a comma. -/
def flowEntry (s : Scanner) : Outcome Scanner := do
  let s ← s.forgetKey
  return { s with allowKey := true }.emit .flowEntry |>.moveTo s.cursor.step

/-- Reads the dash of a sequence entry. -/
def blockEntry (s : Scanner) : Outcome Scanner := do
  s.checkAllowed
  let s := if s.inFlow then s else s.openWith s.cursor.column .sequenceStart
  let s ← s.forgetKey
  return { s with allowKey := true }.emit .blockEntry |>.moveTo s.cursor.step

/-- Reads the question mark of a key. -/
def keyMark (s : Scanner) : Outcome Scanner := do
  s.checkAllowed
  let s := if s.inFlow then s else s.openWith s.cursor.column .mappingStart
  let s ← s.forgetKey
  return { s with allowKey := !s.inFlow }.emit .key |>.moveTo s.cursor.step

/-- Reads the colon of a value. What stands before it on the line becomes the key. -/
def valueMark (s : Scanner) : Outcome Scanner := do
  let s ← match s.key with
    | some k => do
      let s := { s.insert k.tokens .key with key := none, allowKey := false }
      pure <|
        if s.inFlow then s
        else
          match s.open? k.column with
          | some s => s.insert k.tokens .mappingStart
          | none => s
    | none => do
      s.checkAllowed
      let s := if s.inFlow then s else s.openWith s.cursor.column .mappingStart
      pure { s with allowKey := !s.inFlow }
  return s.emit .value |>.moveTo s.cursor.step

/-- Reads what may be a key: an alias, an anchor, a tag or a quoted scalar. -/
def candidate (s : Scanner) (read : Cursor → Outcome (Token × Cursor)) : Outcome Scanner := do
  let s ← s.rememberKey
  let (t, c) ← read s.cursor
  return { s with allowKey := false }.emit t |>.moveTo c

/-- Reads a plain scalar. -/
def plainScalar (s : Scanner) : Outcome Scanner := do
  let s ← s.rememberKey
  let (text, allowKey, c) :=
    Scalar.plain s.inFlow (s.indent + 1) (s.size + 1) [] false s.cursor
  return { s with allowKey := allowKey }.emit (.scalar (String.ofList text) true) |>.moveTo c

/-- Reads a block scalar. -/
def blockScalar (s : Scanner) (folded : Bool) : Outcome Scanner := do
  let s ← s.forgetKey
  let (text, c) ← Scalar.block folded s.indent s.cursor.step
  return { s with allowKey := true }.emit (.scalar (String.ofList text) false) |>.moveTo c

/-- Reads a quoted scalar. -/
def quotedScalar (s : Scanner) (double : Bool) : Outcome Scanner :=
  s.candidate fun c => do
    let (text, c) ← Scalar.quoted double (s.size + 1) c.step
    return (.scalar (String.ofList text) false, c)

/-- Whether a plain scalar can start with a character, given the next one. -/
def startsPlain (flow : Bool) (ch next : Char) : Bool :=
  !(endsWord ch || ['-', '?', ':', ',', '[', ']', '\x7b', '\x7d', '#', '&', '*', '!', '|', '>',
      '\'', '"', '%', '@', '\x60'].contains ch) ||
    (!endsWord next && (ch == '-' || (!flow && (ch == '?' || ch == ':'))))

/-- Reads the token that stands here. -/
def token (s : Scanner) : Outcome Scanner :=
  let c := s.cursor
  let ch := c.here
  let next := c.peek 1
  let flow := s.inFlow
  if ch == '%' && c.column == 0 then
    s.separator fun c => do
      let (d, c) ← Token.directiveLine c.step
      return (.directive d, c)
  else if c.column == 0 && c.hasMarker '-' then
    s.separator fun c => .ok (.documentStart, Cursor.forward 3 c)
  else if c.column == 0 && c.hasMarker '.' then
    s.separator fun c => .ok (.documentEnd, Cursor.forward 3 c)
  else if ch == '[' then s.openFlow .flowSequenceStart
  else if ch == '\x7b' then s.openFlow .flowMappingStart
  else if ch == ']' then s.closeFlow .flowSequenceEnd
  else if ch == '\x7d' then s.closeFlow .flowMappingEnd
  else if ch == ',' then s.flowEntry
  else if ch == '-' && endsWord next then s.blockEntry
  else if ch == '?' && (flow || endsWord next) then s.keyMark
  else if ch == ':' && (flow || endsWord next) then s.valueMark
  else if ch == '*' then
    s.candidate fun c => do
      let (name, c) ← Token.anchorName c.step
      return (.alias_ name, c)
  else if ch == '&' then
    s.candidate fun c => do
      let (name, c) ← Token.anchorName c.step
      return (.anchor name, c)
  else if ch == '!' then
    s.candidate fun c => do
      let (name, c) ← Token.tagName c
      return (.tag name, c)
  else if ch == '|' && !flow then s.blockScalar false
  else if ch == '>' && !flow then s.blockScalar true
  else if ch == '\'' then s.quotedScalar false
  else if ch == '"' then s.quotedScalar true
  else if startsPlain flow ch next then s.plainScalar
  else .error (malformed "found character that cannot start any token")

/-- The tokens that are settled: those before the first that may turn out to start a key. -/
def settled (s : Scanner) : List Token :=
  match s.dropStaleKeys with
  | .error _ => s.tokens
  | .ok s =>
    let places := (s.key :: s.outer).filterMap fun key => key.map (·.tokens)
    s.tokens.take (places.foldl min s.count)

/-- Reads one more token, or finds the end of the text. -/
def next (s : Scanner) : Outcome (Scanner × Bool) := do
  let s ← (skipBlanks (s.size + 1) s).dropStaleKeys
  let s := s.close s.cursor.column
  if s.cursor.rest.isEmpty then return ((← (s.close (-1)).forgetKey).emit .streamEnd, true)
  else return (← s.token, false)

/-- Reads the tokens up to the end of the text, or up to a fault. -/
def run : Nat → Scanner → List Token × Option Fault
  | 0, s => (s.tokens, none)
  | fuel + 1, s =>
    match s.next with
    | .error fault => (s.settled, some fault)
    | .ok (s, true) => (s.tokens, none)
    | .ok (s, false) => run fuel s

end Scanner

/-- The tokens of a text, up to a fault if there is one. A byte order mark at the start is
skipped. -/
def tokens (text : String) : List Token × Option Fault :=
  let s := text.toList
  if !s.all isAllowed then ([], some (malformed "special characters are not allowed"))
  else
    let start := Scanner.start s
    let start := if start.cursor.here == '\uFEFF' then start.moveTo start.cursor.step else start
    start.run (s.length + 2)

end TextPipeline.Yaml
