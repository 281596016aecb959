import TextPipeline.Value.Basic

/-! A place in a YAML text, with what follows it. -/

namespace TextPipeline.Yaml

/-- The fault of a text that is not YAML. -/
def malformed (why : String) : Fault := .raised "YAMLError" [.str why]

/-- Whether a character breaks a line. -/
def isBreak (c : Char) : Bool :=
  c == '\n' || c == '\r' || c == '\x85' || c == '\u2028' || c == '\u2029'

/-- The character that stands for the end of a text, in which it cannot occur. -/
def endMark : Char := '\x00'

/-- Whether a character ends a line: a break or the end of the text. -/
def endsLine (c : Char) : Bool :=
  c == endMark || isBreak c

/-- Whether a character ends a word within a line, tabs apart. -/
def endsPlace (c : Char) : Bool :=
  c == ' ' || endsLine c

/-- Whether a character ends a word. -/
def endsWord (c : Char) : Bool :=
  c == '\t' || endsPlace c

/-- Whether a character may occur in a text. -/
def isAllowed (c : Char) : Bool :=
  let n := c.toNat
  n == 9 || n == 10 || n == 13 || (0x20 ≤ n && n ≤ 0x7E) || n == 0x85 ||
    (0xA0 ≤ n && n ≤ 0xD7FF) || (0xE000 ≤ n && n ≤ 0xFFFD) || 0x10000 ≤ n

/-- A place in a text. -/
structure Cursor where
  rest : List Char
  index : Nat
  line : Nat
  column : Nat

namespace Cursor

/-- The character `k` places on. -/
def peek (c : Cursor) (k : Nat) : Char :=
  (c.rest.drop k).head?.getD endMark

/-- The next character. -/
def here (c : Cursor) : Char := c.peek 0

/-- The place after the next character. A byte order mark takes no column. -/
def step (c : Cursor) : Cursor :=
  match c.rest with
  | [] => c
  | ch :: rest =>
    let ends := isBreak ch && !(ch == '\r' && rest.head? == some '\n')
    if ends then ⟨rest, c.index + 1, c.line + 1, 0⟩
    else ⟨rest, c.index + 1, c.line, if ch == '\uFEFF' then c.column else c.column + 1⟩

/-- The place `n` characters on. -/
def forward : Nat → Cursor → Cursor
  | 0, c => c
  | n + 1, c => forward n c.step

/-- The longest stretch of characters that satisfy `p`, and the place after it. -/
def takeWhile (c : Cursor) (p : Char → Bool) : List Char × Cursor :=
  let taken := c.rest.takeWhile p
  (taken, forward taken.length c)

/-- The place after the characters that satisfy `p`. -/
def skipWhile (c : Cursor) (p : Char → Bool) : Cursor :=
  (c.takeWhile p).2

/-- Reads a line break; the ordinary ones are all read as a line feed. -/
def lineBreak (c : Cursor) : List Char × Cursor :=
  let ch := c.here
  if ch == '\r' && c.peek 1 == '\n' then (['\n'], forward 2 c)
  else if ch == '\r' || ch == '\n' || ch == '\x85' then (['\n'], c.step)
  else if isBreak ch then ([ch], c.step)
  else ([], c)

/-- Whether three characters and the end of a word follow. -/
def hasMarker (c : Cursor) (mark : Char) : Bool :=
  c.peek 0 == mark && c.peek 1 == mark && c.peek 2 == mark && endsWord (c.peek 3)

/-- Whether a mark that separates documents follows. -/
def hasSeparator (c : Cursor) : Bool :=
  c.hasMarker '-' || c.hasMarker '.'

/-- The place after the spaces and the comment that end a line; nothing else may stand there. -/
def skipLineEnd (c : Cursor) : Outcome Cursor :=
  let c := c.skipWhile (· == ' ')
  let c := if c.here == '#' then c.skipWhile fun ch => !endsLine ch else c
  if endsLine c.here then .ok c.lineBreak.2
  else .error (malformed "expected a comment or a line break")

end Cursor

/-- Whether a character may be part of a name. -/
def isNameChar (c : Char) : Bool :=
  c.isAlphanum || c == '-' || c == '_'

end TextPipeline.Yaml
