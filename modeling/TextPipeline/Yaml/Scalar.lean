import TextPipeline.Text.Hex
import TextPipeline.Yaml.Cursor

/-! Reading YAML scalars: block scalars with their indentation, quoted scalars with their escapes,
and plain scalars. -/

namespace TextPipeline.Yaml.Scalar

open TextPipeline.Text

/-- What happens to the line breaks at the end of a block scalar. -/
inductive Chomping where
  | clip
  | strip
  | keep
  deriving DecidableEq, Repr

/-- The chomping that a sign stands for. -/
def chomping? (c : Char) : Option Chomping :=
  if c == '+' then some .keep else if c == '-' then some .strip else none

/-- An explicit indentation, which is not zero. -/
def increment? (c : Char) : Outcome (Option Nat) :=
  if c == '0' then .error (malformed "expected an indentation indicator from 1 to 9")
  else if c.isDigit then .ok (some (c.toNat - 48))
  else .ok none

/-- Reads the indicators after the mark of a block scalar: chomping and indentation in either
order, both optional. -/
def indicators (c : Cursor) : Outcome (Chomping × Option Nat × Cursor) := do
  let (chomping, increment, c) ← match chomping? c.here with
    | some chomping => do
      let c := c.step
      let increment ← increment? c.here
      pure (chomping, increment, if increment.isSome then c.step else c)
    | none => do
      let increment ← increment? c.here
      let c := if increment.isSome then c.step else c
      match increment, chomping? c.here with
      | some n, some chomping => pure (chomping, some n, c.step)
      | increment, _ => pure (.clip, increment, c)
  if endsPlace c.here then return (chomping, increment, c)
  else throw (malformed "expected chomping or indentation indicators")

/-- Skips spaces up to a column. -/
def skipIndent (indent : Nat) : Nat → Cursor → Cursor
  | 0, c => c
  | fuel + 1, c =>
    if c.column < indent && c.here == ' ' then skipIndent indent fuel c.step else c

/-- Reads empty lines, and the indentation of the line after them. -/
def emptyLines (indent : Nat) : Nat → Cursor → List Char × Cursor
  | 0, c => ([], c)
  | fuel + 1, c =>
    let c := skipIndent indent c.rest.length c
    if isBreak c.here then
      let (first, c) := c.lineBreak
      let (others, c) := emptyLines indent fuel c
      (first ++ others, c)
    else ([], c)

/-- Reads the empty lines before the first line of a block scalar and the spaces before that line,
and finds the deepest indentation among them. -/
def findIndent : Nat → Nat → Cursor → List Char × Nat × Cursor
  | 0, deepest, c => ([], deepest, c)
  | fuel + 1, deepest, c =>
    if c.here == ' ' then
      let c := c.step
      findIndent fuel (max deepest c.column) c
    else if isBreak c.here then
      let (first, c) := c.lineBreak
      let (others, deepest, c) := findIndent fuel deepest c
      (first ++ others, deepest, c)
    else ([], deepest, c)

/-- Whether a character starts a line that is not folded. -/
def isIndented (c : Char) : Bool := c == ' ' || c == '\t'

/-- Reads the lines of a block scalar; `breaks` are the line breaks before the next line. The
result ends with the last line break and the breaks after it. -/
def blockLines (folded : Bool) (indent : Nat) :
    Nat → List Char → Cursor → List Char × List Char × List Char × Cursor
  | 0, breaks, c => ([], [], breaks, c)
  | fuel + 1, breaks, c =>
    if c.column == indent && c.here != endMark then
      let flush := !isIndented c.here
      let (line, c) := c.takeWhile fun ch => !endsLine ch
      let (lineBreak, c) := c.lineBreak
      let (after, c) := emptyLines indent (c.rest.length + 1) c
      if c.column == indent && c.here != endMark then
        let joint :=
          if folded && lineBreak == ['\n'] && flush && !isIndented c.here then
            if after.isEmpty then [' '] else []
          else lineBreak
        let (text, last, trailing, c) := blockLines folded indent fuel after c
        (breaks ++ line ++ joint ++ text, last, trailing, c)
      else (breaks ++ line, lineBreak, after, c)
    else ([], [], breaks, c)

/-- Reads a block scalar after its mark; `parent` is the indentation around it. -/
def block (folded : Bool) (parent : Int) (c : Cursor) : Outcome (List Char × Cursor) := do
  let (chomping, increment, c) ← indicators c
  let c ← c.skipLineEnd
  let least := (max (parent + 1) 1).toNat
  let fuel := c.rest.length + 1
  let (indent, breaks, c) := match increment with
    | some n =>
      let indent := least + n - 1
      let (breaks, c) := emptyLines indent fuel c
      (indent, breaks, c)
    | none =>
      let (breaks, deepest, c) := findIndent fuel 0 c
      (max least deepest, breaks, c)
  let (text, last, trailing, c) := blockLines folded indent fuel breaks c
  return match chomping with
    | .strip => (text, c)
    | .clip => (text ++ last, c)
    | .keep => (text ++ last ++ trailing, c)

/-- The character that a letter after a backslash stands for. -/
def escape? : Char → Option Char
  | '0' => some '\x00'
  | 'a' => some '\x07'
  | 'b' => some '\x08'
  | 't' => some '\t'
  | '\t' => some '\t'
  | 'n' => some '\n'
  | 'v' => some '\x0b'
  | 'f' => some '\x0c'
  | 'r' => some '\r'
  | 'e' => some '\x1b'
  | ' ' => some ' '
  | '"' => some '"'
  | '\\' => some '\\'
  | '/' => some '/'
  | 'N' => some '\x85'
  | '_' => some '\xa0'
  | 'L' => some '\u2028'
  | 'P' => some '\u2029'
  | _ => none

/-- The number of digits of the code after a letter. -/
def codeLength? : Char → Option Nat
  | 'x' => some 2
  | 'u' => some 4
  | 'U' => some 8
  | _ => none

/-- Reads the line breaks and spaces between two lines of a quoted scalar. -/
def quotedBreaks : Nat → Cursor → Outcome (List Char × Cursor)
  | 0, c => .ok ([], c)
  | fuel + 1, c => do
    if c.hasSeparator then throw (malformed "found unexpected document separator")
    let c := c.skipWhile fun ch => ch == ' ' || ch == '\t'
    if isBreak c.here then
      let (first, c) := c.lineBreak
      let (others, c) ← quotedBreaks fuel c
      return (first ++ others, c)
    else return ([], c)

/-- Reads a character given by its code. -/
def coded (length : Nat) (c : Cursor) : Outcome (List Char × Cursor) :=
  match readHex? (c.rest.take length), decide (length ≤ c.rest.length) with
  | some n, true =>
    if n < 0x110000 then .ok ([Char.ofNat n], Cursor.forward length c)
    else if n ≥ 0x80000000 then
      .error (.raised "OverflowError" [.str "signed integer is greater than maximum"])
    else .error (.badValue "chr() arg not in range(0x110000)")
  | _, _ => .error (malformed "expected an escape sequence of hexadecimal numbers")

/-- Reads an escape after its backslash. -/
def escaped (c : Cursor) : Outcome (List Char × Cursor) :=
  match escape? c.here, codeLength? c.here with
  | some ch, _ => .ok ([ch], c.step)
  | none, some length => coded length c.step
  | none, none =>
    if isBreak c.here then
      let c := c.lineBreak.2
      quotedBreaks (c.rest.length + 1) c
    else .error (malformed "found unknown escape character")

/-- Reads the blanks of a quoted scalar: within a line they are kept, and at its end they are
folded. -/
def quotedBlanks (c : Cursor) : Outcome (List Char × Cursor) := do
  let (blanks, c) := c.takeWhile fun ch => ch == ' ' || ch == '\t'
  if c.here == endMark then throw (malformed "found unexpected end of stream")
  else if isBreak c.here then
    let (lineBreak, c) := c.lineBreak
    let (breaks, c) ← quotedBreaks (c.rest.length + 1) c
    let joint := if lineBreak != ['\n'] then lineBreak else if breaks.isEmpty then [' '] else []
    return (joint ++ breaks, c)
  else return (blanks, c)

/-- Reads a quoted scalar after its opening quote, up to and with the closing one. -/
def quoted (double : Bool) : Nat → Cursor → Outcome (List Char × Cursor)
  | 0, _ => .error (malformed "found unexpected end of stream")
  | fuel + 1, c => do
    let ch := c.here
    if !double && ch == '\'' && c.peek 1 == '\'' then
      let (text, c) ← quoted double fuel (Cursor.forward 2 c)
      return ('\'' :: text, c)
    else if ch == (if double then '"' else '\'') then return ([], c.step)
    else if double && ch == '\\' then
      let (first, c) ← escaped c.step
      let (text, c) ← quoted double fuel c
      return (first ++ text, c)
    else if endsWord ch then
      let (first, c) ← quotedBlanks c
      let (text, c) ← quoted double fuel c
      return (first ++ text, c)
    else
      let (text, c) ← quoted double fuel c.step
      return (ch :: text, c)

/-- Reads the blanks after a piece of a plain scalar: what joins it to the next piece, or `none` if
the scalar ends here, and whether a line was broken. -/
def plainBlanks (c : Cursor) : Option (List Char) × Bool × Cursor :=
  let (blanks, c) := c.takeWhile (· == ' ')
  if isBreak c.here then
    let (lineBreak, c) := c.lineBreak
    if c.hasSeparator then (none, true, c)
    else
      let (breaks, c) := more (c.rest.length + 1) c
      match breaks with
      | none => (none, true, c)
      | some breaks =>
        let joint :=
          if lineBreak != ['\n'] then lineBreak else if breaks.isEmpty then [' '] else []
        (some (joint ++ breaks), true, c)
  else (if blanks.isEmpty then none else some blanks, false, c)
where
  more : Nat → Cursor → Option (List Char) × Cursor
    | 0, c => (some [], c)
    | fuel + 1, c =>
      if c.here == ' ' then more fuel c.step
      else if isBreak c.here then
        let (first, c) := c.lineBreak
        if c.hasSeparator then (none, c)
        else
          let (others, c) := more fuel c
          (others.map (first ++ ·), c)
      else (some [], c)

/-- Whether a plain scalar ends before the text `s`. -/
def plainEnds (flow : Bool) (s : List Char) : Bool :=
  let ch := s.head?.getD endMark
  let next := (s.drop 1).head?.getD endMark
  endsWord ch ||
    (ch == ':' && (endsWord next || (flow && [',', '[', ']', '\x7b', '\x7d'].contains next))) ||
    (flow && [',', '?', '[', ']', '\x7b', '\x7d'].contains ch)

/-- The length of the piece of a plain scalar that a text starts with. -/
def pieceLength (flow : Bool) : List Char → Nat
  | [] => 0
  | ch :: rest => if plainEnds flow (ch :: rest) then 0 else pieceLength flow rest + 1

/-- Reads a plain scalar; `indent` is the least column of its further lines. The result says
whether a simple key may follow, which is so after a line break. -/
def plain (flow : Bool) (indent : Int) :
    Nat → List Char → Bool → Cursor → List Char × Bool × Cursor
  | 0, _, key, c => ([], key, c)
  | fuel + 1, spaces, key, c =>
    let length := pieceLength flow c.rest
    if c.here == '#' || length == 0 then ([], key, c)
    else
      let piece := spaces ++ c.rest.take length
      let (joint, broken, c) := plainBlanks (Cursor.forward length c)
      match joint with
      | none => (piece, broken, c)
      | some joint =>
        if c.here == '#' || (!flow && (c.column : Int) < indent) then (piece, broken, c)
        else
          let (text, key, c) := plain flow indent fuel joint broken c
          (piece ++ text, key, c)

end TextPipeline.Yaml.Scalar
