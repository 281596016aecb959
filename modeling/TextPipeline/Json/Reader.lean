import TextPipeline.Value.Number
import TextPipeline.Text.Hex

/-! Reading JSON. Besides the standard grammar the words `NaN`, `Infinity` and `-Infinity` are
numbers, and of several members with one name the last one counts. A failure holds the rest of the
text at which it was noticed, from which its line and column are found. -/

namespace TextPipeline.Json

open TextPipeline.Decimal TextPipeline.Text

/-- Why a text is not JSON. -/
inductive Problem where
  | value
  | name
  | colon
  | comma
  | extra
  | unterminated
  | control
  | badEscape
  | badUnicode
  | byteOrderMark
  deriving DecidableEq, Repr

/-- The wording of a problem. -/
def Problem.text : Problem → String
  | .value => "Expecting value"
  | .name => "Expecting property name enclosed in double quotes"
  | .colon => "Expecting ':' delimiter"
  | .comma => "Expecting ',' delimiter"
  | .extra => "Extra data"
  | .unterminated => "Unterminated string starting at"
  | .control => "Invalid control character at"
  | .badEscape => "Invalid \\escape"
  | .badUnicode => "Invalid \\uXXXX escape"
  | .byteOrderMark => "Unexpected UTF-8 BOM (decode using utf-8-sig)"

/-- Why reading failed: a problem with the rest of the text at its place, or an integer of more
digits than are read. -/
inductive Failure where
  | malformed (problem : Problem) (rest : List Char)
  | tooManyDigits (digits : Nat)
  deriving DecidableEq, Repr

/-- Whether a character may stand between tokens. -/
def isSpace (c : Char) : Bool :=
  c == ' ' || c == '\t' || c == '\n' || c == '\r'

/-- A text without the space at its start. -/
def skipSpace (s : List Char) : List Char :=
  s.dropWhile isSpace

/-- The character that a letter after a backslash stands for. -/
def escape? : Char → Option Char
  | '"' => some '"'
  | '\\' => some '\\'
  | '/' => some '/'
  | 'b' => some '\x08'
  | 'f' => some '\x0c'
  | 'n' => some '\n'
  | 'r' => some '\r'
  | 't' => some '\t'
  | _ => none

/-- Reads the code units of a string after its opening quote; `opening` is the text from that quote
on. A unit escape needs four digits with another character after them. -/
def readUnits (opening : List Char) : List Char → Except Failure (List Nat × List Char)
  | [] => .error (.malformed .unterminated opening)
  | '"' :: rest => .ok ([], rest)
  | ['\\'] => .error (.malformed .unterminated opening)
  | '\\' :: 'u' :: a :: b :: c :: d :: e :: rest =>
    match readHex? [a, b, c, d] with
    | some n => do
      let (units, rest) ← readUnits opening (e :: rest)
      return (n :: units, rest)
    | none => .error (.malformed .badUnicode ('u' :: a :: b :: c :: d :: e :: rest))
  | '\\' :: 'u' :: rest => .error (.malformed .badUnicode ('u' :: rest))
  | '\\' :: c :: rest =>
    match escape? c with
    | some c => do
      let (units, rest) ← readUnits opening rest
      return (c.toNat :: units, rest)
    | none => .error (.malformed .badEscape ('\\' :: c :: rest))
  | c :: rest =>
    if c.toNat < 0x20 then .error (.malformed .control (c :: rest))
    else do
      let (units, rest) ← readUnits opening rest
      return (c.toNat :: units, rest)

/-- The character of a code unit that stands alone; half a surrogate pair has none. -/
def unitChar (n : Nat) : Char :=
  if 0xD800 ≤ n ∧ n < 0xE000 then '\uFFFD' else Char.ofNat n

/-- The characters that code units spell: a high and a low surrogate make one. -/
def ofUnits : List Nat → List Char
  | [] => []
  | [n] => [unitChar n]
  | n :: m :: rest =>
    if 0xD800 ≤ n ∧ n < 0xDC00 ∧ 0xDC00 ≤ m ∧ m < 0xE000 then
      Char.ofNat (0x10000 + (n - 0xD800) * 0x400 + (m - 0xDC00)) :: ofUnits rest
    else unitChar n :: ofUnits (m :: rest)

/-- Reads a string after its opening quote. -/
def readString (opening s : List Char) : Except Failure (String × List Char) := do
  let (units, rest) ← readUnits opening s
  return (String.ofList (ofUnits units), rest)

/-- Whether a character is a decimal digit. -/
def isDigit (c : Char) : Bool :=
  '0' ≤ c && c ≤ '9'

/-- The parts of a number: the digits before the point, those after it, and the exponent, if there
are any. -/
structure Numeral where
  negative : Bool
  whole : List Char
  fraction : Option (List Char)
  exponent : Option Int

/-- The value of decimal digits. -/
def digitsValue (digits : List Char) : Nat :=
  digits.foldl (fun n c => n * 10 + (c.toNat - 48)) 0

/-- Reads the digits before the point: a zero alone, or digits that start with no zero. -/
def readWhole? : List Char → Option (List Char × List Char)
  | '0' :: rest => some (['0'], rest)
  | c :: rest =>
    if isDigit c then some (c :: rest.takeWhile isDigit, rest.dropWhile isDigit) else none
  | [] => none

/-- Reads the digits after the point. -/
def readFraction : List Char → Option (List Char) × List Char
  | '.' :: c :: rest =>
    if isDigit c then (some (c :: rest.takeWhile isDigit), rest.dropWhile isDigit)
    else (none, '.' :: c :: rest)
  | rest => (none, rest)

/-- The sign of an exponent. -/
def readSign : List Char → Bool × List Char
  | '-' :: rest => (true, rest)
  | '+' :: rest => (false, rest)
  | rest => (false, rest)

/-- Reads an exponent. -/
def readExponent (s : List Char) : Option Int × List Char :=
  match s with
  | c :: rest =>
    if c == 'e' || c == 'E' then
      let (negative, digits) := readSign rest
      let taken := digits.takeWhile isDigit
      if taken.isEmpty then (none, s)
      else
        let n : Int := digitsValue taken
        (some (if negative then -n else n), digits.dropWhile isDigit)
    else (none, s)
  | [] => (none, s)

/-- The longest numeral that a text starts with. -/
def readNumeral? (s : List Char) : Option (Numeral × List Char) := do
  let (negative, unsigned) := match s with
    | '-' :: rest => (true, rest)
    | rest => (false, rest)
  let (whole, rest) ← readWhole? unsigned
  let (fraction, rest) := readFraction rest
  let (exponent, rest) := readExponent rest
  return (⟨negative, whole, fraction, exponent⟩, rest)

/-- The number that a numeral denotes: an integer unless it has a fraction or an exponent. -/
def Numeral.value (n : Numeral) : Except Failure Value :=
  match n.fraction, n.exponent with
  | none, none =>
    if n.whole.length > digitLimit then .error (.tooManyDigits n.whole.length)
    else
      let size : Int := digitsValue n.whole
      .ok (.int (if n.negative then -size else size))
  | _, _ =>
    let fraction := n.fraction.getD []
    .ok (.float (nearestFloat n.negative (digitsValue (n.whole ++ fraction))
      (n.exponent.getD 0 - fraction.length)))

/-- The words that stand for values. -/
def words : List (List Char × Value) :=
  [("null".toList, .none), ("true".toList, .bool true), ("false".toList, .bool false),
    ("NaN".toList, .float (0.0 / 0.0)), ("Infinity".toList, .float (1.0 / 0.0)),
    ("-Infinity".toList, .float (-1.0 / 0.0))]

/-- Reads a word. -/
def readWord? (s : List Char) : Option (Value × List Char) :=
  words.findSome? fun (word, v) =>
    if word.isPrefixOf s then some (v, s.drop word.length) else none

/-- Reads a word or a number. -/
def readScalar (s : List Char) : Except Failure (Value × List Char) :=
  match readWord? s with
  | some result => .ok result
  | none =>
    match readNumeral? s with
    | some (n, rest) => n.value.map fun v => (v, rest)
    | none => .error (.malformed .value s)

mutual

/-- Reads a value, with no space before it; `fuel` bounds the steps. -/
def readValue : Nat → List Char → Except Failure (Value × List Char)
  | 0, s => .error (.malformed .value s)
  | fuel + 1, '\x7b' :: rest => do
    match skipSpace rest with
    | '\x7d' :: rest => return (.dict [], rest)
    | rest =>
      let (members, rest) ← readMembers fuel rest
      return (.dict (Entries.ofList members), rest)
  | fuel + 1, '[' :: rest => do
    match skipSpace rest with
    | ']' :: rest => return (.list [], rest)
    | rest =>
      let (items, rest) ← readItems fuel rest
      return (.list items, rest)
  | _ + 1, '"' :: rest => do
    let (s, rest) ← readString ('"' :: rest) rest
    return (.str s, rest)
  | _ + 1, s => readScalar s

/-- Reads the members of an object, at least one, and its closing brace. -/
def readMembers : Nat → List Char → Except Failure (List (Value × Value) × List Char)
  | 0, s => .error (.malformed .name s)
  | fuel + 1, '"' :: rest => do
    let (name, rest) ← readString ('"' :: rest) rest
    match skipSpace rest with
    | ':' :: rest =>
      let (v, rest) ← readValue fuel (skipSpace rest)
      match skipSpace rest with
      | '\x7d' :: rest => return ([(.str name, v)], rest)
      | ',' :: rest =>
        let (others, rest) ← readMembers fuel (skipSpace rest)
        return ((.str name, v) :: others, rest)
      | rest => .error (.malformed .comma rest)
    | rest => .error (.malformed .colon rest)
  | _ + 1, s => .error (.malformed .name s)

/-- Reads the elements of an array, at least one, and its closing bracket. -/
def readItems : Nat → List Char → Except Failure (List Value × List Char)
  | 0, s => .error (.malformed .value s)
  | fuel + 1, s => do
    let (v, rest) ← readValue fuel s
    match skipSpace rest with
    | ']' :: rest => return ([v], rest)
    | ',' :: rest =>
      let (others, rest) ← readItems fuel (skipSpace rest)
      return (v :: others, rest)
    | rest => .error (.malformed .comma rest)

end

/-- Reads a whole text. -/
def read (s : List Char) : Except Failure Value :=
  match s with
  | '\uFEFF' :: _ => .error (.malformed .byteOrderMark s)
  | _ => do
    let (v, rest) ← readValue (s.length + 1) (skipSpace s)
    match skipSpace rest with
    | [] => return v
    | rest => .error (.malformed .extra rest)

/-- The fault of a text `s` that cannot be read: the problem, and the line, column and number of
characters before it. -/
def Failure.fault (s : List Char) : Failure → Fault
  | .malformed problem rest =>
    let before := s.take (s.length - rest.length)
    let line := before.count '\n' + 1
    let column := (before.reverse.takeWhile (· != '\n')).length + 1
    .raised "JSONDecodeError" [.str (problem.text ++ ": line " ++ toString line ++ " column " ++
      toString column ++ " (char " ++ toString before.length ++ ")")]
  | .tooManyDigits digits => Value.tooManyDigits digits

/-- The value that a text spells. -/
def ofString (text : String) : Outcome Value :=
  match read text.toList with
  | .ok v => .ok v
  | .error failure => .error (failure.fault text.toList)

end TextPipeline.Json
