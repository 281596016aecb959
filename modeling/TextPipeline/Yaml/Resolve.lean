import TextPipeline.Yaml.Cursor

/-! The tag of a plain scalar, which is known by its form. -/

namespace TextPipeline.Yaml

namespace Tag

/-- A tag of the standard types. -/
def standard (name : String) : String := "tag:yaml.org,2002:" ++ name

end Tag

namespace Form

/-- The rests of a text after one part of a form, for every way of reading the part. -/
abbrev Pattern := List Char → List (List Char)

/-- One character of a class. -/
def one (p : Char → Bool) : Pattern
  | [] => []
  | c :: rest => if p c then [rest] else []

/-- A fixed text. -/
def exactly (s : String) : Pattern := fun t =>
  if s.toList.isPrefixOf t then [t.drop s.length] else []

/-- One part and then another. -/
def seq (a b : Pattern) : Pattern := fun t => (a t).flatMap b

/-- Either part. -/
def alt (a b : Pattern) : Pattern := fun t => a t ++ b t

/-- A part that may be missing. -/
def opt (a : Pattern) : Pattern := fun t => a t ++ [t]

/-- Any number of characters of a class. -/
def many (p : Char → Bool) : Pattern
  | [] => [[]]
  | c :: rest => if p c then many p rest ++ [c :: rest] else [c :: rest]

/-- At least one character of a class. -/
def some_ (p : Char → Bool) : Pattern := seq (one p) (many p)

/-- A part repeated at least once and at most `n` times. -/
def repeated (a : Pattern) : Nat → Pattern
  | 0 => fun _ => []
  | n + 1 => fun t => (a t).flatMap fun rest => rest :: repeated a n rest

/-- Parts one after another. -/
def all : List Pattern → Pattern
  | [] => fun t => [t]
  | a :: rest => seq a (all rest)

/-- One of several parts. -/
def anyOf : List Pattern → Pattern
  | [] => fun _ => []
  | a :: rest => alt a (anyOf rest)

/-- A part only where nothing has been read yet and nothing follows. -/
def nothing : Pattern := fun t => if t.isEmpty then [t] else []

/-- Whether a text has a form. A line feed may end it. -/
def holds (a : Pattern) (text : List Char) : Bool :=
  (a text).any fun rest => rest == [] || rest == ['\n']

def isDigit (c : Char) : Bool := c.isDigit

/-- Digits and the underscores between them. -/
def isSpaced (c : Char) : Bool := c.isDigit || c == '_'

def sign : Pattern := opt (one fun c => c == '-' || c == '+')

/-- Digits with underscores, of which the first is a digit. -/
def digits : Pattern := seq (one isDigit) (many isSpaced)

/-- The later parts of a number to base sixty. -/
def sixtieths : Pattern := fun t =>
  repeated (all [exactly ":", opt (one fun c => '0' ≤ c && c ≤ '5'), one isDigit]) t.length t

/-- The exponent of a floating-point number, which must have a sign. -/
def exponent : Pattern :=
  all [one fun c => c == 'e' || c == 'E', one fun c => c == '-' || c == '+', some_ isDigit]

def bool : Pattern :=
  anyOf <| ["yes", "Yes", "YES", "no", "No", "NO", "true", "True", "TRUE", "false", "False",
    "FALSE", "on", "On", "ON", "off", "Off", "OFF"].map exactly

def float : Pattern :=
  anyOf [
    all [sign, digits, exactly ".", many isSpaced, opt exponent],
    all [exactly ".", digits, opt exponent],
    all [sign, digits, sixtieths, exactly ".", many isSpaced],
    all [sign, anyOf ([".inf", ".Inf", ".INF"].map exactly)],
    anyOf ([".nan", ".NaN", ".NAN"].map exactly)]

def int : Pattern :=
  anyOf [
    all [sign, exactly "0b", some_ fun c => c == '0' || c == '1' || c == '_'],
    all [sign, exactly "0", some_ fun c => ('0' ≤ c && c ≤ '7') || c == '_'],
    all [sign, anyOf [exactly "0", seq (one fun c => '1' ≤ c && c ≤ '9') (many isSpaced)]],
    all [sign, exactly "0x", some_ fun c =>
      isSpaced c || ('a' ≤ c && c ≤ 'f') || ('A' ≤ c && c ≤ 'F')],
    all [sign, one fun c => '1' ≤ c && c ≤ '9', many isSpaced, sixtieths]]

def null : Pattern :=
  alt (anyOf (["~", "null", "Null", "NULL"].map exactly)) nothing

/-- Two digits. -/
def two : Pattern := seq (one isDigit) (one isDigit)

/-- One or two digits. -/
def oneOrTwo : Pattern := seq (one isDigit) (opt (one isDigit))

def timestamp : Pattern :=
  let isPad (c : Char) : Bool := c == ' ' || c == '\t'
  anyOf [
    all [two, two, exactly "-", two, exactly "-", two],
    all [two, two, exactly "-", oneOrTwo, exactly "-", oneOrTwo,
      alt (one fun c => c == 'T' || c == 't') (some_ isPad),
      oneOrTwo, exactly ":", two, exactly ":", two,
      opt (seq (exactly ".") (many isDigit)),
      opt (seq (many isPad) (alt (exactly "Z")
        (all [one fun c => c == '-' || c == '+', oneOrTwo, opt (seq (exactly ":") two)])))]]

end Form

/-- The tag of a plain scalar: the first of the standard types whose form it has. -/
def Tag.ofText (text : String) : String :=
  let forms : List (String × Form.Pattern) := [
    ("bool", Form.bool),
    ("float", Form.float),
    ("int", Form.int),
    ("merge", Form.exactly "<<"),
    ("null", Form.null),
    ("timestamp", Form.timestamp),
    ("value", Form.exactly "="),
    ("yaml", Form.anyOf (["!", "&", "*"].map Form.exactly))]
  match forms.find? fun (_, form) => Form.holds form text.toList with
  | some (name, _) => Tag.standard name
  | none => Tag.standard "str"

end TextPipeline.Yaml
