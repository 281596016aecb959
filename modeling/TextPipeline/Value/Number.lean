import TextPipeline.Decimal.Reading
import TextPipeline.Value.Display
import TextPipeline.Value.Equality

/-! Values as numbers: their order, and conversion to integers. -/

namespace TextPipeline

open TextPipeline.Decimal

namespace Value

/-- The fault of comparing values that have no order. -/
def unordered (a b : Value) : Fault :=
  .wrongType ("'<' not supported between instances of '" ++ a.typeName ++ "' and '" ++
    b.typeName ++ "'")

/-- Whether a value is less than an integer. Only numbers are ordered this way. -/
def isBelow (v : Value) (n : Int) : Outcome Bool :=
  match v with
  | .float x =>
    match parts x with
    | .nan => .ok false
    | .infinity negative => .ok negative
    | .finite b => .ok (b.compare (Binary.ofInt n) == .lt)
  | .int i => .ok (i < n)
  | .bool b => .ok ((if b then 1 else 0) < n)
  | v => .error (unordered v (.int n))

/-- Whether a value is greater than an integer. Only numbers are ordered this way. -/
def isAbove (v : Value) (n : Int) : Outcome Bool :=
  match v with
  | .float x =>
    match parts x with
    | .nan => .ok false
    | .infinity negative => .ok !negative
    | .finite b => .ok (b.compare (Binary.ofInt n) == .gt)
  | .int i => .ok (n < i)
  | .bool b => .ok (n < (if b then 1 else 0))
  | v => .error (.wrongType ("'>' not supported between instances of '" ++ v.typeName ++
      "' and 'int'"))

/-- The fault of an integer with too many digits. -/
def tooManyDigits (digits : Nat) : Fault :=
  .badValue ("Exceeds the limit (" ++ toString digitLimit ++
    " digits) for integer string conversion: value has " ++ toString digits ++
    " digits; use sys.set_int_max_str_digits() to increase the limit")

/-- The fault of a text that does not spell an integer to a base; of `shown`, the text as it is
quoted, two hundred characters are given. -/
def notInteger (base : Nat) (shown : String) : Fault :=
  .badValue ("invalid literal for int() with base " ++ toString base ++ ": " ++
    String.ofList (shown.toList.take 200))

/-- The integer that a text spells; `shown` is the text as it is quoted in the fault. -/
def readInteger (s : List Char) (shown : String) : Outcome Int :=
  match integer? s with
  | .ok n => .ok n
  | .error .malformed => .error (notInteger 10 shown)
  | .error (.tooLong digits) => .error (tooManyDigits digits)

/-- A value as an integer: numbers lose their fraction, and texts are read. -/
def toInteger (v : Value) : Outcome Int :=
  match v with
  | .int n => .ok n
  | .bool b => .ok (if b then 1 else 0)
  | .float x =>
    match parts x with
    | .nan => .error (.badValue "cannot convert float NaN to integer")
    | .infinity _ => .error (.raised "OverflowError" [.str "cannot convert float infinity to integer"])
    | .finite b => .ok b.truncate
  | .str s => readInteger s.toList (Text.quoted s)
  | .bytes octets =>
    readInteger (octets.map fun b => if b < 128 then Char.ofNat b.toNat else '?')
      (Text.quotedOctets octets)
  | v =>
    .error (.wrongType ("int() argument must be a string, a bytes-like object or a real number, " ++
      "not '" ++ v.typeName ++ "'"))

end Value

/-- Texts in order of their characters. -/
def sortTexts (texts : List String) : List String :=
  texts.mergeSort fun a b => !decide (b < a)

/-- The texts among `values` in order, joined for a message. Values other than texts cannot be
joined. -/
def joinSorted (values : List Value) : Outcome String := do
  let texts ← values.mapM fun v =>
    match v with
    | .str s => Except.ok s
    | v => .error (.wrongType ("sequence item 0: expected str instance, " ++ v.typeName ++ " found"))
  return commaSeparated (sortTexts texts)

end TextPipeline
