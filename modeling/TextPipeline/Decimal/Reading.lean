import TextPipeline.Text.Blank
import TextPipeline.Text.Digit
import TextPipeline.Text.Hex

/-! Reading numbers from text. -/

namespace TextPipeline.Decimal

open TextPipeline.Text

/-- The number of digits beyond which an integer is not read. -/
def digitLimit : Nat := 4300

/-- Why a text is not read as an integer. -/
inductive IntegerFailure where
  | malformed
  | tooLong (digits : Nat)
  deriving DecidableEq, Repr

/-- The digits of a text in which single underscores may stand between digits; `fresh` says that
the next character must be a digit. -/
def digits? (fresh : Bool) : List Char → Option (List Nat)
  | [] => if fresh then none else some []
  | '_' :: rest => if fresh then none else digits? true rest
  | c :: rest => do
    let d ← digit? c
    return d :: (← digits? false rest)

/-- A text without the blanks around it. The four separator controls are no blanks here. -/
def trimmed (s : List Char) : List Char :=
  dropEnd isPadding (s.dropWhile isPadding)
where
  isPadding (c : Char) : Bool := isBlank c && !(28 ≤ c.toNat && c.toNat ≤ 31)

/-- The number that decimal digits spell. -/
def ofDigits (digits : List Nat) : Nat :=
  digits.foldl (fun n d => n * 10 + d) 0

/-- A sign at the start of a number, true if it is negative, and what follows it. -/
def signed : List Char → Bool × List Char
  | '-' :: rest => (true, rest)
  | '+' :: rest => (false, rest)
  | rest => (false, rest)

/-- Reads an integer: blanks around it, an optional sign, and digits of any script. Of a text that
starts with too many digits nothing more is read. -/
def integer? (s : List Char) : Except IntegerFailure Int :=
  let (negative, unsigned) := signed (trimmed s)
  let inNumber (c : Char) : Bool := c == '_' || (digit? c).isSome
  match digits? true (unsigned.takeWhile inNumber) with
  | none => .error .malformed
  | some digits =>
    if digits.length > digitLimit then .error (.tooLong digits.length)
    else if unsigned.any (!inNumber ·) then .error .malformed
    else
      let n : Int := ofDigits digits
      .ok (if negative then -n else n)

/-- The digits to a base of a text in which single underscores may stand between digits; `fresh`
says that the next character must be a digit. -/
def baseDigits? (base : Nat) (fresh : Bool) : List Char → Option (List Nat)
  | [] => if fresh then none else some []
  | '_' :: rest => if fresh then none else baseDigits? base true rest
  | c :: rest => do
    let d ← (digit? c).or (hexValue? c)
    if d < base then return d :: (← baseDigits? base false rest) else none

/-- A text without the mark of a base at its start, if digits follow; an underscore may stand
between them. -/
def dropBaseMark (letter : Char) : List Char → List Char
  | '0' :: c :: '_' :: rest =>
    if c.toLower == letter then rest else '0' :: c :: '_' :: rest
  | '0' :: c :: rest => if c.toLower == letter then rest else '0' :: c :: rest
  | s => s

/-- Reads an integer to base 2, 8 or 16, with the letter that may mark the base: blanks around it,
an optional sign, the optional mark, and digits. -/
def integerIn? (base : Nat) (letter : Char) (s : List Char) : Option Int := do
  let (negative, unsigned) := signed (trimmed s)
  let digits ← baseDigits? base true (dropBaseMark letter unsigned)
  let n : Nat := digits.foldl (fun n d => n * base + d) 0
  return if negative then -(n : Int) else n

/-- The floating-point number nearest to `mantissa · 10 ^ exponent`. Numbers of more than four
hundred places either way are infinite or zero, whatever their digits. -/
def nearestFloat (negative : Bool) (mantissa : Nat) (exponent : Int) : Float :=
  let size : Int := (Nat.toDigits 10 mantissa).length + exponent
  let x : Float :=
    if mantissa == 0 then 0.0
    else if size > 400 then 1.0 / 0.0
    else if size < -400 then 0.0
    else if exponent < 0 then Float.ofScientific mantissa true exponent.natAbs
    else Float.ofScientific mantissa false exponent.toNat
  if negative then -x else x

/-- Reads a floating-point number: blanks around it, an optional sign, and a decimal number with
an optional exponent or the name of infinity or of no number. Single underscores may stand between
digits. -/
def float? (s : List Char) : Option Float :=
  let (negative, unsigned) := signed (trimmed s)
  let sign (x : Float) : Float := if negative then -x else x
  match String.ofList (unsigned.map Char.toLower) with
  | "inf" | "infinity" => some (sign (1.0 / 0.0))
  | "nan" => some (0.0 / 0.0)
  | _ => do
    let isMark (c : Char) : Bool := c == 'e' || c == 'E'
    let number := unsigned.takeWhile (!isMark ·)
    let exponent ← match unsigned.dropWhile (!isMark ·) with
      | [] => some 0
      | _ :: '-' :: rest => (digits? true rest).map fun d => -(ofDigits d : Int)
      | _ :: '+' :: rest => (digits? true rest).map fun d => (ofDigits d : Int)
      | _ :: rest => (digits? true rest).map fun d => (ofDigits d : Int)
    let whole := number.takeWhile (· != '.')
    let fraction := (number.dropWhile (· != '.')).drop 1
    if whole.isEmpty && fraction.isEmpty then none
    else
      let wholeDigits ← if whole.isEmpty then some [] else digits? true whole
      let fractionDigits ← if fraction.isEmpty then some [] else digits? true fraction
      some (nearestFloat negative (ofDigits (wholeDigits ++ fractionDigits))
        (exponent - fractionDigits.length))

end TextPipeline.Decimal
