import TextPipeline.Decimal.Binary

/-! The shortest decimal that reads back as a given floating-point number, and its text. -/

namespace TextPipeline.Decimal

/-- A positive binary fraction with the ends of the interval of reals that round to it, all three
as numerators over one denominator. The ends belong to the interval if `closed`. -/
structure Interval where
  low : Nat
  value : Nat
  high : Nat
  denominator : Nat
  closed : Bool

/-- The interval around `mantissa · 2 ^ exponent`. Below a power of two the numbers lie half as far
apart, so that the lower end is nearer there. -/
def Interval.around (mantissa : Nat) (exponent : Int) : Interval :=
  let scale := Nat.pow 2 exponent.toNat
  let below := if mantissa == Nat.pow 2 52 && exponent != -1074 then 1 else 2
  ⟨(4 * mantissa - below) * scale, 4 * mantissa * scale, (4 * mantissa + 2) * scale,
    4 * Nat.pow 2 (-exponent).toNat, mantissa % 2 == 0⟩

/-- Whether `n / d` lies in the interval. -/
def Interval.holds (i : Interval) (n d : Nat) : Bool :=
  if i.closed then i.low * d ≤ n * i.denominator && n * i.denominator ≤ i.high * d
  else i.low * d < n * i.denominator && n * i.denominator < i.high * d

/-- Multiplies a fraction by `10 ^ k`. -/
def scaleTen (n d : Nat) (k : Int) : Nat × Nat :=
  (n * Nat.pow 10 k.toNat, d * Nat.pow 10 (-k).toNat)

/-- The least `e` with `n / d < 10 ^ e`. The binary logarithms are off by less than one each, so
that `e` is one of four neighbours of the estimate. -/
def magnitude (n d : Nat) : Int :=
  let estimate : Int := ((n.log2 : Int) - d.log2) * 30103 / 100000
  let candidates := [estimate - 1, estimate, estimate + 1, estimate + 2]
  (candidates.find? fun e =>
    let (a, b) := scaleTen n d (-e)
    decide (a < b)).getD (estimate + 3)

/-- A decimal `digits · 10 ^ exponent`. -/
structure Scientific where
  digits : Nat
  exponent : Int
  deriving DecidableEq, Repr

/-- The decimal with `count` significant digits nearest to the interval's value, if one lies in the
interval; `top` is the value's magnitude. Of two that are equally near the even one is taken. -/
def nearest? (i : Interval) (top : Int) (count : Nat) : Option Scientific :=
  let exponent := top - (count : Int)
  let (n, d) := scaleTen i.value i.denominator (-exponent)
  let floor := n / d
  let inside (digits : Nat) : Bool :=
    let (a, b) := scaleTen digits 1 exponent
    i.holds a b
  match inside floor, inside (floor + 1) with
  | false, false => none
  | true, false => some ⟨floor, exponent⟩
  | false, true => some ⟨floor + 1, exponent⟩
  | true, true =>
    let twice := 2 * (n % d)
    if twice < d || (twice == d && floor % 2 == 0) then some ⟨floor, exponent⟩
    else some ⟨floor + 1, exponent⟩

/-- The decimal with the fewest digits that reads back as `mantissa · 2 ^ exponent`. -/
def shortest (mantissa : Nat) (exponent : Int) : Scientific :=
  let i := Interval.around mantissa exponent
  let top := magnitude i.value i.denominator
  (((List.range 17).map (· + 1)).findSome? (nearest? i top)).getD ⟨0, 0⟩

/-- The decimal digits of a number. -/
def digitsOf (n : Nat) : List Char :=
  Nat.toDigits 10 n

/-- How floating-point numbers are written: positionally with at least one fractional digit when
the point falls after between `1 - leading` and `trailing` digits, and otherwise with an exponent
of at least two digits. -/
structure FloatStyle where
  leading : Nat
  trailing : Nat
  exponentWidth : Nat
  nan : String
  infinity : String

/-- Positional from a ten-thousandth up to sixteen digits before the point. -/
def FloatStyle.plain : FloatStyle :=
  ⟨4, 16, 2, "nan", "inf"⟩

/-- The plain style with the spellings of a data file. -/
def FloatStyle.data : FloatStyle :=
  { FloatStyle.plain with nan := "NaN", infinity := "Infinity" }

/-- Digits on the left filled with zeros to a width. -/
def padLeft (width : Nat) (s : List Char) : List Char :=
  List.replicate (width - s.length) '0' ++ s

/-- The text of a positive decimal, without needless zeros at the end. -/
def FloatStyle.scientific (style : FloatStyle) (x : Scientific) : List Char :=
  let all := digitsOf x.digits
  let point : Int := (all.length : Int) + x.exponent
  let kept := (all.reverse.dropWhile (· == '0')).reverse
  let digits := if kept.isEmpty then ['0'] else kept
  if -(style.leading : Int) < point && point ≤ style.trailing then
    if point ≤ 0 then ['0', '.'] ++ List.replicate (-point).toNat '0' ++ digits
    else
      let whole := point.toNat
      if digits.length ≤ whole then
        digits ++ List.replicate (whole - digits.length) '0' ++ ['.', '0']
      else digits.take whole ++ '.' :: digits.drop whole
  else
    let fraction := digits.drop 1
    let sign := if point - 1 < 0 then '-' else '+'
    let exponent := padLeft style.exponentWidth (digitsOf (point - 1).natAbs)
    digits.take 1 ++ (if fraction.isEmpty then [] else '.' :: fraction) ++ 'e' :: sign :: exponent

/-- The text of a floating-point number. -/
def FloatStyle.text (style : FloatStyle) (x : Float) : String :=
  match parts x with
  | .nan => style.nan
  | .infinity negative => (if negative then "-" else "") ++ style.infinity
  | .finite b =>
    let sign := if b.negative then ['-'] else []
    let body :=
      if b.mantissa == 0 then ['0', '.', '0']
      else style.scientific (shortest b.mantissa b.exponent)
    String.ofList (sign ++ body)

end TextPipeline.Decimal
