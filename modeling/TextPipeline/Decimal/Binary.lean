/-! Floating-point numbers as exact binary fractions. -/

namespace TextPipeline.Decimal

/-- The number `mantissa · 2 ^ exponent`, negated if `negative`. -/
structure Binary where
  negative : Bool
  mantissa : Nat
  exponent : Int
  deriving DecidableEq, Repr

/-- What a floating-point number stands for. -/
inductive Parts where
  | nan
  | infinity (negative : Bool)
  | finite (value : Binary)
  deriving DecidableEq, Repr

/-- The parts of the number with the bit pattern `bits`. -/
def partsOfBits (bits : Nat) : Parts :=
  let negative := bits / Nat.pow 2 63 % 2 == 1
  let exponent : Nat := bits / Nat.pow 2 52 % Nat.pow 2 11
  let fraction := bits % Nat.pow 2 52
  if exponent == 2047 then
    if fraction == 0 then .infinity negative else .nan
  else if exponent == 0 then .finite ⟨negative, fraction, -1074⟩
  else .finite ⟨negative, fraction + Nat.pow 2 52, (exponent : Int) - 1075⟩

/-- The parts of a floating-point number. -/
def parts (x : Float) : Parts :=
  partsOfBits x.toBits.toNat

namespace Binary

/-- The signed mantissa. -/
def signed (b : Binary) : Int :=
  if b.negative then -(b.mantissa : Int) else b.mantissa

/-- The number as a fraction: numerator and denominator, which is a power of two. -/
def fraction (b : Binary) : Int × Nat :=
  (b.signed * (Nat.pow 2 b.exponent.toNat : Nat), Nat.pow 2 (-b.exponent).toNat)

/-- The integer next to the number on the side of zero. -/
def truncate (b : Binary) : Int :=
  Int.tdiv b.fraction.1 b.fraction.2

/-- The order of two numbers. -/
def compare (a b : Binary) : Ordering :=
  Ord.compare (a.fraction.1 * b.fraction.2) (b.fraction.1 * a.fraction.2)

/-- An integer as a binary fraction. -/
def ofInt (n : Int) : Binary :=
  ⟨n < 0, n.natAbs, 0⟩

end Binary

end TextPipeline.Decimal
