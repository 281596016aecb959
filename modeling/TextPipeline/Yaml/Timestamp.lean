import TextPipeline.Decimal.Reading
import TextPipeline.Value.Calendar

/-! What the texts of YAML timestamps stand for: a day, or a day and a time with an offset. -/

namespace TextPipeline.Yaml

open TextPipeline.Decimal

/-- Takes one or two digits off a text. -/
def oneOrTwo? : List Char → Option (Nat × List Char)
  | a :: b :: rest =>
    if a.isDigit then
      if b.isDigit then some ((a.toNat - 48) * 10 + (b.toNat - 48), rest)
      else some (a.toNat - 48, b :: rest)
    else none
  | [a] => if a.isDigit then some (a.toNat - 48, []) else none
  | [] => none

/-- Takes a character off a text. -/
def mark? (c : Char) : List Char → Option (List Char)
  | a :: rest => if a == c then some rest else none
  | [] => none

/-- A day and a time as they are written, before it is checked that they exist. -/
structure Stamp where
  year : Nat
  month : Nat
  day : Nat
  clock : Option (Nat × Nat × Nat × Nat)
  offset : Option Int

/-- Reads the offset after a time: none, a letter for zero, or a sign with hours and perhaps
minutes. -/
def readOffset? (s : List Char) : Option (Option Int) :=
  match s with
  | [] | ['\n'] => some none
  | _ =>
    match s.dropWhile fun c => c == ' ' || c == '\t' with
    | ['Z'] | ['Z', '\n'] => some (some 0)
    | c :: rest => do
      let negative ← if c == '-' then some true else if c == '+' then some false else none
      let (hours, rest) ← oneOrTwo? rest
      let minutes ← match rest with
        | [] | ['\n'] => some 0
        | [':', a, b] | [':', a, b, '\n'] =>
          if a.isDigit && b.isDigit then some ((a.toNat - 48) * 10 + (b.toNat - 48)) else none
        | _ => none
      let seconds : Int := hours * 3600 + minutes * 60
      some (some (if negative then -seconds else seconds))
    | [] => none

/-- The microseconds that the digits after a point stand for; further digits are cut off. -/
def microseconds (digits : List Char) : Nat :=
  let six := (digits.take 6).map fun c => c.toNat - 48
  ofDigits (six ++ List.replicate (6 - six.length) 0)

/-- Reads a day, or a day and a time with an offset. -/
def readStamp? (s : List Char) : Option Stamp := do
  let yearDigits := s.take 4
  if yearDigits.length != 4 || !yearDigits.all Char.isDigit then none
  let year := ofDigits (yearDigits.map fun c => c.toNat - 48)
  let s ← mark? '-' (s.drop 4)
  let (month, s) ← oneOrTwo? s
  let s ← mark? '-' s
  let (day, s) ← oneOrTwo? s
  let isPad (c : Char) : Bool := c == ' ' || c == '\t'
  match s with
  | [] | ['\n'] => return ⟨year, month, day, none, none⟩
  | c :: rest =>
    let s ←
      if c == 'T' || c == 't' then some rest
      else if isPad c then some (rest.dropWhile isPad)
      else none
    let (hour, s) ← oneOrTwo? s
    match s with
    | ':' :: a :: b :: ':' :: d :: e :: rest =>
      if !([a, b, d, e].all Char.isDigit) then none
      let number (x y : Char) : Nat := (x.toNat - 48) * 10 + (y.toNat - 48)
      let (micro, rest) := match rest with
        | '.' :: rest => (microseconds (rest.takeWhile Char.isDigit), rest.dropWhile Char.isDigit)
        | rest => (0, rest)
      let offset ← readOffset? rest
      return ⟨year, month, day, some (hour, number a b, number d e, micro), offset⟩
    | _ => none

/-- Reads a day or a day and a time, which must exist. -/
def readMoment (text : String) : Outcome Moment := do
  match readStamp? text.toList with
  | none => throw (.noAttribute "not a timestamp")
  | some ⟨year, month, day, none, _⟩ => return .date (← Day.make year month day)
  | some ⟨year, month, day, some (hour, minute, second, micro), offset⟩ =>
    let offset ← offset.mapM checkOffset
    let day ← Day.make year month day
    return .dateTime day (← Clock.make hour minute second micro) offset

end TextPipeline.Yaml
