/-! Dates and times of day. -/

namespace TextPipeline

/-- A day of the calendar. -/
structure Day where
  year : Nat
  month : Nat
  day : Nat
  deriving DecidableEq, Repr, Inhabited

/-- A time of day. -/
structure Clock where
  hour : Nat
  minute : Nat
  second : Nat
  microsecond : Nat
  deriving DecidableEq, Repr, Inhabited

/-- A day, a time of day, or both with an optional offset from universal time in seconds. -/
inductive Moment where
  | date (day : Day)
  | time (clock : Clock)
  | dateTime (day : Day) (clock : Clock) (offset : Option Int)
  deriving DecidableEq, Repr, Inhabited

/-- A number written with at least `width` digits. -/
def padded (width n : Nat) : String :=
  let digits := Nat.toDigits 10 n
  String.ofList (List.replicate (width - digits.length) '0' ++ digits)

def Day.text (d : Day) : String :=
  padded 4 d.year ++ "-" ++ padded 2 d.month ++ "-" ++ padded 2 d.day

/-- Microseconds are written only when there are any. -/
def Clock.text (c : Clock) : String :=
  padded 2 c.hour ++ ":" ++ padded 2 c.minute ++ ":" ++ padded 2 c.second ++
    (if c.microsecond == 0 then "" else "." ++ padded 6 c.microsecond)

/-- An offset as sign, hours and minutes, with seconds only when there are any. -/
def offsetText (seconds : Int) : String :=
  let n := seconds.natAbs
  let sign := if seconds < 0 then "-" else "+"
  sign ++ padded 2 (n / 3600) ++ ":" ++ padded 2 (n / 60 % 60) ++
    (if n % 60 == 0 then "" else ":" ++ padded 2 (n % 60))

/-- The text of a moment, with `separator` between day and time of day. -/
def Moment.text (separator : String) : Moment → String
  | .date d => d.text
  | .time c => c.text
  | .dateTime d c offset => d.text ++ separator ++ c.text ++ (offset.map offsetText).getD ""

/-- Whether a year has a leap day. -/
def isLeapYear (year : Nat) : Bool :=
  year % 4 == 0 && (year % 100 != 0 || year % 400 == 0)

/-- The number of days of a month. -/
def daysInMonth (year month : Nat) : Nat :=
  if month == 2 then (if isLeapYear year then 29 else 28)
  else if month == 4 || month == 6 || month == 9 || month == 11 then 30
  else 31

/-- The number of days from the first day of the calendar to a day. -/
def Day.number (d : Day) : Nat :=
  let years := d.year - 1
  let months := (List.range (d.month - 1)).map fun m => daysInMonth d.year (m + 1)
  years * 365 + years / 4 - years / 100 + years / 400 + months.foldl (· + ·) 0 + (d.day - 1)

/-- The microseconds from the start of the calendar to a day and time of day, in universal time if
the clock runs `offset` seconds ahead of it. -/
def instant (d : Day) (c : Clock) (offset : Int) : Int :=
  (((d.number * 24 + c.hour) * 60 + c.minute) * 60 + c.second : Int) * 1000000 + c.microsecond -
    offset * 1000000

/-- Whether two moments are the same. Offsets make no difference to an instant, but a time with an
offset is never the same as one without. -/
def Moment.sameAs : Moment → Moment → Bool
  | .dateTime d c (some o), .dateTime d' c' (some o') => instant d c o == instant d' c' o'
  | m, m' => m == m'

end TextPipeline
