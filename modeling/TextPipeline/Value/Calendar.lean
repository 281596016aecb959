import TextPipeline.Value.Basic

/-! Checked dates and times. -/

namespace TextPipeline

/-- A day that exists. -/
def Day.make (year month day : Nat) : Outcome Day := do
  if year < 1 || 9999 < year then
    throw (.badValue ("year " ++ toString year ++ " is out of range"))
  if month < 1 || 12 < month then throw (.badValue "month must be in 1..12")
  if day < 1 || daysInMonth year month < day then
    throw (.badValue "day is out of range for month")
  return ⟨year, month, day⟩

/-- A time of day that exists. -/
def Clock.make (hour minute second microsecond : Nat) : Outcome Clock := do
  if 23 < hour then throw (.badValue "hour must be in 0..23")
  if 59 < minute then throw (.badValue "minute must be in 0..59")
  if 59 < second then throw (.badValue "second must be in 0..59")
  return ⟨hour, minute, second, microsecond⟩

/-- The text of a difference of times, as it is quoted in faults. -/
def differenceText (seconds : Int) : String :=
  let days := seconds.fdiv 86400
  let rest := seconds.fmod 86400
  let parts := (if days == 0 then [] else ["days=" ++ toString days]) ++
    (if rest == 0 then [] else ["seconds=" ++ toString rest])
  "datetime.timedelta(" ++ (if parts.isEmpty then "0" else ", ".intercalate parts) ++ ")"

/-- An offset from universal time in seconds, which is less than a day either way. -/
def checkOffset (seconds : Int) : Outcome Int :=
  if -86400 < seconds && seconds < 86400 then .ok seconds
  else .error (.badValue ("offset must be a timedelta strictly between -timedelta(hours=24) and " ++
    "timedelta(hours=24), not " ++ differenceText seconds ++ "."))

end TextPipeline
