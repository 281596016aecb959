import TextPipeline.Toml.Text
import TextPipeline.Value.Calendar
import TextPipeline.Value.Number

/-! Reading TOML numbers, dates and times. -/

namespace TextPipeline.Toml

open TextPipeline.Decimal TextPipeline.Text

/-- The longest stretch of digits of a class, with single underscores between them. -/
def spacedDigits (p : Char → Bool) : List Char → List Char × List Char
  | [] => ([], [])
  | '_' :: c :: rest =>
    if p c then
      let (digits, rest) := spacedDigits p rest
      ('_' :: c :: digits, rest)
    else ([], '_' :: c :: rest)
  | c :: rest =>
    if p c then
      let (digits, rest) := spacedDigits p rest
      (c :: digits, rest)
    else ([], c :: rest)

/-- Digits of a class of which the first is no underscore. -/
def digits? (p : Char → Bool) (s : List Char) : Option (List Char × List Char) :=
  match s with
  | c :: _ => if p c then some (spacedDigits p s) else none
  | [] => none

/-- Reads an integer with the mark of its base. -/
def based? (s : List Char) : Option (Int × List Char) :=
  let read (base : Nat) (letter : Char) (p : Char → Bool) (rest : List Char) :
      Option (Int × List Char) := do
    let (digits, rest) ← digits? p rest
    return (← integerIn? base letter digits, rest)
  match s with
  | '0' :: 'x' :: rest => read 16 'x' (fun c => (hexValue? c).isSome) rest
  | '0' :: 'b' :: rest => read 2 'b' (fun c => c == '0' || c == '1') rest
  | '0' :: 'o' :: rest => read 8 'o' (fun c => '0' ≤ c && c ≤ '7') rest
  | _ => none

/-- The digits before the point of a decimal number, without needless zeros. -/
def whole? (s : List Char) : Option (List Char × List Char) :=
  match s with
  | '0' :: rest => some (['0'], rest)
  | s => digits? Char.isDigit s

/-- The digits after the point, with the point. -/
def fraction (s : List Char) : List Char × List Char :=
  match s with
  | '.' :: rest =>
    match digits? Char.isDigit rest with
    | some (digits, rest) => ('.' :: digits, rest)
    | none => ([], s)
  | s => ([], s)

/-- The exponent, with its mark. -/
def exponent (s : List Char) : List Char × List Char :=
  match s with
  | mark :: sign :: rest =>
    if mark != 'e' && mark != 'E' then ([], s)
    else
      let (lead, rest) :=
        if sign == '+' || sign == '-' then ([mark, sign], rest) else ([mark], sign :: rest)
      match digits? Char.isDigit rest with
      | some (digits, rest) => (lead ++ digits, rest)
      | none => ([], s)
  | s => ([], s)

/-- Reads a decimal number: an integer, unless a fraction or an exponent follows. -/
def decimal? (s : List Char) : Option (Outcome Value × List Char) := do
  let (sign, unsigned) := match s with
    | '+' :: rest => (['+'], rest)
    | '-' :: rest => (['-'], rest)
    | rest => ([], rest)
  let (whole, rest) ← whole? unsigned
  let (frac, rest) := fraction rest
  let (exp, rest) := exponent rest
  if frac.isEmpty && exp.isEmpty then
    let all := sign ++ whole
    some ((Value.readInteger all (quoted (String.ofList all))).map .int, rest)
  else
    let x ← float? (sign ++ whole ++ frac ++ exp)
    some (.ok (.float x), rest)

/-- Reads the names of infinity and of no number. -/
def special? (s : List Char) : Option (Value × List Char) :=
  let word (sign : Bool) (s : List Char) : Option (Value × List Char) :=
    match s with
    | 'i' :: 'n' :: 'f' :: rest =>
      some (.float (if sign then -(1.0 / 0.0) else 1.0 / 0.0), rest)
    | 'n' :: 'a' :: 'n' :: rest => some (.float (0.0 / 0.0), rest)
    | _ => none
  match s with
  | '+' :: rest => word false rest
  | '-' :: rest => word true rest
  | s => word false s

/-- Takes a number of `n` digits off a text. -/
def fixed? (n : Nat) (s : List Char) : Option (Nat × List Char) :=
  let digits := s.take n
  if digits.length == n && digits.all Char.isDigit then
    some (ofDigits (digits.map fun c => c.toNat - 48), s.drop n)
  else none

/-- Takes a character off a text. -/
def mark? (c : Char) : List Char → Option (List Char)
  | a :: rest => if a == c then some rest else none
  | [] => none

/-- Takes a time of day off a text. Digits after the sixth of a fraction are cut off. -/
def clock? (s : List Char) : Option (Clock × List Char) := do
  let (hour, s) ← fixed? 2 s
  let (minute, s) ← fixed? 2 (← mark? ':' s)
  let (second, s) ← fixed? 2 (← mark? ':' s)
  if 23 < hour || 59 < minute || 59 < second then none
  match s with
  | '.' :: c :: rest =>
    if c.isDigit then
      let digits := (c :: rest).takeWhile Char.isDigit
      let six := (digits.take 6).map fun c => c.toNat - 48
      let micro := ofDigits (six ++ List.replicate (6 - six.length) 0)
      some (⟨hour, minute, second, micro⟩, (c :: rest).dropWhile Char.isDigit)
    else some (⟨hour, minute, second, 0⟩, s)
  | s => some (⟨hour, minute, second, 0⟩, s)

/-- Takes an offset from universal time off a text, in seconds. -/
def offset? (s : List Char) : Option (Int × List Char) := do
  match s with
  | c :: rest =>
    if c == 'Z' || c == 'z' then some (0, rest)
    else
      let negative ← if c == '-' then some true else if c == '+' then some false else none
      let (hour, s) ← fixed? 2 rest
      let (minute, s) ← fixed? 2 (← mark? ':' s)
      if 23 < hour || 59 < minute then none
      let seconds : Int := hour * 3600 + minute * 60
      some (if negative then -seconds else seconds, s)
  | [] => none

/-- Reads a date, or a date and a time of day. -/
def date? (s : List Char) : Option (Outcome Value × List Char) := do
  let (year, s) ← fixed? 4 s
  let (month, s) ← fixed? 2 (← mark? '-' s)
  let (day, s) ← fixed? 2 (← mark? '-' s)
  if month < 1 || 12 < month || day < 1 || 31 < day then none
  let checked : Outcome Day :=
    (Day.make year month day).mapError fun _ => malformed "Invalid date or datetime"
  let dateOnly := (checked.map fun d => Value.moment (.date d), s)
  match s with
  | c :: rest =>
    if c != 'T' && c != 't' && c != ' ' then return dateOnly
    match clock? rest with
    | none => return dateOnly
    | some (clock, rest) =>
      let (offset, rest) := match offset? rest with
        | some (offset, rest) => (some offset, rest)
        | none => (none, rest)
      return (checked.map fun d => Value.moment (.dateTime d clock offset), rest)
  | [] => return dateOnly

/-- Reads a scalar that is neither a text nor a truth value. -/
def scalar (s : List Char) : Outcome (Value × List Char) :=
  match date? s with
  | some (v, rest) => v.map (·, rest)
  | none =>
    match clock? s with
    | some (c, rest) => .ok (.moment (.time c), rest)
    | none =>
      match based? s with
      | some (n, rest) => .ok (.int n, rest)
      | none =>
        match decimal? s with
        | some (v, rest) => v.map (·, rest)
        | none =>
          match special? s with
          | some (v, rest) => .ok (v, rest)
          | none => .error (malformed "Invalid value")

end TextPipeline.Toml
