/-! Octets written with sixty-four characters, six bits each. -/

namespace TextPipeline.Text

/-- The six bits that a character stands for. -/
def sextet? (c : Char) : Option Nat :=
  let n := c.toNat
  if 65 ≤ n ∧ n ≤ 90 then some (n - 65)
  else if 97 ≤ n ∧ n ≤ 122 then some (n - 71)
  else if 48 ≤ n ∧ n ≤ 57 then some (n + 4)
  else if c == '+' then some 62
  else if c == '/' then some 63
  else none

/-- Reads octets from a text. Characters that stand for nothing are passed over. `filled` counts
the characters since the last full group of four, `left` holds the bits that are not yet part of an
octet, and `pads` counts the padding marks; enough of them end the text. -/
def readBase64? (filled left pads : Nat) : List Char → Option (List UInt8)
  | [] => if filled == 0 then some [] else none
  | c :: rest =>
    if c == '=' then
      if filled ≥ 2 then
        if filled + pads + 1 ≥ 4 then some [] else readBase64? filled left (pads + 1) rest
      else readBase64? filled left pads rest
    else
      match sextet? c with
      | none => readBase64? filled left pads rest
      | some n =>
        match filled with
        | 0 => readBase64? 1 n 0 rest
        | 1 => (readBase64? 2 (n % 16) 0 rest).map ((left * 4 + n / 16).toUInt8 :: ·)
        | 2 => (readBase64? 3 (n % 4) 0 rest).map ((left * 16 + n / 4).toUInt8 :: ·)
        | _ => (readBase64? 0 0 0 rest).map ((left * 64 + n).toUInt8 :: ·)

end TextPipeline.Text
