/-! Reading octets as UTF-8. A failure names the octets that cannot be read and why. -/

namespace TextPipeline.Text.Utf8

/-- Why octets are not UTF-8. -/
inductive Reason where
  | invalidStart
  | invalidContinuation
  | unexpectedEnd
  deriving DecidableEq, Repr

/-- The wording of a reason. -/
def Reason.text : Reason → String
  | .invalidStart => "invalid start byte"
  | .invalidContinuation => "invalid continuation byte"
  | .unexpectedEnd => "unexpected end of data"

/-- The octets from `start` up to, but not including, `stop` cannot be read. -/
structure Failure where
  start : Nat
  stop : Nat
  reason : Reason
  deriving DecidableEq, Repr

/-- What the first octet of a character asks for: the number of octets that follow it, the range
of the first of those, and the bits that it contributes itself. -/
structure Lead where
  tails : Nat
  low : Nat
  high : Nat
  bits : Nat

/-- The demands of a first octet, or `none` for an octet that starts no character. -/
def lead? (b : Nat) : Option Lead :=
  if b < 0x80 then some ⟨0, 0x80, 0xBF, b⟩
  else if b < 0xC2 then none
  else if b < 0xE0 then some ⟨1, 0x80, 0xBF, b - 0xC0⟩
  else if b == 0xE0 then some ⟨2, 0xA0, 0xBF, 0⟩
  else if b == 0xED then some ⟨2, 0x80, 0x9F, 0xD⟩
  else if b < 0xF0 then some ⟨2, 0x80, 0xBF, b - 0xE0⟩
  else if b == 0xF0 then some ⟨3, 0x90, 0xBF, 0⟩
  else if b < 0xF4 then some ⟨3, 0x80, 0xBF, b - 0xF0⟩
  else if b == 0xF4 then some ⟨3, 0x80, 0x8F, 4⟩
  else none

/-- A character under way: where it starts, the octets still owed, the range of the next one, and
the bits read so far. -/
structure Pending where
  start : Nat
  owed : Nat
  low : Nat
  high : Nat
  bits : Nat

/-- Reads octets from offset `at_`, with `pending` a character under way. -/
def decodeFrom (at_ : Nat) : Option Pending → List UInt8 → Except Failure (List Char)
  | none, [] => .ok []
  | some p, [] => .error ⟨p.start, at_, .unexpectedEnd⟩
  | none, b :: rest =>
    match lead? b.toNat with
    | none => .error ⟨at_, at_ + 1, .invalidStart⟩
    | some ⟨0, _, _, bits⟩ => (decodeFrom (at_ + 1) none rest).map (Char.ofNat bits :: ·)
    | some ⟨tails, low, high, bits⟩ =>
      decodeFrom (at_ + 1) (some ⟨at_, tails, low, high, bits⟩) rest
  | some p, b :: rest =>
    if p.low ≤ b.toNat ∧ b.toNat ≤ p.high then
      let bits := p.bits * 64 + (b.toNat - 0x80)
      if p.owed ≤ 1 then (decodeFrom (at_ + 1) none rest).map (Char.ofNat bits :: ·)
      else decodeFrom (at_ + 1) (some ⟨p.start, p.owed - 1, 0x80, 0xBF, bits⟩) rest
    else .error ⟨p.start, at_, .invalidContinuation⟩

/-- The text that octets spell. -/
def decode (octets : List UInt8) : Except Failure String :=
  (decodeFrom 0 none octets).map String.ofList

end TextPipeline.Text.Utf8
