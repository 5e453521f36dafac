import MeasureInference.Json.Reader
import MeasureInference.Json.Value
import MeasureInference.Binary64.Scaled

/-!
Reading numbers. The digits of a number are gathered into a significand of sixty-four bits.
Digits that do not fit are counted when they stand in front of the point and dropped behind it.
A number without point, exponent and lost digits is whole, unless it is the negative zero or lies
below the least signed word; every other one is a decimal.
-/

namespace MeasureInference.Json

def digitValue (c : Char) : Nat := c.toNat - '0'.toNat

/-- Gathers digits behind `value` while the value stays below `limit`: the value, how many digits
were taken, and what follows them. -/
def gatherDigits (limit : Nat) (value : Nat) : List Char → Nat × Nat × List Char
  | [] => (value, 0, [])
  | c :: rest =>
    if c.isDigit && value * 10 + digitValue c < limit then
      let (v, taken, left) := gatherDigits limit (value * 10 + digitValue c) rest
      (v, taken + 1, left)
    else (value, 0, c :: rest)

def startsWithDigit : List Char → Bool
  | [] => false
  | c :: _ => c.isDigit

namespace Reader

def gather (limit value : Nat) : Reader (Nat × Nat) := fun s =>
  let (v, taken, left) := gatherDigits limit value s
  .ok ((v, taken), left)

def peekDigit : Reader Bool := fun s => .ok (startsWithDigit s, s)

/-- A decimal from its significand and the exponent of its last digit. -/
def decimal (negative : Bool) (significand : Nat) (exponent : Int) : Reader Number :=
  match Binary64.scaled? significand exponent with
  | some x => pure (.decimal (x.withSign negative))
  | none => failHere .numberOutOfRange

/-- Takes the next character if it may open an exponent. -/
def acceptExponentMark : Reader Bool := do
  if ← accept 'e' then pure true else accept 'E'

/-- The exponent, behind its mark. One that no word of thirty-two bits holds is out of range when
it makes the number large, and makes it zero otherwise. -/
def exponent (negative : Bool) (significand : Nat) (start : Int) : Reader Number := do
  let negativeExponent ← accept '-'
  unless negativeExponent do discard (accept '+')
  unless ← peekDigit do
    failNext (if (← peek).isNone then .endInValue else .invalidNumber)
  let (value, _) ← gather (Nat.pow 2 31) 0
  if ← peekDigit then
    if significand ≠ 0 ∧ negativeExponent = false then failNext .numberOutOfRange
    else do
      discard (takeWhile Char.isDigit)
      pure (.decimal (Binary64.zero negative))
  else
    decimal negative significand (if negativeExponent then start - value else start + value)

/-- What may follow the digits of a decimal. -/
def exponentOrEnd (negative : Bool) (significand : Nat) (start : Int) : Reader Number := do
  if ← acceptExponentMark then exponent negative significand start
  else decimal negative significand start

/-- The digits behind the point. -/
def fraction (negative : Bool) (significand lost : Nat) : Reader Number := do
  let (value, places) ← gather UInt64.size significand
  if ← peekDigit then
    discard (takeWhile Char.isDigit)
    exponentOrEnd negative value ((lost : Int) - places)
  else if places = 0 then
    failNext (if (← peek).isNone then .endInValue else .invalidNumber)
  else
    exponentOrEnd negative value ((lost : Int) - places)

/-- The number of a row of digits, without point and exponent and with none of them lost. -/
def integer (negative : Bool) (significand : Nat) : Number :=
  if negative = false then .whole significand
  else if 1 ≤ significand ∧ significand ≤ Nat.pow 2 63 then .whole (-significand)
  else .decimal ((Binary64.ofNat significand).withSign true)

/-- What may follow the digits in front of the point, `lost` of which did not fit. -/
def afterInteger (negative : Bool) (significand lost : Nat) : Reader Number := do
  if ← accept '.' then fraction negative significand lost
  else if ← acceptExponentMark then exponent negative significand lost
  else if lost = 0 then pure (integer negative significand)
  else decimal negative significand lost

/-- A number without its sign. No digit follows a leading zero. -/
def unsigned (negative : Bool) : Reader Number := do
  match ← peek with
  | none => failNext .endInValue
  | some c =>
    if c = '0' then
      skip
      if ← peekDigit then failNext .invalidNumber
      else afterInteger negative 0 0
    else if c.isDigit then
      let (significand, _) ← gather UInt64.size 0
      let lost ← takeWhile Char.isDigit
      afterInteger negative significand lost.length
    else failNext .invalidNumber

def number : Reader Number := do
  let negative ← accept '-'
  unsigned negative

end Reader

/-- Whether a character may open a number. -/
def opensNumber (c : Char) : Bool := c = '-' || c.isDigit

end MeasureInference.Json
