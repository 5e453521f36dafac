import MeasureInference.Binary64.Shortest

/-!
How a number is laid out in text. The digits are those of the shortest decimal. When the leading
digit stands for a power of ten from `10 ^ -5` to `10 ^ 15` they are written in place, always with
a point; otherwise the point follows the leading digit and a signed exponent ends the text.
-/

namespace MeasureInference.Binary64

/-- Digits in place, `lead` being the exponent of the leading one. -/
def inPlace (digits : List Char) (lead : Int) : List Char :=
  if lead < 0 then
    '0' :: '.' :: List.replicate (-lead - 1).toNat '0' ++ digits
  else
    let whole := lead.toNat + 1
    if digits.length ≤ whole then
      digits ++ List.replicate (whole - digits.length) '0' ++ ['.', '0']
    else
      digits.take whole ++ '.' :: digits.drop whole

/-- An exponent behind its mark, the sign always written. -/
def exponentMark (lead : Int) : List Char :=
  'e' :: (if lead < 0 then '-' else '+') :: Nat.toDigits 10 lead.natAbs

/-- Digits with the point behind the leading one. -/
def pointed (digits : List Char) : List Char :=
  match digits with
  | first :: second :: rest => first :: '.' :: second :: rest
  | short => short

def layout (d : Decimal) : List Char :=
  let digits := Nat.toDigits 10 d.digits
  let lead := d.exponent + digits.length - 1
  if -5 ≤ lead ∧ lead ≤ 15 then inPlace digits lead
  else pointed digits ++ exponentMark lead

/-- The text of a finite number. -/
def text (x : Binary64) : List Char :=
  let magnitude := if x.isZero then ['0', '.', '0'] else layout x.shortest
  if x.isNegative then '-' :: magnitude else magnitude

end MeasureInference.Binary64
