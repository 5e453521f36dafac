import MeasureInference.Binary64.Basic

/-!
Arithmetic on double-precision numbers: the exact result as a ratio of naturals, rounded once to
the nearest number, a half going to the even neighbour. Results above the largest finite number
become infinite.
-/

namespace MeasureInference.Binary64

/-- The integer nearest to `num / den`, a half going to the even neighbour. -/
def nearestInteger (num den : Nat) : Nat :=
  let below := num / den
  let rest := num % den
  if 2 * rest < den then below
  else if den < 2 * rest then below + 1
  else below + below % 2

/-- The greatest power of two, by its exponent, that is at most the positive ratio `num / den`. -/
def binaryExponent (num den : Nat) : Int :=
  let guess : Int := (num.log2 : Int) - den.log2
  if den * Nat.pow 2 guess.toNat ≤ num * Nat.pow 2 (-guess).toNat then guess else guess - 1

/-- The magnitude nearest to `num / den`. A significand that rounds up to `2 ^ 53` carries into the
exponent step by itself, because the steps are laid end to end. -/
def nearestMagnitude (num den : Nat) : Nat :=
  if num = 0 then 0
  else
    let scale := max (binaryExponent num den - 52) (-1074)
    let significand :=
      nearestInteger (num * Nat.pow 2 (-scale).toNat) (den * Nat.pow 2 scale.toNat)
    min infinity ((scale + 1074).toNat * Nat.pow 2 52 + significand)

def ofRatio (negative : Bool) (num den : Nat) : Binary64 :=
  ofMagnitude negative (nearestMagnitude num den)

def ofNat (n : Nat) : Binary64 := ofRatio false n 1

/-- A finite magnitude as numerator and denominator. -/
def ratio (x : Binary64) : Nat × Nat :=
  (x.significand * Nat.pow 2 x.scale.toNat, Nat.pow 2 (-x.scale).toNat)

/-- The product of two finite numbers. -/
def mul (x y : Binary64) : Binary64 :=
  ofRatio (x.isNegative != y.isNegative) (x.ratio.1 * y.ratio.1) (x.ratio.2 * y.ratio.2)

/-- The quotient of two finite numbers, the second not zero. -/
def div (x y : Binary64) : Binary64 :=
  ofRatio (x.isNegative != y.isNegative) (x.ratio.1 * y.ratio.2) (x.ratio.2 * y.ratio.1)

/-- The number nearest to `10 ^ k`. -/
def powerOfTen (k : Nat) : Binary64 := ofNat (Nat.pow 10 k)

end MeasureInference.Binary64
