import MeasureInference.Binary64.Basic

/-!
The shortest decimal that identifies a number. The reals that round to a finite positive number
form an interval around it; the chosen decimal is the point nearest to the number, an exact tie
going to the even digit, on the coarsest decimal grid that has a point in that interval. A point
of a coarser grid would be a shorter decimal, so the digits never end in a zero.
-/

namespace MeasureInference

/-- The decimal `digits * 10 ^ exponent`. -/
structure Decimal where
  digits : Nat
  exponent : Int
  deriving DecidableEq, Repr

namespace Binary64

/-- Compares `a * 10 ^ i` with `b * 2 ^ j`. -/
def comparePowers (a : Nat) (i : Int) (b : Nat) (j : Int) : Ordering :=
  compare (a * Nat.pow 10 i.toNat * Nat.pow 2 (-j).toNat)
    (b * Nat.pow 2 j.toNat * Nat.pow 10 (-i).toNat)

/-- The neighbour below is only half as far away as the one above. -/
def narrowBelow (x : Binary64) : Bool := x.fraction == 0 && 1 < x.exponentField

/-- Whether a decimal lies among the reals that round to the magnitude of `x`. Both ends of the
interval, in quarters of the last place, belong to it exactly when the significand is even. -/
def readsBack (x : Binary64) (d : Decimal) : Bool :=
  let low := 4 * x.significand - (if x.narrowBelow then 1 else 2)
  let high := 4 * x.significand + 2
  let ends := x.significand % 2 == 0
  let toLow := comparePowers d.digits d.exponent low (x.scale - 2)
  let toHigh := comparePowers d.digits d.exponent high (x.scale - 2)
  (toLow == .gt || (ends && toLow == .eq)) && (toHigh == .lt || (ends && toHigh == .eq))

/-- The magnitude of `x` measured in steps of `10 ^ exponent`, as a ratio. -/
def gridRatio (x : Binary64) (exponent : Int) : Nat × Nat :=
  (x.significand * Nat.pow 2 x.scale.toNat * Nat.pow 10 (-exponent).toNat,
    Nat.pow 2 (-x.scale).toNat * Nat.pow 10 exponent.toNat)

/-- The point of one grid that stands for `x`: of the two neighbours of the magnitude that read
back the nearer one, of two equally near ones the even one. -/
def onGrid? (x : Binary64) (exponent : Int) : Option Decimal :=
  let num := (x.gridRatio exponent).1
  let den := (x.gridRatio exponent).2
  let below := num / den
  let lower : Decimal := ⟨below, exponent⟩
  let upper : Decimal := ⟨below + 1, exponent⟩
  match x.readsBack lower, x.readsBack upper with
  | false, false => none
  | true, false => some lower
  | false, true => some upper
  | true, true =>
    match compare (2 * (num % den)) den with
    | .lt => some lower
    | .gt => some upper
    | .eq => some (if below % 2 = 0 then lower else upper)

/-- An exponent whose power of ten lies above all reals that round to the magnitude of `x`. These are
below `2 ^ bound`, and ten lies between `2 ^ 3` and `2 ^ 4`. -/
def exponentAbove (x : Binary64) : Int :=
  let bound := x.scale + 53
  if 0 ≤ bound then (bound + 2) / 3 else -(-bound / 4)

/-- The exponents of the grids that can matter, coarsest first. The last ones are finer than
seventeen digits for every number. -/
def gridExponents (x : Binary64) : List Int :=
  (List.range 100).map fun k : Nat => x.exponentAbove - k

/-- The exact value, as a decimal. -/
def exact (x : Binary64) : Decimal :=
  if 0 ≤ x.scale then ⟨x.significand * Nat.pow 2 x.scale.toNat, 0⟩
  else ⟨x.significand * Nat.pow 5 (-x.scale).toNat, x.scale⟩

/-- The shortest decimal of the magnitude of a finite number other than zero. -/
def shortest (x : Binary64) : Decimal :=
  (x.gridExponents.findSome? x.onGrid?).getD x.exact

end Binary64

end MeasureInference
