import MeasureInference.Binary64.Round

/-!
A decimal `significand * 10 ^ exponent` as a double-precision number, computed in rounded steps:
the significand is rounded first, then scaled by rounded powers of ten, each at most `10 ^ 308`.
The result is close to the decimal and often, but not always, the number nearest to it.
-/

namespace MeasureInference.Binary64

/-- The greatest power of ten that one step scales by. -/
def greatestPower : Nat := 308

/-- Divides by the greatest power of ten `rounds` times. A zero stays what it is. -/
def sink : Nat → Binary64 → Binary64
  | 0, x => x
  | rounds + 1, x => if x.isZero then x else sink rounds (x.div (powerOfTen greatestPower))

/-- The magnitude of `significand * 10 ^ exponent`, or nothing when it leaves the finite range. A
zero significand stays in range under any exponent. -/
def scaled? (significand : Nat) : Int → Option Binary64
  | .ofNat exponent =>
    let x := ofNat significand
    if exponent ≤ greatestPower then
      let product := x.mul (powerOfTen exponent)
      if product.isFinite then some product else none
    else if x.isZero then some x
    else none
  | .negSucc places =>
    let x := sink (places / greatestPower) (ofNat significand)
    some (x.div (powerOfTen (places % greatestPower + 1)))

end MeasureInference.Binary64
