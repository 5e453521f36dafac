/-!
Double-precision numbers as bit patterns: one sign bit, eleven exponent bits and fifty-two
fraction bits. A finite pattern stands for `significand * 2 ^ scale` with its sign. Two patterns
are the same number when they are equal or both zero; a NaN is no number and equals nothing.
-/

namespace MeasureInference

structure Binary64 where
  bits : UInt64
  deriving DecidableEq, Repr

namespace Binary64

def isNegative (x : Binary64) : Bool := Nat.pow 2 63 ≤ x.bits.toNat

/-- The pattern without its sign bit. It grows with the magnitude. -/
def magnitude (x : Binary64) : Nat := x.bits.toNat % Nat.pow 2 63

def exponentField (x : Binary64) : Nat := x.magnitude / Nat.pow 2 52

def fraction (x : Binary64) : Nat := x.magnitude % Nat.pow 2 52

def isFinite (x : Binary64) : Bool := x.exponentField != 2047

def isNaN (x : Binary64) : Bool := x.exponentField == 2047 && x.fraction != 0

def isZero (x : Binary64) : Bool := x.magnitude == 0

/-- The hidden bit is set except in the lowest exponent step. -/
def significand (x : Binary64) : Nat :=
  if x.exponentField = 0 then x.fraction else Nat.pow 2 52 + x.fraction

def scale (x : Binary64) : Int :=
  if x.exponentField = 0 then -1074 else (x.exponentField : Int) - 1075

/-- Equality as numbers. -/
def sameNumber (x y : Binary64) : Bool :=
  !x.isNaN && !y.isNaN && (x.bits == y.bits || (x.isZero && y.isZero))

/-- The pattern of a magnitude under a sign. -/
def ofMagnitude (negative : Bool) (magnitude : Nat) : Binary64 :=
  ⟨UInt64.ofNat (if negative then Nat.pow 2 63 + magnitude else magnitude)⟩

def zero (negative : Bool) : Binary64 := ofMagnitude negative 0

/-- The magnitude above all finite ones. -/
def infinity : Nat := 2047 * Nat.pow 2 52

def withSign (negative : Bool) (x : Binary64) : Binary64 := ofMagnitude negative x.magnitude

end Binary64

end MeasureInference
