import MeasureInference.Binary64.Scaled
import MeasureInference.Proofs.Binary64.Rounding
import MeasureInference.Proofs.Shortest

/-!
Sign and magnitude of what arithmetic computes.

Each operation rounds the exact result once. Its magnitude is the one that the exact result rounds
to, cut off at infinity.
-/

namespace MeasureInference.Binary64

theorem infinity_lt : infinity < 2 ^ 63 := by decide

theorem nearestMagnitude_lt (num den : Nat) : nearestMagnitude num den < 2 ^ 63 := by
  rw [nearestMagnitude]
  split
  · decide
  · exact Nat.lt_of_le_of_lt (Nat.min_le_left _ _) infinity_lt

/-! ### Patterns -/

theorem toNat_bits_ofMagnitude (negative : Bool) {m : Nat} (h : m < 2 ^ 63) :
    (ofMagnitude negative m).bits.toNat = if negative then 2 ^ 63 + m else m := by
  have hpow : Nat.pow 2 63 = 2 ^ 63 := rfl
  rw [ofMagnitude, UInt64.toNat_ofNat', hpow]
  cases negative <;> simp only [if_true, Bool.false_eq_true, if_false] <;> omega

theorem magnitude_ofMagnitude (negative : Bool) {m : Nat} (h : m < 2 ^ 63) :
    (ofMagnitude negative m).magnitude = m := by
  have hpow : Nat.pow 2 63 = 2 ^ 63 := rfl
  rw [magnitude, toNat_bits_ofMagnitude negative h, hpow]
  split <;> omega

theorem isNegative_ofMagnitude (negative : Bool) {m : Nat} (h : m < 2 ^ 63) :
    (ofMagnitude negative m).isNegative = negative := by
  have hpow : Nat.pow 2 63 = 2 ^ 63 := rfl
  rw [isNegative, toNat_bits_ofMagnitude negative h, hpow]
  cases negative with
  | false => simpa using h
  | true => simp

theorem magnitude_lt (x : Binary64) : x.magnitude < 2 ^ 63 := Nat.mod_lt _ (by decide)

theorem magnitude_withSign (negative : Bool) (x : Binary64) :
    (x.withSign negative).magnitude = x.magnitude :=
  magnitude_ofMagnitude negative x.magnitude_lt

theorem isNegative_withSign (negative : Bool) (x : Binary64) :
    (x.withSign negative).isNegative = negative :=
  isNegative_ofMagnitude negative x.magnitude_lt

/-- A pattern is its sign and its magnitude. -/
theorem eq_of_magnitude {x y : Binary64} (hsign : x.isNegative = y.isNegative)
    (hmagnitude : x.magnitude = y.magnitude) : x = y := by
  have hpow : Nat.pow 2 63 = 2 ^ 63 := rfl
  have hx := x.bits.toNat_lt
  have hy := y.bits.toNat_lt
  rw [isNegative, isNegative, hpow, decide_eq_decide] at hsign
  rw [magnitude, magnitude, hpow] at hmagnitude
  obtain ⟨x⟩ := x
  obtain ⟨y⟩ := y
  dsimp only at *
  congr 1
  apply UInt64.toNat_inj.mp
  omega

theorem isFinite_iff {x : Binary64} (h : x.magnitude ≤ infinity) :
    x.isFinite = true ↔ x.magnitude < infinity := by
  have hinfinity : infinity = 2047 * 2 ^ 52 := rfl
  have hpow : Nat.pow 2 52 = 2 ^ 52 := rfl
  rw [isFinite, bne_iff_ne, exponentField, hpow]
  omega

theorem magnitude_lt_infinity {x : Binary64} (hfinite : x.isFinite = true) : x.magnitude < infinity := by
  have hpow : Nat.pow 2 52 = 2 ^ 52 := rfl
  have hinfinity : infinity = 2047 * 2 ^ 52 := rfl
  have hlt := x.magnitude_lt
  rw [isFinite, bne_iff_ne, exponentField, hpow] at hfinite
  omega

/-! ### Rounded results -/

theorem magnitude_ofRatio (negative : Bool) (num den : Nat) :
    (ofRatio negative num den).magnitude = nearestMagnitude num den :=
  magnitude_ofMagnitude negative (nearestMagnitude_lt num den)

theorem den_ratio_pos (x : Binary64) : 0 < x.ratio.2 := Nat.two_pow_pos _

theorem ratio_eq_value (x : Binary64) : (x.ratio.1 : ℚ) / x.ratio.2 = value x.magnitude := by
  have hnum : (x.ratio.1 : ℚ) = x.significand * 2 ^ x.scale.toNat := by
    exact_mod_cast (rfl : x.ratio.1 = x.significand * 2 ^ x.scale.toNat)
  have hden : (x.ratio.2 : ℚ) = 2 ^ (-x.scale).toNat := by
    exact_mod_cast (rfl : x.ratio.2 = 2 ^ (-x.scale).toNat)
  rw [← significand_mul_scale, ← pow_toNat_div_pow_toNat two_ne_zero, ← mul_div_assoc, hnum, hden]

/-- What a pattern holds of an exact result. -/
def Holds (x : Binary64) (q : ℚ) : Prop := ∃ m, x.magnitude = min infinity m ∧ RoundsTo q m

theorem holds_ofRatio (negative : Bool) (num : Nat) {den : Nat} (h : 0 < den) :
    (ofRatio negative num den).Holds (num / den) := by
  rw [Holds, magnitude_ofRatio]
  exact exists_roundsTo num h

theorem holds_ofNat (n : Nat) : (ofNat n).Holds n := by
  have h := holds_ofRatio false n Nat.one_pos
  rwa [Nat.cast_one, div_one] at h

theorem holds_mul (x y : Binary64) : (x.mul y).Holds (value x.magnitude * value y.magnitude) := by
  have h := holds_ofRatio (x.isNegative != y.isNegative) (x.ratio.1 * y.ratio.1)
    (Nat.mul_pos x.den_ratio_pos y.den_ratio_pos)
  rwa [Nat.cast_mul, Nat.cast_mul, ← div_mul_div_comm, ratio_eq_value, ratio_eq_value] at h

theorem holds_div (x : Binary64) {y : Binary64} (hy : y.isZero = false) :
    (x.div y).Holds (value x.magnitude / value y.magnitude) := by
  have hnum : 0 < y.ratio.1 := Nat.mul_pos (significand_pos hy) (Nat.two_pow_pos _)
  have h := holds_ofRatio (x.isNegative != y.isNegative) (x.ratio.1 * y.ratio.2)
    (Nat.mul_pos x.den_ratio_pos hnum)
  rwa [Nat.cast_mul, Nat.cast_mul, ← div_div_div_eq, ratio_eq_value, ratio_eq_value] at h

end MeasureInference.Binary64
