import Mathlib.Algebra.Order.Field.Basic
import Mathlib.Algebra.Order.Field.Power
import Mathlib.Data.Rat.Cast.Order
import Mathlib.Order.Monotone.Basic
import Mathlib.Tactic.FieldSimp
import Mathlib.Tactic.Linarith
import Mathlib.Tactic.NormNum
import Mathlib.Tactic.Ring
import MeasureInference.Binary64.Round

/-!
The numbers that magnitudes stand for.

Magnitudes count the representable numbers from zero upwards. How far one is from the next is a
power of two that never shrinks: it doubles with the exponent field, except between the two lowest
fields, which share theirs. So the value of a magnitude is a whole number of least steps, and it
grows strictly with the magnitude. Nothing here ends at the largest finite number; the magnitude of
infinity and all above it stand for the numbers that would come next.
-/

namespace MeasureInference.Binary64

/-- How many least steps there are from a magnitude to the next. -/
def strideUnits (m : Nat) : Nat := 2 ^ (m / 2 ^ 52 - 1)

/-- The value of a magnitude, counted in least steps. -/
def units (m : Nat) : Nat :=
  if m < 2 ^ 52 then m else (2 ^ 52 + m % 2 ^ 52) * strideUnits m

theorem strideUnits_pos (m : Nat) : 0 < strideUnits m := Nat.two_pow_pos _

theorem strideUnits_mono : Monotone strideUnits := fun _ _ h =>
  Nat.pow_le_pow_right (by decide) (Nat.sub_le_sub_right (Nat.div_le_div_right h) 1)

theorem strideUnits_of_lt {m : Nat} (h : m < 2 ^ 53) : strideUnits m = 1 := by
  have hfield : m / 2 ^ 52 - 1 = 0 := by omega
  rw [strideUnits, hfield, Nat.pow_zero]

theorem units_of_lt {m : Nat} (h : m < 2 ^ 53) : units m = m := by
  rw [units]
  split
  · rfl
  · rw [strideUnits_of_lt h]
    omega

/-- The number of a significand in its place. A significand that has grown to `2 ^ 53` is counted
by the next exponent field. -/
theorem units_place {t n : Nat} (hn : n ≤ 2 ^ 53) (h : t = 0 ∨ 2 ^ 52 ≤ n) :
    units (t * 2 ^ 52 + n) = n * 2 ^ t := by
  by_cases hlarge : n < 2 ^ 52
  · obtain rfl : t = 0 := h.resolve_right (Nat.not_le_of_lt hlarge)
    rw [Nat.zero_mul, Nat.zero_add, units, if_pos hlarge, Nat.pow_zero, Nat.mul_one]
  · have hlow : ¬t * 2 ^ 52 + n < 2 ^ 52 := by omega
    rw [units, if_neg hlow, strideUnits]
    rcases Nat.lt_or_eq_of_le hn with hlt | rfl
    · have hmod : 2 ^ 52 + (t * 2 ^ 52 + n) % 2 ^ 52 = n := by omega
      have hfield : (t * 2 ^ 52 + n) / 2 ^ 52 - 1 = t := by omega
      rw [hmod, hfield]
    · have hmod : 2 ^ 52 + (t * 2 ^ 52 + 2 ^ 53) % 2 ^ 52 = 2 ^ 52 := by omega
      have hfield : (t * 2 ^ 52 + 2 ^ 53) / 2 ^ 52 - 1 = t + 1 := by omega
      rw [hmod, hfield, Nat.pow_succ 2 t, Nat.pow_succ 2 52, Nat.mul_assoc,
        Nat.mul_comm (2 ^ t) 2]

theorem strideUnits_place {t n : Nat} (hn : n < 2 ^ 53) (h : t = 0 ∨ 2 ^ 52 ≤ n) :
    strideUnits (t * 2 ^ 52 + n) = 2 ^ t := by
  have hfield : (t * 2 ^ 52 + n) / 2 ^ 52 - 1 = t := by omega
  rw [strideUnits, hfield]

/-- Every magnitude is a significand in its place. -/
theorem exists_place (m : Nat) :
    ∃ t n, m = t * 2 ^ 52 + n ∧ n < 2 ^ 53 ∧ (t = 0 ∨ 2 ^ 52 ≤ n) := by
  by_cases hlow : m < 2 ^ 52
  · exact ⟨0, m, by omega, by omega, .inl rfl⟩
  · exact ⟨m / 2 ^ 52 - 1, 2 ^ 52 + m % 2 ^ 52, by omega, by omega, .inr (by omega)⟩

theorem units_succ (m : Nat) : units (m + 1) = units m + strideUnits m := by
  obtain ⟨t, n, rfl, hn, h⟩ := exists_place m
  rw [strideUnits_place hn h, Nat.add_assoc, units_place (by omega) h,
    units_place (by omega) (by omega), Nat.add_mul, Nat.one_mul]

theorem units_strictMono : StrictMono units := by
  apply strictMono_nat_of_lt_succ
  intro m
  rw [units_succ]
  exact Nat.lt_add_of_pos_right (strideUnits_pos m)

theorem units_add_strideUnits_le (m : Nat) : units m + strideUnits m ≤ 2 ^ 53 * strideUnits m := by
  obtain ⟨t, n, rfl, hn, h⟩ := exists_place m
  rw [strideUnits_place hn h, units_place (by omega) h, ← Nat.succ_mul]
  exact Nat.mul_le_mul_right _ hn

theorem le_units {m : Nat} (h : 2 ^ 52 ≤ m) : 2 ^ 52 * strideUnits m ≤ units m := by
  rw [units, if_neg (Nat.not_lt_of_le h)]
  exact Nat.mul_le_mul_right _ (Nat.le_add_right _ _)

/-! ### Values -/

/-- The least positive number. -/
def leastStep : ℚ := 2 ^ (-1074 : ℤ)

/-- The number that a magnitude stands for. -/
def value (m : Nat) : ℚ := units m * leastStep

/-- How far it is from a magnitude to the next. -/
def stride (m : Nat) : ℚ := strideUnits m * leastStep

/-- The middle between a magnitude and the next. -/
def boundary (m : Nat) : ℚ := value m + stride m / 2

theorem leastStep_pos : 0 < leastStep := zpow_pos (by norm_num) _

theorem leastStep_mul_two_pow (t : Nat) : (2 : ℚ) ^ t * leastStep = 2 ^ ((t : ℤ) - 1074) := by
  rw [leastStep, ← zpow_natCast, ← zpow_add₀ (by norm_num), Int.sub_eq_add_neg]

theorem stride_pos (m : Nat) : 0 < stride m :=
  mul_pos (Nat.cast_pos.mpr (strideUnits_pos m)) leastStep_pos

theorem stride_mono : Monotone stride := fun _ _ h =>
  mul_le_mul_of_nonneg_right (Nat.cast_le.mpr (strideUnits_mono h)) leastStep_pos.le

theorem value_nonneg (m : Nat) : 0 ≤ value m :=
  mul_nonneg (Nat.cast_nonneg _) leastStep_pos.le

theorem value_zero : value 0 = 0 := by
  rw [value, units_of_lt (by decide), Nat.cast_zero, zero_mul]

theorem value_succ (m : Nat) : value (m + 1) = value m + stride m := by
  rw [value, units_succ, Nat.cast_add, add_mul, value, stride]

theorem value_strictMono : StrictMono value := fun _ _ h =>
  mul_lt_mul_of_pos_right (Nat.cast_lt.mpr (units_strictMono h)) leastStep_pos

theorem value_lt_boundary (m : Nat) : value m < boundary m := by
  have := stride_pos m
  rw [boundary]
  linarith

theorem boundary_lt_value {k m : Nat} (h : k < m) : boundary k < value m := by
  have hstride := stride_pos k
  have hvalue := value_strictMono.monotone (Nat.succ_le_of_lt h)
  rw [value_succ] at hvalue
  rw [boundary]
  linarith

theorem boundary_strictMono : StrictMono boundary := fun _ m h =>
  (boundary_lt_value h).trans (value_lt_boundary m)

theorem value_add_stride_le (m : Nat) : value m + stride m ≤ 2 ^ 53 * stride m := by
  have h : (units m : ℚ) + strideUnits m ≤ 2 ^ 53 * strideUnits m := by
    exact_mod_cast units_add_strideUnits_le m
  rw [value, stride, ← add_mul, ← mul_assoc]
  exact mul_le_mul_of_nonneg_right h leastStep_pos.le

theorem le_value {m : Nat} (h : 2 ^ 52 ≤ m) : 2 ^ 52 * stride m ≤ value m := by
  have hunits : (2 ^ 52 : ℚ) * strideUnits m ≤ units m := by exact_mod_cast le_units h
  rw [value, stride, ← mul_assoc]
  exact mul_le_mul_of_nonneg_right hunits leastStep_pos.le

theorem value_place {t n : Nat} (hn : n ≤ 2 ^ 53) (h : t = 0 ∨ 2 ^ 52 ≤ n) :
    value (t * 2 ^ 52 + n) = n * 2 ^ ((t : ℤ) - 1074) := by
  rw [value, units_place hn h, Nat.cast_mul, mul_assoc, Nat.cast_pow, Nat.cast_ofNat,
    leastStep_mul_two_pow]

theorem stride_place {t n : Nat} (hn : n < 2 ^ 53) (h : t = 0 ∨ 2 ^ 52 ≤ n) :
    stride (t * 2 ^ 52 + n) = 2 ^ ((t : ℤ) - 1074) := by
  rw [stride, strideUnits_place hn h, Nat.cast_pow, Nat.cast_ofNat, leastStep_mul_two_pow]

/-! ### The fields of a pattern -/

/-- Significand and scale put a pattern in its place. -/
theorem exists_place_magnitude (x : Binary64) :
    ∃ t n, x.magnitude = t * 2 ^ 52 + n ∧ n < 2 ^ 53 ∧ (t = 0 ∨ 2 ^ 52 ≤ n) ∧
      x.significand = n ∧ x.scale = (t : ℤ) - 1074 := by
  have hpow : Nat.pow 2 52 = 2 ^ 52 := rfl
  rw [significand, scale, fraction, exponentField, hpow]
  split
  · exact ⟨0, x.magnitude % 2 ^ 52, by omega, by omega, .inl rfl, rfl, rfl⟩
  · exact ⟨x.magnitude / 2 ^ 52 - 1, 2 ^ 52 + x.magnitude % 2 ^ 52, by omega, by omega,
      .inr (by omega), rfl, by omega⟩

theorem significand_mul_scale (x : Binary64) :
    (x.significand : ℚ) * 2 ^ x.scale = value x.magnitude := by
  obtain ⟨t, n, hm, hn, h, hsignificand, hscale⟩ := exists_place_magnitude x
  rw [hm, value_place hn.le h, hsignificand, hscale]

theorem stride_magnitude (x : Binary64) : stride x.magnitude = 2 ^ x.scale := by
  obtain ⟨t, n, hm, hn, h, -, hscale⟩ := exists_place_magnitude x
  rw [hm, stride_place hn h, hscale]

theorem significand_lt (x : Binary64) : x.significand < 2 ^ 53 := by
  obtain ⟨t, n, -, hn, -, hsignificand, -⟩ := exists_place_magnitude x
  exact hsignificand.trans_lt hn

theorem significand_mod_two (x : Binary64) : x.significand % 2 = x.magnitude % 2 := by
  obtain ⟨t, n, hm, -, -, hsignificand, -⟩ := exists_place_magnitude x
  omega

end MeasureInference.Binary64
