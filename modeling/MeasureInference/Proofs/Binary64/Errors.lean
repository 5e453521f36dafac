import MeasureInference.Proofs.Binary64.Rounding

/-!
How far roundings lead away.

One rounding changes a number by a factor of at most `1 + 2 ^ -53`, up or down, as long as the
number is not below the least normal one; factors multiply along products and quotients. Two such
factors are what it takes to leave a magnitude by more than two. The argument is one inequality in
one direction, since the relation is symmetric: half a stride up to the boundary and less than two
strides beyond it end in front of the boundary above the second next magnitude.
-/

namespace MeasureInference.Binary64

/-- The greatest relative change of one rounding. -/
def unitRoundoff : ℚ := 1 / 2 ^ 53

/-- Two numbers differ by a factor of at most `1 + unitRoundoff` for each of `k` roundings. -/
structure Within (k : Nat) (a b : ℚ) : Prop where
  le : a ≤ b * (1 + unitRoundoff) ^ k
  ge : b ≤ a * (1 + unitRoundoff) ^ k

namespace Within

variable {j k : Nat} {a b c d : ℚ}

theorem one_add_pow_pos (k : Nat) : 0 < (1 + unitRoundoff) ^ k :=
  pow_pos (by norm_num [unitRoundoff]) k

theorem refl (a : ℚ) : Within 0 a a := by
  constructor <;> rw [pow_zero, mul_one]

theorem pos (h : Within k a b) (hb : 0 < b) : 0 < a :=
  pos_of_mul_pos_left (hb.trans_le h.ge) (one_add_pow_pos k).le

theorem mul (h : Within j a b) (h' : Within k c d) (ha : 0 ≤ a) (hb : 0 ≤ b) (hc : 0 ≤ c)
    (hd : 0 ≤ d) : Within (j + k) (a * c) (b * d) := by
  have hj := (one_add_pow_pos j).le
  constructor
  · calc a * c ≤ b * (1 + unitRoundoff) ^ j * (d * (1 + unitRoundoff) ^ k) :=
        mul_le_mul h.le h'.le hc (mul_nonneg hb hj)
      _ = b * d * (1 + unitRoundoff) ^ (j + k) := by rw [pow_add]; ring
  · calc b * d ≤ a * (1 + unitRoundoff) ^ j * (c * (1 + unitRoundoff) ^ k) :=
        mul_le_mul h.ge h'.ge hd (mul_nonneg ha hj)
      _ = a * c * (1 + unitRoundoff) ^ (j + k) := by rw [pow_add]; ring

theorem div (h : Within j a b) (h' : Within k c d) (ha : 0 ≤ a) (hb : 0 ≤ b) (hc : 0 < c)
    (hd : 0 < d) : Within (j + k) (a / c) (b / d) := by
  have hj := (one_add_pow_pos j).le
  constructor
  · rw [div_mul_eq_mul_div, div_le_div_iff₀ hc hd]
    calc a * d ≤ b * (1 + unitRoundoff) ^ j * (c * (1 + unitRoundoff) ^ k) :=
        mul_le_mul h.le h'.ge hd.le (mul_nonneg hb hj)
      _ = b * (1 + unitRoundoff) ^ (j + k) * c := by rw [pow_add]; ring
  · rw [div_mul_eq_mul_div, div_le_div_iff₀ hd hc]
    calc b * c ≤ a * (1 + unitRoundoff) ^ j * (d * (1 + unitRoundoff) ^ k) :=
        mul_le_mul h.ge h'.le hc.le (mul_nonneg ha hj)
      _ = a * (1 + unitRoundoff) ^ (j + k) * d := by rw [pow_add]; ring

end Within

/-! ### One rounding -/

/-- The least normal number. -/
def leastNormal : ℚ := value (2 ^ 52)

theorem leastNormal_eq : leastNormal = 2 ^ (-1022 : ℤ) := by
  have h := value_place (t := 0) (n := 2 ^ 52) (by decide) (.inl rfl)
  rw [Nat.zero_mul, Nat.zero_add] at h
  rw [leastNormal, h, Nat.cast_pow, Nat.cast_ofNat, ← zpow_natCast, ← zpow_add₀ two_ne_zero]
  rfl

theorem RoundsTo.within {q : ℚ} {m : Nat} (h : RoundsTo q m) (hq : leastNormal ≤ q) :
    Within 1 (value m) q := by
  have hbelow : boundary (2 ^ 52 - 1) < q :=
    (boundary_lt_value (by norm_num)).trans_le hq
  have hm : 2 ^ 52 ≤ m := by
    have := h.lt_of_boundary_lt hbelow
    omega
  have hupper := h.upper
  have hstride := le_value hm
  obtain ⟨k, rfl⟩ : ∃ k, m = k + 1 := ⟨m - 1, by omega⟩
  have hlower := h.lower k (Nat.lt_succ_self k)
  have hpred : 2 ^ 52 * stride k ≤ q := by
    rcases Nat.lt_or_ge k (2 ^ 52) with hk | hk
    · have hmono : 2 ^ 52 * stride k ≤ 2 ^ 52 * stride (2 ^ 52) :=
        mul_le_mul_of_nonneg_left (stride_mono hk.le) (by norm_num)
      exact (hmono.trans (le_value le_rfl)).trans hq
    · exact (le_value hk).trans ((value_lt_boundary k).le.trans hlower)
  rw [boundary] at hupper hlower
  have hvalue := value_succ k
  constructor <;> rw [pow_one, unitRoundoff] <;> linarith

/-- Below a power of two the strides are short. -/
theorem stride_le_of_value_lt {k t : Nat} (h : value k < 2 ^ ((t : ℤ) - 1021)) :
    stride k ≤ 2 ^ ((t : ℤ) - 1074) := by
  have hpower : value ((t + 1) * 2 ^ 52 + 2 ^ 52) = 2 ^ ((t : ℤ) - 1021) := by
    rw [value_place (by norm_num) (.inr le_rfl), Nat.cast_pow, Nat.cast_ofNat, ← zpow_natCast,
      ← zpow_add₀ two_ne_zero]
    congr 1
    push_cast
    ring
  have hk : k < (t + 1) * 2 ^ 52 + 2 ^ 52 := value_strictMono.lt_iff_lt.mp (h.trans_eq hpower.symm)
  rw [← stride_place (t := t) (n := 2 ^ 53 - 1) (by norm_num) (by norm_num)]
  exact stride_mono (by omega)

/-- The absolute error below a power of two. -/
theorem RoundsTo.abs_sub_le {q : ℚ} {m t : Nat} (h : RoundsTo q m) (hnonneg : 0 ≤ q)
    (hq : q < 2 ^ ((t : ℤ) - 1021)) : |value m - q| ≤ 2 ^ ((t : ℤ) - 1074) / 2 := by
  have hupper := h.upper
  rcases le_or_gt (value m) q with hle | hlt
  · have hstride := stride_le_of_value_lt (hle.trans_lt hq)
    rw [boundary] at hupper
    rw [abs_sub_comm, abs_of_nonneg (sub_nonneg.mpr hle)]
    linarith
  · -- The boundary below the magnitude is not above the number, so its stride is short as well.
    have hm : m ≠ 0 := by
      rintro rfl
      exact absurd value_zero (hnonneg.trans_lt hlt).ne'
    obtain ⟨k, rfl⟩ : ∃ k, m = k + 1 := Nat.exists_eq_succ_of_ne_zero hm
    have hlower := h.lower k (Nat.lt_succ_self k)
    have hstride := stride_le_of_value_lt (((value_lt_boundary k).trans_le hlower).trans hq)
    rw [boundary] at hlower
    rw [abs_of_pos (sub_pos.mpr hlt), value_succ]
    linarith

/-! ### Two roundings -/

theorem RoundsTo.le_add_two {d z : ℚ} {m n : Nat} (hm : RoundsTo d m) (hn : RoundsTo z n)
    (h : z ≤ d * (1 + unitRoundoff) ^ 2) : n ≤ m + 2 := by
  apply hn.le_of_lt_boundary
  have hupper := hm.upper
  have hpos := stride_pos m
  have hstride := value_add_stride_le m
  have hnext := stride_mono (Nat.le_add_right m 1)
  have hsecond := stride_mono (Nat.le_add_right m 2)
  have hd : d * (1 + unitRoundoff) ^ 2 < d + 2 * stride m := by
    rw [boundary] at hupper
    rw [unitRoundoff]
    linarith
  rw [boundary] at hupper ⊢
  rw [value_succ, value_succ]
  linarith

theorem RoundsTo.near_of_within {d z : ℚ} {m n : Nat} (hm : RoundsTo d m) (hn : RoundsTo z n)
    (h : Within 2 z d) : n ≤ m + 2 ∧ m ≤ n + 2 :=
  ⟨hm.le_add_two hn h.le, hn.le_add_two hm h.ge⟩

end MeasureInference.Binary64
