import MeasureInference.Proofs.Binary64.Errors
import MeasureInference.Proofs.Binary64.Operations

/-!
What scaling by rounded powers of ten makes of a decimal.

The significand is rounded, the power of ten is rounded, and so is what they give: the last of the
three roundings is the one that reading is meant to make, the two before it are errors. Where the
significand has fifty-three bits and the power is at most `10 ^ 22` neither of them changes
anything, and the result is the nearest number. Everywhere else it is at most two magnitudes away from it.
Below `10 ^ -308` there is one rounding more. It does not lead further, because a large rounding
error of the significand and a large one of the quotient exclude each other: which of them is large
depends on where the significand lies between two powers of two, and `10 ^ 308` lies in the lower
half there.
-/

namespace MeasureInference.Binary64

/-! ### Exact numbers -/

/-- A number of fifty-three bits is on the grid of a finer place. -/
theorem exists_units_eq {a : Nat} (ha : a ≤ 2 ^ 53) (t : Nat) : ∃ m, units m = a * 2 ^ t := by
  induction t generalizing a with
  | zero =>
      refine ⟨0 * 2 ^ 52 + a, ?_⟩
      exact units_place ha (.inl rfl)
  | succ t ih =>
      by_cases hlarge : 2 ^ 52 ≤ a
      · exact ⟨_, units_place ha (.inr hlarge)⟩
      · obtain ⟨m, hm⟩ := ih (a := 2 * a) (by omega)
        exact ⟨m, by rw [hm, Nat.pow_succ]; ring⟩

theorem exists_value_eq {a : Nat} (ha : a ≤ 2 ^ 53) (i : Nat) :
    ∃ m, value m = (a * 2 ^ i : Nat) := by
  obtain ⟨m, hm⟩ := exists_units_eq ha (i + 1074)
  refine ⟨m, ?_⟩
  have hplace : ((i + 1074 : Nat) : ℤ) - 1074 = (i : Nat) := by omega
  have hunits : (2 : ℚ) ^ (i + 1074) * leastStep = 2 ^ i := by
    rw [leastStep_mul_two_pow, hplace, zpow_natCast]
  rw [value, hm, Nat.cast_mul, Nat.cast_mul, mul_assoc, Nat.cast_pow, Nat.cast_pow, Nat.cast_ofNat,
    hunits]

theorem ten_pow_lt_boundary : (10 : ℚ) ^ greatestPower < boundary (infinity - 1) := by
  have hinfinity : infinity - 1 = 2045 * 2 ^ 52 + (2 ^ 53 - 1) := by decide
  have hnat : 10 ^ greatestPower ≤ (2 ^ 53 - 1) * 2 ^ 971 := by decide +kernel
  have hle : (10 : ℚ) ^ greatestPower ≤ value (infinity - 1) := by
    have hplace : ((2045 : Nat) : ℤ) - 1074 = (971 : Nat) := rfl
    have hcast := (Nat.cast_le (α := ℚ)).mpr hnat
    rw [Nat.cast_pow, Nat.cast_mul, Nat.cast_pow, Nat.cast_ofNat, Nat.cast_ofNat] at hcast
    rwa [hinfinity, value_place (by norm_num) (.inr (by norm_num)), hplace, zpow_natCast]
  exact hle.trans_lt (value_lt_boundary _)

/-- Nothing up to the greatest power is out of range. -/
theorem Holds.roundsTo {x : Binary64} {q : ℚ} (h : x.Holds q) (hq : q ≤ 10 ^ greatestPower) :
    RoundsTo q x.magnitude ∧ x.magnitude < infinity := by
  obtain ⟨m, hx, hm⟩ := h
  have hle := hm.le_of_lt_boundary (hq.trans_lt ten_pow_lt_boundary)
  have hpos : 0 < infinity := by decide
  rw [hx, Nat.min_eq_right (by omega)]
  exact ⟨hm, by omega⟩

theorem value_ofNat {a i : Nat} (ha : a ≤ 2 ^ 53) (h : a * 2 ^ i ≤ 10 ^ greatestPower) :
    value (ofNat (a * 2 ^ i)).magnitude = (a * 2 ^ i : Nat) := by
  have hrounds := ((holds_ofNat (a * 2 ^ i)).roundsTo (by exact_mod_cast h)).1
  obtain ⟨m, hm⟩ := exists_value_eq ha i
  rw [← hm] at hrounds ⊢
  rw [hrounds.unique (roundsTo_value m)]

theorem value_powerOfTen {k : Nat} (h : k ≤ 22) : value (powerOfTen k).magnitude = 10 ^ k := by
  have hfactors : 5 ^ k * 2 ^ k = 10 ^ k := (Nat.mul_pow 5 2 k).symm
  have hfive : 5 ^ k ≤ 2 ^ 53 := (Nat.pow_le_pow_right (by decide) h).trans (by decide)
  have hten : 5 ^ k * 2 ^ k ≤ 10 ^ greatestPower := by
    rw [hfactors]
    exact Nat.pow_le_pow_right (by decide) (h.trans (by decide))
  have hvalue := value_ofNat hfive hten
  rw [hfactors, Nat.cast_pow, Nat.cast_ofNat] at hvalue
  exact hvalue

/-! ### Rounded operands -/

theorem within_of_holds {x : Binary64} {q : ℚ} (h : x.Holds q) (hlow : 1 ≤ q)
    (hhigh : q ≤ 10 ^ greatestPower) : Within 1 (value x.magnitude) q := by
  have hnormal : leastNormal ≤ 1 := by
    rw [leastNormal_eq]
    exact zpow_le_one_of_nonpos₀ one_le_two (by norm_num)
  exact (h.roundsTo hhigh).1.within (hnormal.trans hlow)

theorem natCast_le_ten_pow {n : Nat} (h : n ≤ 10 ^ greatestPower) :
    (n : ℚ) ≤ 10 ^ greatestPower := by
  have hcast := (Nat.cast_le (α := ℚ)).mpr h
  rwa [Nat.cast_pow, Nat.cast_ofNat] at hcast

theorem within_ofNat {n : Nat} (hpos : 0 < n) (hn : n ≤ 10 ^ greatestPower) :
    Within 1 (value (ofNat n).magnitude) n :=
  within_of_holds (holds_ofNat n) (Nat.one_le_cast.mpr hpos) (natCast_le_ten_pow hn)

theorem within_powerOfTen {k : Nat} (hk : k ≤ greatestPower) :
    Within 1 (value (powerOfTen k).magnitude) (10 ^ k) := by
  have h := within_ofNat (Nat.pow_pos (a := 10) (n := k) (by decide))
    (Nat.pow_le_pow_right (by decide) hk)
  rwa [Nat.cast_pow, Nat.cast_ofNat] at h

theorem isZero_eq_false_of_value_pos {x : Binary64} (h : 0 < value x.magnitude) :
    x.isZero = false := by
  rw [isZero, beq_eq_false_iff_ne]
  rintro hzero
  rw [hzero, value_zero] at h
  exact lt_irrefl 0 h

/-! ### Scaling -/

/-- The outcome of scaling: a number of the magnitude, or nothing if it is out of range. -/
def ScalesTo (outcome : Option Binary64) (m : Nat) : Prop :=
  match outcome with
  | some y => y.magnitude = m
  | none => infinity ≤ m

/-- Scaling upwards rounds a product. -/
theorem scaled?_ofNat (significand : Nat) {k : Nat} (hk : k ≤ greatestPower) :
    ∃ m, ScalesTo (scaled? significand (.ofNat k)) m ∧
      RoundsTo (value (ofNat significand).magnitude * value (powerOfTen k).magnitude) m := by
  obtain ⟨m, hm, hrounds⟩ := holds_mul (ofNat significand) (powerOfTen k)
  refine ⟨m, ?_, hrounds⟩
  have hfinite := isFinite_iff (hm.trans_le (Nat.min_le_left _ _))
  rw [scaled?]
  dsimp only
  rw [if_pos hk]
  split
  · next h =>
    have hlt := hfinite.mp h
    show _ = m
    omega
  · next h =>
    have hle := mt hfinite.mpr h
    show infinity ≤ m
    omega

/-- Scaling downwards by a power that one step can divide by rounds a quotient. -/
theorem scaled?_negSucc (significand : Nat) {places : Nat} (h : places < greatestPower) :
    scaled? significand (.negSucc places) =
      some ((ofNat significand).div (powerOfTen (places + 1))) := by
  rw [scaled?, Nat.div_eq_of_lt h, Nat.mod_eq_of_lt h]
  rfl

theorem holds_div_powerOfTen (x : Binary64) {k : Nat} (hk : k ≤ greatestPower) :
    (x.div (powerOfTen k)).Holds (value x.magnitude / value (powerOfTen k).magnitude) :=
  holds_div x (isZero_eq_false_of_value_pos ((within_powerOfTen hk).pos (pow_pos (by norm_num) k)))

/-- Where neither the significand nor the power is rounded, scaling gives the nearest number. -/
theorem scaled?_exact {significand : Nat} (h : ∃ a i, a ≤ 2 ^ 53 ∧ significand = a * 2 ^ i)
    (hbound : significand ≤ 10 ^ greatestPower) {exponent : Int} (hlow : -22 ≤ exponent)
    (hhigh : exponent ≤ 22) {m : Nat} (hm : RoundsTo (significand * 10 ^ exponent) m) :
    ScalesTo (scaled? significand exponent) m := by
  have hsignificand : value (ofNat significand).magnitude = significand := by
    obtain ⟨a, i, ha, rfl⟩ := h
    exact value_ofNat ha hbound
  cases exponent with
  | ofNat k =>
      have hk : k ≤ 22 := Int.ofNat_le.mp hhigh
      obtain ⟨n, hscales, hn⟩ := scaled?_ofNat significand (hk.trans (by decide))
      rw [hsignificand, value_powerOfTen hk] at hn
      rw [Int.ofNat_eq_natCast, zpow_natCast] at hm
      rwa [hm.unique hn]
  | negSucc places =>
      have hk : places + 1 ≤ 22 := by omega
      have hquotient := holds_div_powerOfTen (ofNat significand) (hk.trans (by decide))
      rw [hsignificand, value_powerOfTen hk, div_eq_mul_inv, ← zpow_negSucc] at hquotient
      rw [scaled?_negSucc significand (hk.trans (by decide))]
      have hle : (significand : ℚ) * 10 ^ Int.negSucc places ≤ 10 ^ greatestPower := by
        refine le_trans ?_ (natCast_le_ten_pow hbound)
        refine mul_le_of_le_one_right (Nat.cast_nonneg _) ?_
        exact zpow_le_one_of_nonpos₀ (by norm_num) (Int.negSucc_lt_zero _).le
      exact (hquotient.roundsTo hle).1.unique hm

/-! ### One rounding more -/

/-- The greatest power lies a little above `1.1 * 2 ^ 1023`. -/
theorem greatestPower_bounds :
    111253 * (2 : ℚ) ^ 1023 ≤ 100000 * 10 ^ greatestPower ∧
      100000 * (10 : ℚ) ^ greatestPower ≤ 111254 * 2 ^ 1023 := by
  have hlow : 111253 * 2 ^ 1023 ≤ 100000 * 10 ^ greatestPower := by decide +kernel
  have hhigh : 100000 * 10 ^ greatestPower ≤ 111254 * 2 ^ 1023 := by decide +kernel
  have hlow' := (Nat.cast_le (α := ℚ)).mpr hlow
  have hhigh' := (Nat.cast_le (α := ℚ)).mpr hhigh
  simp only [Nat.cast_mul, Nat.cast_pow, Nat.cast_ofNat] at hlow' hhigh'
  exact ⟨hlow', hhigh'⟩

/-- The number nearest to it is greater by a tenth of what rounding may change. -/
theorem value_greatestPower_bounds :
    10 ^ greatestPower ≤ value (powerOfTen greatestPower).magnitude ∧
      value (powerOfTen greatestPower).magnitude ≤
        10 ^ greatestPower * (1 + 99 / 1000 * unitRoundoff) := by
  have hmagnitude :
      (powerOfTen greatestPower).magnitude = 2045 * 2 ^ 52 + 5010420900022432 := by decide +kernel
  have hplace : ((2045 : Nat) : ℤ) - 1074 = (971 : Nat) := rfl
  have hlow : 10 ^ greatestPower ≤ 5010420900022432 * 2 ^ 971 := by decide +kernel
  have hhigh : 5010420900022432 * 2 ^ 971 * (1000 * 2 ^ 53) ≤
      10 ^ greatestPower * (1000 * 2 ^ 53 + 99) := by decide +kernel
  have hlow' := (Nat.cast_le (α := ℚ)).mpr hlow
  have hhigh' := (Nat.cast_le (α := ℚ)).mpr hhigh
  simp only [Nat.cast_mul, Nat.cast_add, Nat.cast_pow, Nat.cast_ofNat] at hlow' hhigh'
  rw [hmagnitude, value_place (by norm_num) (.inr (by norm_num)), hplace, zpow_natCast,
    unitRoundoff, Nat.cast_ofNat]
  generalize (10 : ℚ) ^ greatestPower = ten at *
  generalize (2 : ℚ) ^ 971 = two at *
  constructor
  · exact hlow'
  · linarith

/-- How far a rounded quotient of a rounded number is away, from the errors of its parts: there is
room for two relative errors where the absolute ones together are less than those. -/
theorem within_of_errors {s d v y t p e : ℚ} (ht : 0 < t) (hd : 0 ≤ d)
    (hnumber : |d - s| ≤ unitRoundoff * p) (hlow : y * t ≤ d)
    (hhigh : d ≤ y * t * (1 + 99 / 1000 * unitRoundoff))
    (hquotient : |v - y| * t ≤ unitRoundoff * e) (hroom : p + e + d / 10 ≤ 2 * d) :
    Within 2 v (s / t) := by
  have hscaled : |v * t - y * t| ≤ unitRoundoff * e := by
    rwa [← sub_mul, abs_mul, abs_of_pos ht]
  have hp : 0 ≤ unitRoundoff * p := (abs_nonneg _).trans hnumber
  have he : 0 ≤ unitRoundoff * e := (abs_nonneg _).trans hscaled
  rw [abs_le] at hnumber hscaled
  constructor
  · rw [div_mul_eq_mul_div, le_div_iff₀ ht]
    rw [unitRoundoff] at *
    linarith
  · rw [div_le_iff₀ ht, mul_right_comm]
    rw [unitRoundoff] at *
    linarith

/-- The error below a power of two, as long as the number can have all its bits there. -/
theorem RoundsTo.abs_sub_le_two_pow {q : ℚ} {m p j : Nat} (h : RoundsTo q m) (hnonneg : 0 ≤ q)
    (hj : j ≤ p + 1021) (hq : q < 2 ^ p / 2 ^ j) :
    |value m - q| ≤ unitRoundoff * (2 ^ p / 2 ^ j / 2) := by
  obtain ⟨t, ht⟩ : ∃ t, t = p + 1021 - j := ⟨_, rfl⟩
  have hplace : (t : ℤ) - 1021 = (p : ℤ) - j := by omega
  have hunit : (t : ℤ) - 1074 = (p : ℤ) - j - (53 : Nat) := by omega
  have herror := h.abs_sub_le (t := t) hnonneg
  rw [hplace, hunit, zpow_sub₀ two_ne_zero _ ((53 : Nat) : ℤ), zpow_sub₀ two_ne_zero,
    zpow_natCast, zpow_natCast, zpow_natCast] at herror
  have h' := herror hq
  rw [unitRoundoff]
  linarith

/-- The rounded quotient of a rounded number by a divisor in the lower half above `w`. If the exact
quotient reaches `p / w`, its error doubles, but then the number is well above `p`. -/
theorem within_of_quotient {s d b t v p w : ℚ} (hp : 0 < p) (hw : 0 < w) (hbelow : p ≤ s)
    (habove : s < p * 2) (hnumber : |d - s| ≤ unitRoundoff * p) (ht : 111253 * w ≤ 100000 * t)
    (ht' : 100000 * t ≤ 111254 * w) (hb : t ≤ b) (hb' : b ≤ t * (1 + 99 / 1000 * unitRoundoff))
    (hlow : d / b < p / w → |v - d / b| ≤ unitRoundoff * (p / w / 2))
    (hhigh : d / b < p / w * 2 → |v - d / b| ≤ unitRoundoff * (p / w)) :
    Within 2 v (s / t) := by
  have htpos : 0 < t := by linarith
  have hbpos : 0 < b := htpos.trans_le hb
  have hd : p * (1 - unitRoundoff) ≤ d := by
    have := (abs_le.mp hnumber).1
    linarith
  have hdpos : 0 < d := lt_of_lt_of_le (mul_pos hp (by norm_num [unitRoundoff])) hd
  have hy : 0 < d / b := div_pos hdpos hbpos
  have hr : 0 < p / w := div_pos hp hw
  have hyb : d / b * b = d := div_mul_cancel₀ d hbpos.ne'
  have hrw : p / w * w = p := div_mul_cancel₀ p hw.ne'
  have hyt : d / b * t ≤ d := (mul_le_mul_of_nonneg_left hb hy.le).trans_eq hyb
  have hyt' : d ≤ d / b * t * (1 + 99 / 1000 * unitRoundoff) := by
    rw [mul_assoc]
    exact hyb.ge.trans (mul_le_mul_of_nonneg_left hb' hy.le)
  generalize d / b = y at *
  generalize p / w = r at *
  have hrt : 111253 * p ≤ 100000 * (r * t) := by
    have h := mul_le_mul_of_nonneg_left ht hr.le
    linarith
  have hrt' : 100000 * (r * t) ≤ 111254 * p := by
    have h := mul_le_mul_of_nonneg_left ht' hr.le
    linarith
  rcases lt_or_ge y r with hyr | hyr
  · refine within_of_errors htpos hdpos.le hnumber hyt hyt' (e := r * t / 2) ?_ ?_
    · exact (mul_le_mul_of_nonneg_right (hlow hyr) htpos.le).trans_eq (by ring)
    · rw [unitRoundoff] at hd
      linarith
  · have hlarge : r * t ≤ d := (mul_le_mul_of_nonneg_right hyr htpos.le).trans hyt
    have hyr' : y < r * 2 := by
      have h : y * t < r * 2 * t := by
        have hs := (abs_le.mp hnumber).2
        rw [unitRoundoff] at hs
        linarith
      exact lt_of_mul_lt_mul_right h htpos.le
    refine within_of_errors htpos hdpos.le hnumber hyt hyt' (e := r * t) ?_ (by linarith)
    exact (mul_le_mul_of_nonneg_right (hhigh hyr') htpos.le).trans_eq (by ring)

/-- Dividing a rounded significand by the rounded greatest power, and rounding, is no more than two
roundings away, unless the quotient is too small to have all its bits. -/
theorem within_sunk {significand c : Nat} (hlow : 4 ≤ significand)
    (hhigh : significand ≤ 10 ^ greatestPower)
    (hc : RoundsTo (value (ofNat significand).magnitude /
      value (powerOfTen greatestPower).magnitude) c) :
    Within 2 (value c) (significand / 10 ^ greatestPower) := by
  obtain ⟨hten, hten'⟩ := greatestPower_bounds
  obtain ⟨hpower, hpower'⟩ := value_greatestPower_bounds
  have hp : 2 ≤ significand.log2 := (Nat.le_log2 (by omega)).mpr hlow
  have hbelow : (2 : ℚ) ^ significand.log2 ≤ significand := by
    exact_mod_cast Nat.log2_self_le (by omega)
  have habove : (significand : ℚ) < 2 ^ (significand.log2 + 1) / 2 ^ 0 := by
    rw [pow_zero, div_one]
    exact_mod_cast Nat.lt_log2_self (n := significand)
  have hrounds := ((holds_ofNat significand).roundsTo (natCast_le_ten_pow hhigh)).1
  have hnumber := hrounds.abs_sub_le_two_pow (Nat.cast_nonneg _) (Nat.zero_le _) habove
  have hd := value_nonneg (ofNat significand).magnitude
  have hquotient (j : Nat) := hc.abs_sub_le_two_pow (p := j) (j := 1023)
    (div_nonneg hd (value_nonneg _))
  have hlow := hquotient significand.log2 (by omega)
  have hhigh := hquotient (significand.log2 + 1) (by omega)
  rw [pow_zero, div_one, pow_succ, mul_div_cancel_right₀ _ two_ne_zero] at hnumber
  rw [pow_succ, mul_div_right_comm, mul_div_cancel_right₀ _ two_ne_zero] at hhigh
  rw [pow_zero, div_one, pow_succ] at habove
  exact within_of_quotient (pow_pos two_pos _) (pow_pos two_pos _) hbelow habove hnumber hten hten'
    hpower hpower' hlow hhigh

/-! ### The nearest number up to two -/

theorem sink_one {x : Binary64} (h : x.isZero = false) :
    sink 1 x = x.div (powerOfTen greatestPower) := by
  rw [sink, h]
  rfl

/-- Scaling downwards by a power that takes two steps. -/
theorem scaled?_negSucc_add (significand : Nat) {places : Nat} (h : places < greatestPower) :
    scaled? significand (.negSucc (greatestPower + places)) =
      some ((sink 1 (ofNat significand)).div (powerOfTen (places + 1))) := by
  have hdiv : (greatestPower + places) / greatestPower = 1 := by
    rw [Nat.add_div_left _ (by decide), Nat.div_eq_of_lt h]
  rw [scaled?, hdiv, Nat.add_mod_left, Nat.mod_eq_of_lt h]

theorem mul_ten_zpow_negSucc (q : ℚ) (places : Nat) :
    q * 10 ^ Int.negSucc places = q / 10 ^ (places + 1) := by
  rw [zpow_negSucc, div_eq_mul_inv]

/-- The significands whose first quotient is too small to have all its bits. -/
theorem scaled?_small :
    ∀ significand < 4, ∀ places < 22,
      let m := nearestMagnitude significand (10 ^ (greatestPower + places + 1))
      let n := ((sink 1 (ofNat significand)).div (powerOfTen (places + 1))).magnitude
      m < infinity ∧ n ≤ m + 2 ∧ m ≤ n + 2 := by
  decide +kernel

theorem within_div_powerOfTen {x : Binary64} {k : Nat} {q : ℚ}
    (h : Within 1 (value x.magnitude) q) (hq : 0 < q) (hk : k ≤ greatestPower) :
    Within 2 (value x.magnitude / value (powerOfTen k).magnitude) (q / 10 ^ k) := by
  have hten : (0 : ℚ) < 10 ^ k := pow_pos (by norm_num) k
  exact h.div (within_powerOfTen hk) (value_nonneg _) hq.le ((within_powerOfTen hk).pos hten) hten

theorem div_ten_pow_succ_le {q : ℚ} (h : 0 ≤ q) (k : Nat) : q / 10 ^ (k + 1) * 10 ≤ q := by
  rw [pow_succ, ← div_div, div_mul_cancel₀ _ (by norm_num)]
  exact div_le_self h (one_le_pow₀ (by norm_num))

/-- Two roundings do not lead out of the range from a tenth of it. -/
theorem Holds.roundsTo_of_within {x : Binary64} {q r : ℚ} (h : x.Holds q) (hwithin : Within 2 q r)
    (hnonneg : 0 ≤ r) (hr : r * 10 ≤ 10 ^ greatestPower) : RoundsTo q x.magnitude := by
  have hfactor : (1 + unitRoundoff) ^ 2 ≤ 10 := by norm_num [unitRoundoff]
  exact (h.roundsTo ((hwithin.le.trans (mul_le_mul_of_nonneg_left hfactor hnonneg)).trans hr)).1

/-- Two steps down: the first quotient carries both errors, the second division is by an exact
power. -/
theorem near_of_sunk {significand : Nat} (hlarge : 4 ≤ significand)
    (hbound : significand ≤ 10 ^ greatestPower) {k m : Nat} (hk : k < 22)
    (hm : RoundsTo (significand / 10 ^ (greatestPower + (k + 1))) m) :
    let n := ((sink 1 (ofNat significand)).div (powerOfTen (k + 1))).magnitude
    n ≤ m + 2 ∧ m ≤ n + 2 := by
  have hpos : (0 : ℚ) < significand := Nat.cast_pos.mpr (by omega)
  have hnumber := within_ofNat (by omega) hbound
  have hten (k : Nat) : (0 : ℚ) < 10 ^ k := pow_pos (by norm_num) k
  have htenth (k : Nat) : (significand : ℚ) / 10 ^ (k + 1) * 10 ≤ 10 ^ greatestPower :=
    (div_ten_pow_succ_le hpos.le k).trans (natCast_le_ten_pow hbound)
  have hc := (holds_div_powerOfTen (ofNat significand) le_rfl).roundsTo_of_within
    (within_div_powerOfTen hnumber hpos le_rfl) (div_pos hpos (hten _)).le (htenth 307)
  have hsunk := within_sunk hlarge hbound hc
  have hstep : k + 1 ≤ greatestPower := hk.trans (by decide)
  have hquotient := holds_div_powerOfTen
    ((ofNat significand).div (powerOfTen greatestPower)) hstep
  have hwithin := hsunk.div (Within.refl (10 ^ (k + 1))) (value_nonneg _)
    (div_pos hpos (hten _)).le (hten (k + 1)) (hten (k + 1))
  rw [value_powerOfTen hk] at hquotient
  rw [div_div, ← pow_add] at hwithin
  rw [sink_one (isZero_eq_false_of_value_pos (hnumber.pos hpos))]
  exact hm.near_of_within (hquotient.roundsTo_of_within hwithin (div_pos hpos (hten _)).le
    (htenth (greatestPower + k))) hwithin

/-- Scaling leads to the nearest number or to one that is at most two magnitudes away. -/
theorem scaled?_near {significand : Nat} (hpos : 0 < significand)
    (hbound : significand ≤ 10 ^ greatestPower) {exponent : Int} (hlow : -330 ≤ exponent)
    (hhigh : exponent ≤ greatestPower) {m : Nat} (hm : RoundsTo (significand * 10 ^ exponent) m) :
    ∃ n, ScalesTo (scaled? significand exponent) n ∧ n ≤ m + 2 ∧ m ≤ n + 2 := by
  have hpos' : (0 : ℚ) < significand := Nat.cast_pos.mpr hpos
  have hnumber := within_ofNat hpos hbound
  cases exponent with
  | ofNat k =>
      have hk : k ≤ greatestPower := Int.ofNat_le.mp hhigh
      obtain ⟨n, hscales, hn⟩ := scaled?_ofNat significand hk
      have hwithin := hnumber.mul (within_powerOfTen hk) (value_nonneg _) hpos'.le
        (value_nonneg _) (pow_nonneg (by norm_num) k)
      rw [Int.ofNat_eq_natCast, zpow_natCast] at hm
      exact ⟨n, hscales, hm.near_of_within hn hwithin⟩
  | negSucc places =>
      rw [mul_ten_zpow_negSucc] at hm
      rcases Nat.lt_or_ge places greatestPower with hplaces | hplaces
      · have hwithin := within_div_powerOfTen hnumber hpos' hplaces
        have hn := (holds_div_powerOfTen (ofNat significand) hplaces).roundsTo_of_within hwithin
          (div_nonneg hpos'.le (pow_nonneg (by norm_num) _))
          ((div_ten_pow_succ_le hpos'.le places).trans (natCast_le_ten_pow hbound))
        rw [scaled?_negSucc significand hplaces]
        exact ⟨_, rfl, hm.near_of_within hn hwithin⟩
      · obtain ⟨k, rfl⟩ := Nat.exists_eq_add_of_le hplaces
        have hgreatest : greatestPower = 308 := rfl
        have hk : k < 22 := by omega
        rw [scaled?_negSucc_add significand (hk.trans (by decide))]
        refine ⟨_, rfl, ?_⟩
        rcases Nat.lt_or_ge significand 4 with hsmall | hlarge
        · obtain ⟨hfinite, hnear⟩ := scaled?_small significand hsmall k hk
          obtain ⟨m', hmin, hm'⟩ := exists_roundsTo significand
            (Nat.pow_pos (a := 10) (n := greatestPower + k + 1) (by decide))
          rw [Nat.cast_pow, Nat.cast_ofNat] at hm'
          rw [hm.unique hm']
          omega
        · exact near_of_sunk hlarge hbound hk hm

end MeasureInference.Binary64
