import MeasureInference.Proofs.Binary64.Grids
import MeasureInference.Proofs.Binary64.Scaling
import MeasureInference.Proofs.Json.Decimals

/-!
What scaling makes of the decimals that are written.

A decimal as it is written is the shortest one, or the same number with zeros filled in, so it rounds
to the number it was written for. Its digits fit a word and its exponent is one that scaling can do,
so scaling is at most two magnitudes off. It does not leave the range: only the two greatest numbers
are close enough to its end, and both of them are scaled to the greatest.
-/

namespace MeasureInference

open Binary64 (RoundsTo ScalesTo infinity)

namespace Decimal

theorem digits_lt (d : Decimal) : d.digits < 10 ^ (Nat.toDigits 10 d.digits).length :=
  (Nat.length_toDigits_le_iff (by decide) Nat.length_toDigits_pos).mp (Nat.le_refl _)

/-- Scaling rounds neither factor: the digits have fifty-three significant bits, and the power of ten
is one that a number can hold. -/
structure Unrounded (d : Decimal) : Prop where
  digits : ∃ a i, a ≤ 2 ^ 53 ∧ d.digits = a * 2 ^ i
  low : -22 ≤ d.exponent
  high : d.exponent ≤ 22

/-- A decimal that can be read with a significand of a word and scaled in range. -/
structure Readable (d : Decimal) : Prop where
  digits : d.digits < UInt64.size
  low : -324 ≤ d.exponent
  high : d.exponent ≤ 308

variable {d : Decimal}

theorem filled_eq (d : Decimal) :
    (d.filled.digits * 10 ^ d.filled.exponent : ℚ) = d.digits * 10 ^ d.exponent := by
  rw [filled]
  split
  · next h =>
    have hexponent : d.exponent = d.exponent.toNat := (Int.toNat_of_nonneg h).symm
    have hlast : (10 : ℚ) * 10 ^ (-1 : ℤ) = 1 := by norm_num
    have hpow (k : Nat) : ((Nat.pow 10 k : Nat) : ℚ) = 10 ^ k := Nat.cast_pow 10 k
    rw [hexponent, zpow_natCast, Int.toNat_natCast]
    dsimp only
    rw [Nat.cast_mul, hpow, pow_succ, mul_assoc, mul_assoc, hlast, mul_one]
  · rfl

theorem written_eq (d : Decimal) :
    (d.written.digits * 10 ^ d.written.exponent : ℚ) = d.digits * 10 ^ d.exponent := by
  rw [written]
  split
  · exact d.filled_eq
  · rfl

theorem digits_written_pos (h : 0 < d.digits) : 0 < d.written.digits := by
  rw [written, filled]
  split
  · split
    · exact Nat.mul_pos h (Nat.pow_pos (by decide))
    · exact h
  · exact h

/-- Zeros are filled in only where a word has room for them. -/
theorem readable_written (hdigits : d.digits < 10 ^ 18) (hlow : -324 ≤ d.exponent)
    (hhigh : d.exponent ≤ 308) : d.written.Readable := by
  have hword : d.digits < UInt64.size := hdigits.trans (by decide)
  rw [written, filled]
  split
  · next hlead =>
    split
    · next hwhole =>
      refine ⟨?_, (by decide : (-324 : Int) ≤ -1), (by decide : (-1 : Int) ≤ 308)⟩
      have hplaces : (Nat.toDigits 10 d.digits).length + (d.exponent.toNat + 1) ≤ 17 := by
        have h := hlead.2
        rw [lead] at h
        omega
      calc d.digits * 10 ^ (d.exponent.toNat + 1)
          < 10 ^ (Nat.toDigits 10 d.digits).length * 10 ^ (d.exponent.toNat + 1) :=
            Nat.mul_lt_mul_of_pos_right d.digits_lt (Nat.pow_pos (by decide))
        _ = 10 ^ ((Nat.toDigits 10 d.digits).length + (d.exponent.toNat + 1)) := (Nat.pow_add ..).symm
        _ ≤ 10 ^ 17 := Nat.pow_le_pow_right (by decide) hplaces
        _ ≤ UInt64.size := by decide
    · exact ⟨hword, hlow, hhigh⟩
  · exact ⟨hword, hlow, hhigh⟩

theorem natAbs_lead_lt (hdigits : d.digits < 10 ^ 18) (hlow : -324 ≤ d.exponent)
    (hhigh : d.exponent ≤ 308) : d.lead.natAbs < 2 ^ 31 := by
  have hlength : (Nat.toDigits 10 d.digits).length ≤ 18 :=
    (Nat.length_toDigits_le_iff (by decide) (by decide)).mpr hdigits
  rw [lead]
  omega

end Decimal

namespace Binary64

variable {x : Binary64}

theorem magnitude_of_isZero (h : x.isZero = true) : x.magnitude = 0 := by
  rwa [isZero, beq_iff_eq] at h

theorem readable_written (hfinite : x.isFinite = true) : x.written.Readable := by
  rw [written]
  split
  · exact ⟨by decide, by decide, by decide⟩
  · next hzero =>
    have h := Bool.eq_false_iff.mpr hzero
    exact Decimal.readable_written (digits_shortest_lt h hfinite) (exponent_shortest_ge h hfinite)
      (exponent_shortest_le h hfinite)

theorem natAbs_lead_lt (hfinite : x.isFinite = true) : x.lead.natAbs < 2 ^ 31 := by
  rw [lead]
  split
  · decide
  · next hzero =>
    have h := Bool.eq_false_iff.mpr hzero
    exact Decimal.natAbs_lead_lt (digits_shortest_lt h hfinite) (exponent_shortest_ge h hfinite)
      (exponent_shortest_le h hfinite)

theorem roundsTo_written (hfinite : x.isFinite = true) :
    RoundsTo (x.written.digits * 10 ^ x.written.exponent) x.magnitude := by
  rw [written]
  split
  · next hzero =>
    have h := roundsTo_value 0
    rw [value_zero] at h
    rw [magnitude_of_isZero hzero, Nat.cast_zero, zero_mul]
    exact h
  · next hzero =>
    rw [Decimal.written_eq]
    exact roundsTo_shortest (Bool.eq_false_iff.mpr hzero) hfinite

/-- What scaling a written decimal leads to, if it stays in range. -/
theorem exists_scalesTo (hfinite : x.isFinite = true) :
    ∃ n, ScalesTo (scaled? x.written.digits x.written.exponent) n ∧
      n ≤ x.magnitude + 2 ∧ x.magnitude ≤ n + 2 ∧ (x.written.Unrounded → n = x.magnitude) := by
  have hrounds := roundsTo_written hfinite
  have hreadable := readable_written hfinite
  have hbound : x.written.digits ≤ 10 ^ greatestPower :=
    hreadable.digits.le.trans (by decide +kernel)
  by_cases hexact : x.written.Unrounded
  · have hscales := scaled?_exact hexact.digits hbound hexact.low hexact.high hrounds
    exact ⟨_, hscales, by omega, by omega, fun _ => rfl⟩
  · have hzero : ¬x.isZero = true := by
      intro h
      refine hexact ?_
      rw [written, if_pos h]
      exact ⟨⟨0, 0, by decide, rfl⟩, by decide, by decide⟩
    have hpos : 0 < x.written.digits := by
      rw [written, if_neg hzero]
      exact Decimal.digits_written_pos (digits_shortest_pos (Bool.eq_false_iff.mpr hzero))
    have hlow := hreadable.low
    obtain ⟨n, hscales, hnear⟩ := scaled?_near hpos hbound (by omega) hreadable.high hrounds
    exact ⟨n, hscales, hnear.1, hnear.2, fun h => absurd h hexact⟩

/-- The two greatest numbers of either sign. -/
theorem scaled?_greatest : ∀ negative : Bool, ∀ k < 2,
    let x := ofMagnitude negative (infinity - 1 - k)
    (scaled? x.written.digits x.written.exponent).any (·.magnitude < infinity) = true := by
  decide +kernel

/-- What is scaled out of range is one of the two greatest numbers. -/
theorem lt_infinity_of_scalesTo (hfinite : x.isFinite = true) {n : Nat}
    (hscales : ScalesTo (scaled? x.written.digits x.written.exponent) n)
    (hn : n ≤ x.magnitude + 2) : n < infinity := by
  have hx := magnitude_lt_infinity hfinite
  by_contra hinfinity
  obtain ⟨k, hk, hmagnitude⟩ : ∃ k < 2, x.magnitude = infinity - 1 - k :=
    ⟨infinity - 1 - x.magnitude, by omega, by omega⟩
  have hlt : infinity - 1 - k < 2 ^ 63 := by
    have := infinity_lt
    omega
  have hpattern : x = ofMagnitude x.isNegative (infinity - 1 - k) :=
    eq_of_magnitude (isNegative_ofMagnitude _ hlt).symm
      (hmagnitude.trans (magnitude_ofMagnitude _ hlt).symm)
  have hgreatest := scaled?_greatest x.isNegative k hk
  dsimp only at hgreatest
  rw [← hpattern] at hgreatest
  obtain ⟨y, hy, hylt⟩ := (Option.any_eq_true _ _).mp hgreatest
  rw [hy] at hscales
  obtain rfl : y.magnitude = n := hscales
  exact hinfinity (of_decide_eq_true hylt)

/-- The number that a written decimal is scaled to. -/
theorem exists_scaled (hfinite : x.isFinite = true) :
    ∃ y, scaled? x.written.digits x.written.exponent = some y ∧ y.magnitude < infinity ∧
      y.magnitude ≤ x.magnitude + 2 ∧ x.magnitude ≤ y.magnitude + 2 ∧
      (x.written.Unrounded → y.magnitude = x.magnitude) := by
  obtain ⟨n, hscales, hhigh, hlow, hexact⟩ := exists_scalesTo hfinite
  have hn := lt_infinity_of_scalesTo hfinite hscales hhigh
  cases hscaled : scaled? x.written.digits x.written.exponent with
  | none =>
      rw [hscaled] at hscales
      exact absurd hn (Nat.not_lt_of_le hscales)
  | some y =>
      rw [hscaled] at hscales
      obtain rfl : y.magnitude = n := hscales
      exact ⟨y, rfl, hn, hhigh, hlow, hexact⟩

end Binary64

end MeasureInference
