import MeasureInference.Proofs.Binary64.Magnitudes

/-!
Rounding to the nearest magnitude, a tie going to the even one.

A number rounds to a magnitude when it lies between the boundaries on either side, and on one of
them only if the magnitude is even. At most one magnitude satisfies this, and the nearest magnitude
that arithmetic computes does, up to infinity. So what follows argues from boundaries alone and
never looks at how the significand is found.
-/

namespace MeasureInference.Binary64

/-- The magnitude is the nearest one to the number. -/
structure RoundsTo (q : ℚ) (m : Nat) : Prop where
  lower : ∀ k < m, boundary k ≤ q
  upper : q ≤ boundary m
  even_of_tie : ∀ k, q = boundary k → m % 2 = 0

namespace RoundsTo

variable {q : ℚ} {k m n : Nat}

theorem le_of_lt_boundary (h : RoundsTo q m) (hk : q < boundary k) : m ≤ k := by
  by_contra hlt
  exact absurd hk (not_lt_of_ge (h.lower k (Nat.lt_of_not_le hlt)))

theorem lt_of_boundary_lt (h : RoundsTo q m) (hk : boundary k < q) : k < m :=
  boundary_strictMono.lt_iff_lt.mp (hk.trans_le h.upper)

/-- Two magnitudes that a number rounds to would be neighbours, both of them even. -/
theorem not_lt (hm : RoundsTo q m) (hn : RoundsTo q n) : ¬m < n := by
  intro hlt
  have htie : q = boundary m := le_antisymm hm.upper (hn.lower m hlt)
  have hnext : n = m + 1 := by
    by_contra hne
    have hboundary := hn.lower (m + 1) (by omega)
    rw [htie] at hboundary
    exact absurd (boundary_strictMono (Nat.lt_succ_self m)) (not_lt_of_ge hboundary)
  have hm' := hm.even_of_tie m htie
  have hn' := hn.even_of_tie m htie
  omega

theorem unique (hm : RoundsTo q m) (hn : RoundsTo q n) : m = n :=
  Nat.le_antisymm (Nat.le_of_not_lt (hn.not_lt hm)) (Nat.le_of_not_lt (hm.not_lt hn))

end RoundsTo

/-- What can be represented is not changed by rounding. -/
theorem roundsTo_value (m : Nat) : RoundsTo (value m) m where
  lower _ h := (boundary_lt_value h).le
  upper := (value_lt_boundary m).le
  even_of_tie k h := by
    rcases Nat.lt_or_ge k m with hk | hk
    · exact absurd h (boundary_lt_value hk).ne'
    · exact absurd h ((value_lt_boundary m).trans_le (boundary_strictMono.monotone hk)).ne

/-! ### The nearest integer -/

theorem nearestInteger_spec (num : Nat) {den : Nat} (h : 0 < den) :
    2 * num ≤ (2 * nearestInteger num den + 1) * den ∧
      2 * nearestInteger num den * den ≤ 2 * num + den ∧
      (2 * num = (2 * nearestInteger num den + 1) * den ∨
        2 * nearestInteger num den * den = 2 * num + den → nearestInteger num den % 2 = 0) := by
  have hdiv : num = num / den * den + num % den := by
    rw [Nat.mul_comm]
    exact (Nat.div_add_mod num den).symm
  have hrest := Nat.mod_lt num h
  rw [nearestInteger]
  generalize num / den = below at *
  generalize num % den = rest at *
  subst hdiv
  split
  · next hlow =>
    have hvalue : (2 * below + 1) * den = 2 * (below * den) + den := by ring
    have hvalue' : 2 * below * den = 2 * (below * den) := by ring
    omega
  · next hlow =>
    split
    · next hhigh =>
      have hvalue : (2 * (below + 1) + 1) * den = 2 * (below * den) + 3 * den := by ring
      have hvalue' : 2 * (below + 1) * den = 2 * (below * den) + 2 * den := by ring
      omega
    · next hhigh =>
      have htie : 2 * rest = den := by omega
      rcases Nat.mod_two_eq_zero_or_one below with hparity | hparity
      · rw [hparity]
        have hvalue : (2 * (below + 0) + 1) * den = 2 * (below * den) + den := by ring
        have hvalue' : 2 * (below + 0) * den = 2 * (below * den) := by ring
        omega
      · rw [hparity]
        have hvalue : (2 * (below + 1) + 1) * den = 2 * (below * den) + 3 * den := by ring
        have hvalue' : 2 * (below + 1) * den = 2 * (below * den) + 2 * den := by ring
        omega

/-! ### The nearest magnitude -/

/-- A power with a signed exponent, as the two powers that it is computed from. -/
theorem pow_toNat_div_pow_toNat {b : ℚ} (hb : b ≠ 0) (e : ℤ) :
    b ^ e.toNat / b ^ (-e).toNat = b ^ e := by
  rw [← zpow_natCast, ← zpow_natCast, ← zpow_sub₀ hb]
  congr 1
  omega

theorem binaryExponent_spec {num den : Nat} (hnum : 0 < num) (hden : 0 < den) :
    (2 : ℚ) ^ binaryExponent num den ≤ num / den ∧
      (num : ℚ) / den < 2 ^ (binaryExponent num den + 1) := by
  have hden' : (0 : ℚ) < den := Nat.cast_pos.mpr hden
  have hnumLow : (2 : ℚ) ^ (num.log2 : ℤ) ≤ num := by
    exact_mod_cast Nat.log2_self_le hnum.ne'
  have hnumHigh : (num : ℚ) < 2 ^ ((num.log2 : ℤ) + 1) := by
    exact_mod_cast Nat.lt_log2_self (n := num)
  have hdenLow : (2 : ℚ) ^ (den.log2 : ℤ) ≤ den := by
    exact_mod_cast Nat.log2_self_le hden.ne'
  have hdenHigh : (den : ℚ) < 2 ^ ((den.log2 : ℤ) + 1) := by
    exact_mod_cast Nat.lt_log2_self (n := den)
  have htwo : (2 : ℚ) ≠ 0 := two_ne_zero
  -- The guess is at most one too high.
  have hbelow : (2 : ℚ) ^ ((num.log2 : ℤ) - den.log2 - 1) ≤ num / den := by
    rw [Int.sub_sub, zpow_sub₀ htwo]
    exact div_le_div₀ (Nat.cast_nonneg _) hnumLow hden' hdenHigh.le
  have habove : (num : ℚ) / den < 2 ^ ((num.log2 : ℤ) - den.log2 + 1) := by
    rw [Int.sub_eq_add_neg, Int.add_right_comm, ← Int.sub_eq_add_neg, zpow_sub₀ htwo]
    exact div_lt_div₀ hnumHigh hdenLow (zpow_nonneg zero_le_two _) (zpow_pos two_pos _)
  rw [binaryExponent]
  generalize (num.log2 : ℤ) - den.log2 = guess at *
  have hguess : den * Nat.pow 2 guess.toNat ≤ num * Nat.pow 2 (-guess).toNat ↔
      (2 : ℚ) ^ guess ≤ num / den := by
    rw [← pow_toNat_div_pow_toNat htwo, div_le_div_iff₀ (pow_pos two_pos _) hden',
      mul_comm _ (den : ℚ)]
    exact_mod_cast Iff.rfl
  split
  · next h => exact ⟨hguess.mp h, habove⟩
  · next h =>
    rw [Int.sub_add_cancel]
    exact ⟨hbelow, lt_of_not_ge (mt hguess.mpr h)⟩

/-- A ratio is at most half a step of `2 ^ s` away from its nearest multiple, and the multiple is
even where that is as far as it gets. -/
theorem nearestInteger_scaled (num : Nat) {den : Nat} (hden : 0 < den) (s : ℤ) :
    let n := nearestInteger (num * Nat.pow 2 (-s).toNat) (den * Nat.pow 2 s.toNat)
    (num : ℚ) / den ≤ (n + 1 / 2) * 2 ^ s ∧ ((n : ℚ) - 1 / 2) * 2 ^ s ≤ num / den ∧
      ((num : ℚ) / den = (n + 1 / 2) * 2 ^ s ∨ (num : ℚ) / den = (n - 1 / 2) * 2 ^ s →
        n % 2 = 0) := by
  intro n
  obtain ⟨hupper, hlower, htie⟩ := nearestInteger_spec (num * Nat.pow 2 (-s).toNat)
    (Nat.mul_pos hden (Nat.two_pow_pos s.toNat))
  have hden' : (0 : ℚ) < den := Nat.cast_pos.mpr hden
  have hx : (0 : ℚ) < 2 ^ (-s).toNat := pow_pos two_pos _
  -- Both sides of a comparison with a multiple of `2 ^ s` are multiplied by the denominators.
  have hle (r : ℚ) : (num : ℚ) / den ≤ r * 2 ^ s ↔
      (num : ℚ) * 2 ^ (-s).toNat ≤ r * (den * 2 ^ s.toNat) := by
    rw [← pow_toNat_div_pow_toNat two_ne_zero s, ← mul_div_assoc, div_le_div_iff₀ hden' hx,
      mul_assoc, mul_comm (den : ℚ)]
  have hge (r : ℚ) : r * 2 ^ s ≤ (num : ℚ) / den ↔
      r * (den * 2 ^ s.toNat) ≤ (num : ℚ) * 2 ^ (-s).toNat := by
    rw [← pow_toNat_div_pow_toNat two_ne_zero s, ← mul_div_assoc, div_le_div_iff₀ hx hden',
      mul_assoc, mul_comm (den : ℚ)]
  have hcast : (2 : ℚ) * (num * 2 ^ (-s).toNat) ≤ (2 * n + 1) * (den * 2 ^ s.toNat) := by
    exact_mod_cast hupper
  have hcast' : (2 : ℚ) * n * (den * 2 ^ s.toNat) ≤
      2 * (num * 2 ^ (-s).toNat) + den * 2 ^ s.toNat := by
    exact_mod_cast hlower
  refine ⟨(hle _).mpr (by linarith), (hge _).mpr (by linarith), fun h => htie ?_⟩
  rcases h with h | h
  · have h' := (hge _).mp h.ge
    have heq : (2 : ℚ) * (num * 2 ^ (-s).toNat) = (2 * n + 1) * (den * 2 ^ s.toNat) := by
      linarith
    exact .inl (by exact_mod_cast heq)
  · have h' := (hle _).mp h.le
    have heq : (2 : ℚ) * n * (den * 2 ^ s.toNat) =
        2 * (num * 2 ^ (-s).toNat) + den * 2 ^ s.toNat := by
      linarith
    exact .inr (by exact_mod_cast heq)

/-- What rounds to a significand in its place. Below a significand that has only its hidden bit
there is a shorter way to the boundary, but then the number is not below it. -/
theorem roundsTo_place {q : ℚ} {t n : Nat} (hn : n ≤ 2 ^ 53) (h : t = 0 ∨ 2 ^ 52 ≤ n)
    (hupper : q ≤ (n + 1 / 2) * 2 ^ ((t : ℤ) - 1074))
    (hlower : ((n : ℚ) - 1 / 2) * 2 ^ ((t : ℤ) - 1074) ≤ q)
    (hhidden : t = 0 ∨ (2 : ℚ) ^ 52 * 2 ^ ((t : ℤ) - 1074) ≤ q)
    (htie : q = (n + 1 / 2) * 2 ^ ((t : ℤ) - 1074) ∨ q = (n - 1 / 2) * 2 ^ ((t : ℤ) - 1074) →
      n % 2 = 0) :
    RoundsTo q (t * 2 ^ 52 + n) := by
  have hvalue := value_place hn h
  have hstride : (2 : ℚ) ^ ((t : ℤ) - 1074) ≤ stride (t * 2 ^ 52 + n) := by
    rcases Nat.lt_or_eq_of_le hn with hlt | rfl
    · exact (stride_place hlt h).ge
    · rw [← stride_place (t := t) (n := 2 ^ 53 - 1) (by omega) (by omega)]
      exact stride_mono (by omega)
  have hbelow : ∀ k < t * 2 ^ 52 + n,
      boundary k ≤ q ∧ (q = boundary k → q = (n - 1 / 2) * 2 ^ ((t : ℤ) - 1074)) := by
    intro k hk
    by_cases hnext : t = 0 ∨ 2 ^ 52 < n
    · have hone : 1 ≤ n := by omega
      have hpred : boundary (t * 2 ^ 52 + (n - 1)) = (n - 1 / 2) * 2 ^ ((t : ℤ) - 1074) := by
        rw [boundary, value_place (by omega) (by omega), stride_place (by omega) (by omega),
          Nat.cast_sub hone, Nat.cast_one]
        ring
      have hle : boundary k ≤ boundary (t * 2 ^ 52 + (n - 1)) :=
        boundary_strictMono.monotone (by omega)
      rw [hpred] at hle
      exact ⟨hle.trans hlower, fun heq => le_antisymm (heq.trans_le hle) hlower⟩
    · obtain ⟨ht, hn'⟩ := not_or.mp hnext
      obtain rfl : n = 2 ^ 52 := by omega
      have hlt : boundary k < q := by
        refine (boundary_lt_value hk).trans_le ?_
        rw [hvalue, Nat.cast_pow, Nat.cast_ofNat]
        exact hhidden.resolve_left ht
      exact ⟨hlt.le, fun heq => absurd heq hlt.ne'⟩
  have hparity : n % 2 = 0 → (t * 2 ^ 52 + n) % 2 = 0 := by omega
  have habove : (n + 1 / 2) * 2 ^ ((t : ℤ) - 1074) ≤ boundary (t * 2 ^ 52 + n) := by
    rw [boundary, hvalue, add_mul, one_div_mul_eq_div]
    exact add_le_add_right (div_le_div_of_nonneg_right hstride zero_le_two) _
  refine ⟨fun k hk => (hbelow k hk).1, hupper.trans habove, fun k heq => hparity (htie ?_)⟩
  rcases Nat.lt_or_ge k (t * 2 ^ 52 + n) with hk | hk
  · exact .inr ((hbelow k hk).2 heq)
  · exact .inl (le_antisymm hupper ((habove.trans (boundary_strictMono.monotone hk)).trans heq.ge))

/-- The nearest magnitude is the one that the ratio rounds to, unless that lies above infinity. -/
theorem exists_roundsTo (num : Nat) {den : Nat} (hden : 0 < den) :
    ∃ m, nearestMagnitude num den = min infinity m ∧ RoundsTo (num / den) m := by
  by_cases hnum : num = 0
  · refine ⟨0, by rw [nearestMagnitude, if_pos hnum, Nat.min_zero], ?_⟩
    have hzero : (num : ℚ) / den = value 0 := by
      rw [hnum, Nat.cast_zero, zero_div, value_zero]
    rw [hzero]
    exact roundsTo_value 0
  · obtain ⟨hlow, hhigh⟩ := binaryExponent_spec (Nat.pos_of_ne_zero hnum) hden
    rw [nearestMagnitude, if_neg hnum]
    generalize hs : max (binaryExponent num den - 52) (-1074) = s
    have hscale : (((s + 1074).toNat : Nat) : ℤ) - 1074 = s := by omega
    obtain ⟨hupper, hlower, htie⟩ := nearestInteger_scaled num hden s
    refine ⟨_, rfl, ?_⟩
    generalize nearestInteger (num * Nat.pow 2 (-s).toNat) (den * Nat.pow 2 s.toNat) = n at *
    have hpos : (0 : ℚ) < 2 ^ s := zpow_pos two_pos _
    have hhidden : (s + 1074).toNat = 0 ∨ (2 : ℚ) ^ 52 * 2 ^ s ≤ num / den := by
      by_cases ht : (s + 1074).toNat = 0
      · exact .inl ht
      · right
        refine le_trans (le_of_eq ?_) hlow
        rw [← zpow_natCast, ← zpow_add₀ two_ne_zero]
        congr 1
        omega
    have hbound : (num : ℚ) / den < 2 ^ 53 * 2 ^ s := by
      refine hhigh.trans_le ?_
      rw [← zpow_natCast, ← zpow_add₀ two_ne_zero]
      exact zpow_le_zpow_right₀ one_le_two (by omega)
    have hn : n ≤ 2 ^ 53 := by
      have hlt : ((n : ℚ) - 1 / 2) * 2 ^ s < 2 ^ 53 * 2 ^ s := hlower.trans_lt hbound
      have hlt' : (n : ℚ) < 2 ^ 53 + 1 := by linarith [lt_of_mul_lt_mul_right hlt hpos.le]
      exact Nat.lt_succ_iff.mp (by exact_mod_cast hlt')
    have hn' : (s + 1074).toNat = 0 ∨ 2 ^ 52 ≤ n := by
      refine hhidden.imp_right fun hle => ?_
      have hle' : (2 : ℚ) ^ 52 ≤ n + 1 / 2 := le_of_mul_le_mul_right (hle.trans hupper) hpos
      have hlt : (2 : ℚ) ^ 52 < n + 1 := by linarith
      exact Nat.lt_succ_iff.mp (by exact_mod_cast hlt)
    have hplace := roundsTo_place (q := num / den) hn hn'
    rw [hscale] at hplace
    exact hplace hupper hlower hhidden htie

end MeasureInference.Binary64
