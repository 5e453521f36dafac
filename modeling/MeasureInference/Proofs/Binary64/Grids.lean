import MeasureInference.Proofs.Binary64.Rounding
import MeasureInference.Proofs.Shortest

/-!
The first decimal grid that has a point among the reals that round to a number.

A grid whose step is shorter than the interval between the two boundaries has such a point: of the
two neighbours of the number one lies inside. The coarsest grid that is tried has none, since its
step is longer than everything in the interval, and the finest one has a step that is short enough.
So the shortest decimal is a point of a grid that comes after one without a point, and the step of
that one bounds both its exponent from below and its digits from above.
-/

namespace MeasureInference.Binary64

/-! ### The interval of a number -/

theorem roundsTo_succ_iff {q : ℚ} {m : Nat} :
    RoundsTo q (m + 1) ↔
      (boundary m < q ∨ (m + 1) % 2 = 0 ∧ q = boundary m) ∧
        (q < boundary (m + 1) ∨ (m + 1) % 2 = 0 ∧ q = boundary (m + 1)) := by
  constructor
  · intro h
    have hlower := h.lower m (Nat.lt_succ_self m)
    exact ⟨hlower.lt_or_eq.imp_right fun heq => ⟨h.even_of_tie m heq.symm, heq.symm⟩,
      h.upper.lt_or_eq.imp_right fun heq => ⟨h.even_of_tie (m + 1) heq, heq⟩⟩
  · rintro ⟨hlow, hhigh⟩
    have hlower : boundary m ≤ q := hlow.elim le_of_lt fun h => h.2.ge
    have hupper : q ≤ boundary (m + 1) := hhigh.elim le_of_lt fun h => h.2.le
    refine ⟨fun k hk => (boundary_strictMono.monotone (Nat.le_of_lt_succ hk)).trans hlower, hupper,
      fun k hk => ?_⟩
    rcases Nat.lt_trichotomy k m with hkm | rfl | hkm
    · exact absurd hk ((boundary_strictMono hkm).trans_le hlower).ne'
    · exact (hlow.resolve_left hk.not_gt).1
    · rcases Nat.lt_or_eq_of_le (Nat.succ_le_of_lt hkm) with hlt | rfl
      · exact absurd hk (hupper.trans_lt (boundary_strictMono hlt)).ne
      · exact (hhigh.resolve_left hk.not_lt).1

/-- The stride below is half of the one above where an exponent field ends. -/
theorem stride_pred {x : Binary64} {m : Nat} (h : x.magnitude = m + 1) :
    stride m = 2 ^ x.scale / if x.narrowBelow then 2 else 1 := by
  have hpow : Nat.pow 2 52 = 2 ^ 52 := rfl
  rw [← stride_magnitude, narrowBelow, fraction, exponentField, hpow, h, stride, stride,
    strideUnits, strideUnits]
  split
  · next hnarrow =>
    rw [Bool.and_eq_true, beq_iff_eq, decide_eq_true_eq] at hnarrow
    have hfield : (m + 1) / 2 ^ 52 - 1 = (m / 2 ^ 52 - 1) + 1 := by omega
    rw [hfield, Nat.pow_succ 2 (m / 2 ^ 52 - 1), Nat.cast_mul, Nat.cast_ofNat]
    ring
  · next hnarrow =>
    rw [Bool.and_eq_true, beq_iff_eq, decide_eq_true_eq] at hnarrow
    have hfield : (m + 1) / 2 ^ 52 - 1 = m / 2 ^ 52 - 1 := by omega
    rw [hfield, div_one]

theorem exists_pred {x : Binary64} (h : x.isZero = false) : ∃ m, x.magnitude = m + 1 := by
  rw [isZero, beq_eq_false_iff_ne] at h
  exact Nat.exists_eq_succ_of_ne_zero h

/-- The ends that reading back compares with, in quarters of the last place. -/
theorem high_eq_boundary (x : Binary64) :
    ((4 * x.significand + 2 : Nat) : ℚ) * 2 ^ (x.scale - 2) = boundary x.magnitude := by
  rw [boundary, ← significand_mul_scale, stride_magnitude, zpow_sub₀ two_ne_zero]
  push_cast
  ring

theorem low_eq_boundary {x : Binary64} {m : Nat} (h : x.magnitude = m + 1) :
    ((4 * x.significand - (if x.narrowBelow then 1 else 2) : Nat) : ℚ) * 2 ^ (x.scale - 2) =
      boundary m := by
  have hpos : 0 < x.significand := significand_pos (by rw [isZero, h]; rfl)
  have hvalue := value_succ m
  rw [← h, ← significand_mul_scale, stride_pred h] at hvalue
  rw [boundary, stride_pred h, zpow_sub₀ two_ne_zero]
  split at hvalue
  · next hnarrow =>
    rw [if_pos hnarrow, if_pos hnarrow, Nat.cast_sub (by omega)]
    push_cast
    linarith
  · next hnarrow =>
    rw [if_neg hnarrow, if_neg hnarrow, Nat.cast_sub (by omega)]
    push_cast
    linarith

/-! ### Reading back -/

theorem comparePowers_eq (a : Nat) (i : Int) (b : Nat) (j : Int) :
    comparePowers a i b j = compare ((a : ℚ) * 10 ^ i) ((b : ℚ) * 2 ^ j) := by
  have hten : (0 : ℚ) < 10 ^ (-i).toNat := pow_pos (by norm_num) _
  have htwo : (0 : ℚ) < 2 ^ (-j).toNat := pow_pos two_pos _
  have hleft : ((a * 10 ^ i.toNat * 2 ^ (-j).toNat : Nat) : ℚ) =
      a * 10 ^ i * (10 ^ (-i).toNat * 2 ^ (-j).toNat) := by
    rw [← pow_toNat_div_pow_toNat (by norm_num : (10 : ℚ) ≠ 0)]
    push_cast
    field_simp
  have hright : ((b * 2 ^ j.toNat * 10 ^ (-i).toNat : Nat) : ℚ) =
      b * 2 ^ j * (10 ^ (-i).toNat * 2 ^ (-j).toNat) := by
    rw [← pow_toNat_div_pow_toNat (two_ne_zero (α := ℚ))]
    push_cast
    field_simp
  have hscale := mul_pos hten htwo
  change compare (a * 10 ^ i.toNat * 2 ^ (-j).toNat) (b * 2 ^ j.toNat * 10 ^ (-i).toNat) = _
  rcases lt_trichotomy ((a : ℚ) * 10 ^ i) (b * 2 ^ j) with h | h | h
  · rw [compare_lt_iff_lt.mpr h, Nat.compare_eq_lt, ← Nat.cast_lt (α := ℚ), hleft, hright]
    exact mul_lt_mul_of_pos_right h hscale
  · rw [compare_eq_iff_eq.mpr h, Nat.compare_eq_eq, ← Nat.cast_inj (R := ℚ), hleft, hright, h]
  · rw [compare_gt_iff_gt.mpr h, Nat.compare_eq_gt, ← Nat.cast_lt (α := ℚ), hleft, hright]
    exact mul_lt_mul_of_pos_right h hscale

/-- What reads back as a number rounds to it. -/
theorem readsBack_iff {x : Binary64} (h : x.isZero = false) (d : Decimal) :
    x.readsBack d = true ↔ RoundsTo (d.digits * 10 ^ d.exponent) x.magnitude := by
  obtain ⟨m, hm⟩ := exists_pred h
  have hhigh := high_eq_boundary x
  rw [hm] at hhigh
  rw [readsBack, comparePowers_eq, comparePowers_eq, low_eq_boundary hm, hhigh,
    significand_mod_two, hm, roundsTo_succ_iff]
  simp only [Bool.and_eq_true, Bool.or_eq_true, beq_iff_eq, compare_gt_iff_gt, compare_lt_iff_lt,
    compare_eq_iff_eq]

/-! ### One grid -/

section Grid

variable {x : Binary64} {exponent : Int}

theorem den_gridRatio_pos (x : Binary64) (exponent : Int) : 0 < (x.gridRatio exponent).2 :=
  Nat.mul_pos (Nat.two_pow_pos _) (Nat.pow_pos (by decide))

theorem gridRatio_eq (x : Binary64) (exponent : Int) :
    ((x.gridRatio exponent).1 : ℚ) =
      value x.magnitude / 10 ^ exponent * (x.gridRatio exponent).2 := by
  have hten : (10 : ℚ) ≠ 0 := by norm_num
  change ((x.significand * 2 ^ x.scale.toNat * 10 ^ (-exponent).toNat : Nat) : ℚ) =
    _ * ((2 ^ (-x.scale).toNat * 10 ^ exponent.toNat : Nat) : ℚ)
  rw [← significand_mul_scale, ← pow_toNat_div_pow_toNat hten exponent,
    ← pow_toNat_div_pow_toNat (two_ne_zero (α := ℚ)) x.scale]
  push_cast
  field_simp

/-- The neighbours of a number on a grid. -/
theorem below_le_value (x : Binary64) (exponent : Int) :
    (((x.gridRatio exponent).1 / (x.gridRatio exponent).2 : Nat) : ℚ) * 10 ^ exponent ≤
      value x.magnitude := by
  have hden := den_gridRatio_pos x exponent
  rw [← le_div_iff₀ (zpow_pos (by norm_num) _)]
  refine le_of_mul_le_mul_right ?_ (Nat.cast_pos.mpr hden)
  rw [← gridRatio_eq, ← Nat.cast_mul, Nat.cast_le]
  exact Nat.div_mul_le_self _ _

theorem value_lt_above (x : Binary64) (exponent : Int) :
    value x.magnitude <
      (((x.gridRatio exponent).1 / (x.gridRatio exponent).2 + 1 : Nat) : ℚ) * 10 ^ exponent := by
  have hden := den_gridRatio_pos x exponent
  rw [← div_lt_iff₀ (zpow_pos (by norm_num) _)]
  refine lt_of_mul_lt_mul_right ?_ (Nat.cast_nonneg (x.gridRatio exponent).2)
  rw [← gridRatio_eq, ← Nat.cast_mul, Nat.cast_lt, Nat.mul_comm]
  exact Nat.lt_mul_div_succ _ hden

/-- A step that is shorter than the interval does not pass over it. -/
theorem onGrid?_ne_none {m : Nat} (hm : x.magnitude = m + 1)
    (hstep : (10 : ℚ) ^ exponent < boundary (m + 1) - boundary m) : x.onGrid? exponent ≠ none := by
  intro hnone
  have hzero : x.isZero = false := by rw [isZero, hm]; rfl
  have hbelow := below_le_value x exponent
  have habove := value_lt_above x exponent
  rw [hm] at hbelow habove
  rw [onGrid?] at hnone
  generalize (x.gridRatio exponent).1 / (x.gridRatio exponent).2 = below at *
  have hneither : ¬x.readsBack ⟨below, exponent⟩ = true ∧
      ¬x.readsBack ⟨below + 1, exponent⟩ = true := by
    split at hnone
    · next h h' => exact ⟨Bool.eq_false_iff.mp h, Bool.eq_false_iff.mp h'⟩
    · cases hnone
    · cases hnone
    · split at hnone <;> cases hnone
  rw [readsBack_iff hzero, readsBack_iff hzero, hm, roundsTo_succ_iff,
    roundsTo_succ_iff] at hneither
  have hinside := boundary_lt_value (Nat.lt_succ_self m)
  have hinside' := value_lt_boundary (m + 1)
  dsimp only at hneither
  have hlow : below * (10 : ℚ) ^ exponent ≤ boundary m := by
    by_contra hlt
    exact hneither.1 ⟨.inl (lt_of_not_ge hlt), .inl (hbelow.trans_lt hinside')⟩
  refine hneither.2 ⟨.inl (hinside.trans habove), .inl ?_⟩
  push_cast
  linarith

end Grid

/-! ### The first grid -/

theorem scale_bounds {x : Binary64} (h : x.isFinite = true) : -1074 ≤ x.scale ∧ x.scale ≤ 971 := by
  have hpow : Nat.pow 2 52 = 2 ^ 52 := rfl
  have hpow' : Nat.pow 2 63 = 2 ^ 63 := rfl
  have hlt : x.magnitude < 2 ^ 63 := Nat.mod_lt _ (by decide)
  rw [isFinite, bne_iff_ne, exponentField, hpow] at h
  rw [scale, exponentField, hpow]
  split <;> omega

theorem boundary_lt (x : Binary64) : boundary x.magnitude < 2 ^ (x.scale + 53) := by
  have hsignificand : (x.significand : ℚ) + 1 ≤ 2 ^ 53 := by exact_mod_cast significand_lt x
  have hpos := zpow_pos (two_pos (α := ℚ)) x.scale
  have hvalue := mul_le_mul_of_nonneg_right hsignificand hpos.le
  have hpower : (2 : ℚ) ^ (53 : ℤ) = 2 ^ 53 := rfl
  rw [zpow_add₀ two_ne_zero, boundary, ← significand_mul_scale, stride_magnitude, hpower]
  linarith

theorem exponentAbove_eq (x : Binary64) :
    (∃ b : Nat, x.scale + 53 = b ∧ x.exponentAbove = ((b + 2) / 3 : Nat)) ∨
      ∃ n : Nat, x.scale + 53 = -n ∧ x.exponentAbove = -(n / 4 : Nat) := by
  rw [exponentAbove]
  split
  · next h =>
    obtain ⟨b, hb⟩ := Int.eq_ofNat_of_zero_le h
    exact .inl ⟨b, hb, by omega⟩
  · next h =>
    obtain ⟨n, hn⟩ := Int.eq_ofNat_of_zero_le (a := -(x.scale + 53)) (by omega)
    exact .inr ⟨n, by omega, by omega⟩

/-- The coarsest step is above all that has the significands and the scale of a number. -/
theorem two_zpow_le_coarsest (x : Binary64) : (2 : ℚ) ^ (x.scale + 53) ≤ 10 ^ x.exponentAbove := by
  obtain ⟨b, hb, habove⟩ | ⟨n, hn, habove⟩ := exponentAbove_eq x
  · have hnat : 2 ^ b ≤ 10 ^ ((b + 2) / 3) := calc
      2 ^ b ≤ 2 ^ (3 * ((b + 2) / 3)) := Nat.pow_le_pow_right (by decide) (by omega)
      _ = (2 ^ 3) ^ ((b + 2) / 3) := Nat.pow_mul ..
      _ ≤ 10 ^ ((b + 2) / 3) := Nat.pow_le_pow_left (by decide) _
    rw [hb, habove, zpow_natCast, zpow_natCast]
    exact_mod_cast hnat
  · have hnat : 10 ^ (n / 4) ≤ 2 ^ n := calc
      10 ^ (n / 4) ≤ (2 ^ 4) ^ (n / 4) := Nat.pow_le_pow_left (by decide) _
      _ = 2 ^ (4 * (n / 4)) := (Nat.pow_mul ..).symm
      _ ≤ 2 ^ n := Nat.pow_le_pow_right (by decide) (Nat.mul_div_le n 4)
    rw [hn, habove, zpow_neg, zpow_neg, zpow_natCast, zpow_natCast]
    exact inv_anti₀ (pow_pos (by norm_num) _) (by exact_mod_cast hnat)

theorem finest_steps : (∀ b < 1025, 4 * 10 ^ ((b + 2) / 3) * 2 ^ 53 < 3 * 2 ^ b * 10 ^ 99) ∧
    ∀ n < 1022, 4 * 2 ^ n * 2 ^ 53 < 3 * 10 ^ (n / 4) * 10 ^ 99 := by
  decide +kernel

theorem inv_lt_three_quarters {a b : ℚ} (ha : 0 < a) (hb : 0 < b) (h : 4 * b < 3 * a) :
    a⁻¹ < 3 / 4 * b⁻¹ := by
  rw [div_mul_eq_mul_div, ← div_eq_mul_inv, div_div, inv_eq_one_div,
    div_lt_div_iff₀ ha (by positivity)]
  linarith

/-- The finest step is below three quarters of the last place. -/
theorem finest_lt {x : Binary64} (h : x.isFinite = true) :
    (10 : ℚ) ^ (x.exponentAbove - 99) < 3 / 4 * 2 ^ x.scale := by
  obtain ⟨hlow, hhigh⟩ := scale_bounds h
  have hscale : x.scale = x.scale + 53 - (53 : Nat) := by omega
  have hstep : x.exponentAbove - 99 = x.exponentAbove - (99 : Nat) := rfl
  rw [hscale, hstep, zpow_sub₀ two_ne_zero, zpow_sub₀ (by norm_num), zpow_natCast, zpow_natCast]
  obtain ⟨b, hb, habove⟩ | ⟨n, hn, habove⟩ := exponentAbove_eq x
  · have hnat := (Nat.cast_lt (α := ℚ)).mpr (finest_steps.1 b (by omega))
    rw [hb, habove, zpow_natCast, zpow_natCast, div_lt_iff₀ (by norm_num)]
    push_cast at hnat
    linarith
  · have hnat := (Nat.cast_lt (α := ℚ)).mpr (finest_steps.2 n (by omega))
    rw [hn, habove, zpow_neg, zpow_neg, zpow_natCast, zpow_natCast,
      div_eq_mul_inv _ ((10 : ℚ) ^ 99), ← mul_inv, div_eq_mul_inv _ ((2 : ℚ) ^ 53), ← mul_inv]
    push_cast at hnat
    exact inv_lt_three_quarters (by positivity) (by positivity) (by linarith)

/-- The interval reaches half a last place up and at least a quarter of it down. -/
theorem width {x : Binary64} {m : Nat} (hm : x.magnitude = m + 1) :
    3 / 4 * 2 ^ x.scale ≤ boundary (m + 1) - boundary m := by
  have hstride := stride_magnitude x
  have hpred := stride_pred hm
  have hpos := zpow_pos (two_pos (α := ℚ)) x.scale
  rw [hm] at hstride
  rw [boundary, boundary, value_succ, hstride, hpred]
  split <;> linarith

/-- A step without a point is not shorter than that. -/
theorem le_step_of_onGrid?_eq_none {x : Binary64} (h : x.isZero = false) {exponent : Int}
    (hnone : x.onGrid? exponent = none) : 3 / 4 * 2 ^ x.scale ≤ (10 : ℚ) ^ exponent := by
  obtain ⟨m, hm⟩ := exists_pred h
  by_contra hlt
  exact onGrid?_ne_none hm ((lt_of_not_ge hlt).trans_le (width hm)) hnone

/-- All points of the coarsest grid are outside: zero, and those above the interval. -/
theorem onGrid?_coarsest {x : Binary64} (h : x.isZero = false) :
    x.onGrid? x.exponentAbove = none := by
  by_contra hsome
  obtain ⟨d, hd⟩ := Option.ne_none_iff_exists'.mp hsome
  obtain ⟨hreads, hexponent, -⟩ := onGrid?_eq_some hd
  have hpos := digits_pos_of_readsBack h hreads
  rw [readsBack_iff h, hexponent] at hreads
  have hstep : (10 : ℚ) ^ x.exponentAbove ≤ d.digits * 10 ^ x.exponentAbove :=
    le_mul_of_one_le_left (zpow_nonneg (by norm_num) _) (Nat.one_le_cast.mpr hpos)
  exact absurd ((two_zpow_le_coarsest x).trans (hstep.trans hreads.upper)) (boundary_lt x).not_ge

/-- What is found in a range is found at its first place. -/
theorem findSome?_range_eq_some {α : Type} {f : Nat → Option α} {n : Nat} {a : α}
    (h : (List.range n).findSome? f = some a) : ∃ k, f k = some a ∧ ∀ j < k, f j = none := by
  obtain ⟨before, k, after, hrange, hk, hbefore⟩ := List.findSome?_eq_some_iff.mp h
  rw [List.range_eq_range', List.range'_eq_append_iff] at hrange
  obtain ⟨i, -, rfl, hafter⟩ := hrange
  obtain ⟨hi, -⟩ := List.range'_eq_cons_iff.mp hafter.symm
  obtain rfl : i = k := by omega
  exact ⟨i, hk, fun j hj => hbefore j (List.mem_range'.mpr ⟨j, hj, by omega⟩)⟩

/-- The shortest decimal is on a grid that comes after one without a point. -/
theorem shortest_spec {x : Binary64} (h : x.isZero = false) (hfinite : x.isFinite = true) :
    x.onGrid? x.shortest.exponent = some x.shortest ∧
      x.onGrid? (x.shortest.exponent + 1) = none := by
  obtain ⟨m, hm⟩ := exists_pred h
  have hsome : x.gridExponents.findSome? x.onGrid? ≠ none := by
    intro hnone
    refine onGrid?_ne_none hm ((finest_lt hfinite).trans_le (width hm)) ?_
    exact List.findSome?_eq_none_iff.mp hnone _
      (List.mem_map.mpr ⟨99, List.mem_range.mpr (by decide), rfl⟩)
  obtain ⟨d, hd⟩ := Option.ne_none_iff_exists'.mp hsome
  have hshortest : x.shortest = d := by rw [shortest, hd, Option.getD_some]
  rw [hshortest]
  rw [gridExponents, List.findSome?_map] at hd
  obtain ⟨k, hgrid, hbefore⟩ := findSome?_range_eq_some hd
  rw [Function.comp_apply] at hgrid
  rw [(onGrid?_eq_some hgrid).2.1]
  refine ⟨hgrid, ?_⟩
  cases k with
  | zero =>
      rw [Nat.cast_zero, Int.sub_zero, onGrid?_coarsest h] at hgrid
      cases hgrid
  | succ k =>
      have hexponent : x.exponentAbove - ((k + 1 : Nat) : ℤ) + 1 = x.exponentAbove - k := by omega
      rw [hexponent]
      exact hbefore k (Nat.lt_succ_self k)

/-! ### Bounds -/

theorem digits_shortest_lt {x : Binary64} (h : x.isZero = false) (hfinite : x.isFinite = true) :
    x.shortest.digits < 10 ^ 18 := by
  obtain ⟨hgrid, hnone⟩ := shortest_spec h hfinite
  have hstep := le_step_of_onGrid?_eq_none h hnone
  have hdigits := (onGrid?_eq_some hgrid).2.2
  have hbelow := below_le_value x x.shortest.exponent
  generalize (x.gridRatio x.shortest.exponent).1 / (x.gridRatio x.shortest.exponent).2 = below at *
  have hsignificand : (x.significand : ℚ) ≤ 2 ^ 53 := by exact_mod_cast (significand_lt x).le
  have hpos := zpow_pos (two_pos (α := ℚ)) x.scale
  have hten : (0 : ℚ) < 10 ^ x.shortest.exponent := zpow_pos (by norm_num) _
  have hvalue := mul_le_mul_of_nonneg_right hsignificand hpos.le
  rw [zpow_add_one₀ (by norm_num)] at hstep
  rw [← significand_mul_scale] at hbelow
  have hlt : (below : ℚ) < 10 ^ 18 - 1 := by
    refine lt_of_mul_lt_mul_right ?_ hten.le
    linarith
  have hlt' : (x.shortest.digits : ℚ) < 10 ^ 18 := by
    have hle : x.shortest.digits ≤ below + 1 := by omega
    have hle' : (x.shortest.digits : ℚ) ≤ below + 1 := by exact_mod_cast hle
    linarith
  exact_mod_cast hlt'

theorem roundsTo_shortest {x : Binary64} (h : x.isZero = false) (hfinite : x.isFinite = true) :
    RoundsTo (x.shortest.digits * 10 ^ x.shortest.exponent) x.magnitude :=
  (readsBack_iff h _).mp (onGrid?_eq_some (shortest_spec h hfinite).1).1

theorem exponent_shortest_ge {x : Binary64} (h : x.isZero = false) (hfinite : x.isFinite = true) :
    -324 ≤ x.shortest.exponent := by
  have hstep := le_step_of_onGrid?_eq_none h (shortest_spec h hfinite).2
  have hscale : (2 : ℚ) ^ (-1074 : ℤ) ≤ 2 ^ x.scale :=
    zpow_le_zpow_right₀ one_le_two (scale_bounds hfinite).1
  have hlow : (10 : ℚ) ^ (-324 : ℤ) < 3 / 4 * 2 ^ (-1074 : ℤ) := by
    have hnat : 4 * 2 ^ 1074 < 3 * 10 ^ 324 := by decide +kernel
    have hcast := (Nat.cast_lt (α := ℚ)).mpr hnat
    simp only [Nat.cast_mul, Nat.cast_pow, Nat.cast_ofNat] at hcast
    exact inv_lt_three_quarters (pow_pos (by norm_num) _) (pow_pos two_pos _) hcast
  have hlt : (10 : ℚ) ^ (-324 : ℤ) < 10 ^ (x.shortest.exponent + 1) :=
    hlow.trans_le ((mul_le_mul_of_nonneg_left hscale (by norm_num)).trans hstep)
  have := (zpow_lt_zpow_iff_right₀ (by norm_num)).mp hlt
  omega

theorem exponent_shortest_le {x : Binary64} (h : x.isZero = false) (hfinite : x.isFinite = true) :
    x.shortest.exponent ≤ 308 := by
  have hdigits : (1 : ℚ) ≤ x.shortest.digits := Nat.one_le_cast.mpr (digits_shortest_pos h)
  have hhigh : (2 : ℚ) ^ (x.scale + 53) ≤ 10 ^ (309 : ℤ) := by
    have hnat : 2 ^ 1024 ≤ 10 ^ 309 := by decide +kernel
    have hcast := (Nat.cast_le (α := ℚ)).mpr hnat
    rw [Nat.cast_pow, Nat.cast_pow, Nat.cast_ofNat, Nat.cast_ofNat, ← zpow_natCast,
      ← zpow_natCast] at hcast
    refine le_trans (zpow_le_zpow_right₀ one_le_two ?_) hcast
    have := (scale_bounds hfinite).2
    omega
  have hlt : (10 : ℚ) ^ x.shortest.exponent < 10 ^ (309 : ℤ) := calc
    (10 : ℚ) ^ x.shortest.exponent ≤ x.shortest.digits * 10 ^ x.shortest.exponent :=
      le_mul_of_one_le_left (zpow_nonneg (by norm_num) _) hdigits
    _ ≤ boundary x.magnitude := (roundsTo_shortest h hfinite).upper
    _ < 2 ^ (x.scale + 53) := boundary_lt x
    _ ≤ 10 ^ (309 : ℤ) := hhigh
  have := (zpow_lt_zpow_iff_right₀ (by norm_num)).mp hlt
  omega

end MeasureInference.Binary64
