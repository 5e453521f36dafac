import MeasureInference.Binary64.Shortest

/-!
The digits of the shortest decimal of a number.

Only zero has zero for its digits. Every candidate is tried by whether it reads back, and a decimal
that is zero does not read back as another number, whatever its exponent.
-/

namespace MeasureInference.Binary64

theorem significand_pos {x : Binary64} (h : x.isZero = false) : 0 < x.significand := by
  have hmagnitude : x.magnitude ≠ 0 := by simpa [isZero] using h
  rw [significand]
  split
  · next hfield =>
    -- In the lowest exponent step the fraction is all of the magnitude.
    have hsplit := Nat.div_add_mod x.magnitude (Nat.pow 2 52)
    rw [exponentField] at hfield
    rw [hfield, Nat.mul_zero, Nat.zero_add] at hsplit
    rw [fraction, hsplit]
    exact Nat.pos_of_ne_zero hmagnitude
  · exact Nat.add_pos_left (Nat.two_pow_pos 52) _

/-- Zero is far from the reals that round to another number. -/
theorem readsBack_zero {x : Binary64} (h : x.isZero = false) (exponent : Int) :
    x.readsBack ⟨0, exponent⟩ = false := by
  have hpos := significand_pos h
  have hlow : comparePowers 0 exponent (4 * x.significand - if x.narrowBelow then 1 else 2)
      (x.scale - 2) = .lt := by
    rw [comparePowers, Nat.zero_mul, Nat.zero_mul, Nat.compare_eq_lt]
    have hfactor : 0 < 4 * x.significand - if x.narrowBelow then 1 else 2 := by
      split <;> omega
    exact Nat.mul_pos (Nat.mul_pos hfactor (Nat.two_pow_pos _)) (Nat.pow_pos (by decide))
  rw [readsBack]
  simp only [hlow]
  simp

theorem digits_pos_of_readsBack {x : Binary64} (h : x.isZero = false) {d : Decimal}
    (hreads : x.readsBack d = true) : 0 < d.digits := by
  apply Nat.pos_of_ne_zero
  rintro hzero
  obtain ⟨digits, exponent⟩ := d
  obtain rfl : digits = 0 := hzero
  rw [readsBack_zero h] at hreads
  cases hreads

/-- What a grid offers reads back, and it is one of the two neighbours of the number. -/
theorem onGrid?_eq_some {x : Binary64} {exponent : Int} {d : Decimal}
    (h : x.onGrid? exponent = some d) :
    x.readsBack d = true ∧ d.exponent = exponent ∧
      (d.digits = (x.gridRatio exponent).1 / (x.gridRatio exponent).2 ∨
        d.digits = (x.gridRatio exponent).1 / (x.gridRatio exponent).2 + 1) := by
  rw [onGrid?] at h
  split at h
  · cases h
  · next hlower _ =>
    cases h
    exact ⟨hlower, rfl, .inl rfl⟩
  · next hupper =>
    cases h
    exact ⟨hupper, rfl, .inr rfl⟩
  · next hlower hupper =>
    split at h
    · cases h
      exact ⟨hlower, rfl, .inl rfl⟩
    · cases h
      exact ⟨hupper, rfl, .inr rfl⟩
    · split at h
      · cases h
        exact ⟨hlower, rfl, .inl rfl⟩
      · cases h
        exact ⟨hupper, rfl, .inr rfl⟩

theorem digits_exact_pos {x : Binary64} (h : x.isZero = false) : 0 < x.exact.digits := by
  have hpos := significand_pos h
  rw [exact]
  split
  · exact Nat.mul_pos hpos (Nat.two_pow_pos _)
  · exact Nat.mul_pos hpos (Nat.pow_pos (by decide))

theorem digits_shortest_pos {x : Binary64} (h : x.isZero = false) : 0 < x.shortest.digits := by
  rw [shortest]
  cases hgrid : x.gridExponents.findSome? x.onGrid? with
  | none => exact digits_exact_pos h
  | some d =>
      obtain ⟨exponent, -, hexponent⟩ := List.exists_of_findSome?_eq_some hgrid
      exact digits_pos_of_readsBack h (onGrid?_eq_some hexponent).1

end MeasureInference.Binary64
