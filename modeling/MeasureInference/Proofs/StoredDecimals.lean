import MeasureInference.Proofs.StoredCells
import MeasureInference.Proofs.WrittenDecimals

/-!
What becomes of decimals that are written and read back.

The text of a finite number is read by scaling the digits that it has, so what comes back is known:
a number of the same sign, at most two magnitudes away, and the same number where nothing has to be
rounded for scaling. This holds for every reading of a written text, so the way of a cell through any
number of writings and readings follows by induction.
-/

namespace MeasureInference

open Json (Numeral Style greatestDepth)
open Json.Reader (content content_numeral map_of_ok number number_of_fits)

/-- Writes a value and reads it back, once in each of the styles. -/
def Stored.cycles {α : Type} [Stored α] (styles : List Style) (a : α) : Except Fault α :=
  styles.foldlM (fun a style => Stored.parse ((Stored.toValue a).render style)) a

namespace Cell

variable {x : Binary64}

/-- The decimal that a text spells is scaled, and takes its sign. -/
theorem parse_decimal (hfinite : x.isFinite = true) {y : Binary64}
    (h : Binary64.scaled? x.written.digits x.written.exponent = some y) (style : Style) :
    Stored.parse ((Stored.toValue (decimal x)).render style) =
      .ok (decimal (y.withSign x.isNegative)) := by
  obtain ⟨n, hdecimal, hchars, hsign, hdigits, hpower, hexponent⟩ := Json.exists_numeral_text x
  have hfits : n.Fits := by
    refine ⟨?_, fun e he => ?_⟩
    · rw [hdigits]
      exact (Binary64.readable_written hfinite).digits
    · rw [hexponent e he]
      exact Binary64.natAbs_lead_lt hfinite
  have hnumber : number (n.chars ++ []) = .ok (.decimal (y.withSign x.isNegative), []) := by
    rw [number_of_fits hdecimal hfits Json.delimited_nil, hdigits, hpower, hsign,
      Json.Reader.decimal, h]
    rfl
  have hcontent : content greatestDepth n.chars =
      .ok (.number (.decimal (y.withSign x.isNegative)), []) := by
    have hread := content_numeral n greatestDepth Json.blank_nil []
    rw [List.nil_append, map_of_ok hnumber, List.append_nil] at hread
    exact hread
  have hrender : (Stored.toValue (decimal x)).render style = String.ofList n.chars := by
    rw [hchars]
    exact congrArg String.ofList (if_pos hfinite)
  rw [hrender]
  exact parse_of_ok hcontent rfl Json.blank_nil

/-- Finite numbers of one sign, at most so many magnitudes apart. -/
structure Near (steps : Nat) (x y : Binary64) : Prop where
  finite : y.isFinite = true
  sign : y.isNegative = x.isNegative
  le : y.magnitude ≤ x.magnitude + steps
  ge : x.magnitude ≤ y.magnitude + steps

/-- One cycle. -/
theorem exists_parse_decimal (hfinite : x.isFinite = true) (style : Style) :
    ∃ y, Stored.parse ((Stored.toValue (decimal x)).render style) = .ok (decimal y) ∧
      Near 2 x y ∧ (x.written.Unrounded → y = x) := by
  obtain ⟨y, hscaled, hlt, hle, hge, hexact⟩ := Binary64.exists_scaled hfinite
  refine ⟨_, parse_decimal hfinite hscaled style, ⟨?_, y.isNegative_withSign _, ?_, ?_⟩, ?_⟩
  · have hmagnitude := Binary64.magnitude_withSign x.isNegative y
    exact (Binary64.isFinite_iff (by omega)).mpr (by omega)
  · rwa [Binary64.magnitude_withSign]
  · rwa [Binary64.magnitude_withSign]
  · intro h
    exact Binary64.eq_of_magnitude (y.isNegative_withSign _)
      ((Binary64.magnitude_withSign _ y).trans (hexact h))

theorem Near.refl (hfinite : x.isFinite = true) : Near 0 x x := ⟨hfinite, rfl, le_rfl, le_rfl⟩

theorem Near.trans {j k : Nat} {y z : Binary64} (h : Near j x y) (h' : Near k y z) :
    Near (j + k) x z := by
  have hle := h.le
  have hge := h.ge
  have hle' := h'.le
  have hge' := h'.ge
  exact ⟨h'.finite, h'.sign.trans h.sign, by omega, by omega⟩

theorem exists_cycles_decimal (hfinite : x.isFinite = true) (styles : List Style) :
    ∃ y, Stored.cycles styles (decimal x) = .ok (decimal y) ∧ Near (2 * styles.length) x y ∧
      (x.written.Unrounded → y = x) := by
  induction styles generalizing x with
  | nil => exact ⟨x, rfl, .refl hfinite, fun _ => rfl⟩
  | cons style styles ih =>
      obtain ⟨y, hparse, hnear, hexact⟩ := exists_parse_decimal hfinite style
      obtain ⟨z, hcycles, hnear', hexact'⟩ := ih hnear.finite
      refine ⟨z, ?_, ?_, fun h => ?_⟩
      · rw [Stored.cycles, List.foldlM_cons, hparse]
        exact hcycles
      · rw [List.length_cons, Nat.mul_succ, Nat.add_comm]
        exact hnear.trans hnear'
      · obtain rfl := hexact h
        exact hexact' h

/-- A finite decimal stays one under any number of writings and readings, and it keeps its sign.
Each of them moves it by at most two magnitudes. Where the digits of its text have fifty-three
significant bits and the last of them stands for a power of ten up to `10 ^ 22` or down to
`10 ^ -22`, it is not moved at all. -/
theorem decimal_stays (x : Binary64) (hfinite : x.isFinite = true) :
    (∃ n : Numeral, n.chars = x.text ∧ n.significand = x.written.digits ∧
      n.power = x.written.exponent) ∧
    ∀ styles : List Style, ∃ y, Stored.cycles styles (decimal x) = .ok (decimal y) ∧
      Near (2 * styles.length) x y ∧ (x.written.Unrounded → y = x) := by
  obtain ⟨n, -, hchars, -, hdigits, hpower, -⟩ := Json.exists_numeral_text x
  exact ⟨⟨n, hchars, hdigits, hpower⟩, exists_cycles_decimal hfinite⟩

/-- A tenth, written in either style. -/
theorem decimal_stays_tenth :
    Stored.cycles [.compact, .pretty] (decimal ⟨0x3fb999999999999a⟩) =
      .ok (decimal ⟨0x3fb999999999999a⟩) := by
  obtain ⟨y, hcycles, -, hexact⟩ :=
    (decimal_stays ⟨0x3fb999999999999a⟩ (by decide)).2 [.compact, .pretty]
  have hwritten : (⟨0x3fb999999999999a⟩ : Binary64).written = ⟨1, -1⟩ := by decide +kernel
  rw [hcycles, hexact]
  rw [hwritten]
  exact ⟨⟨1, 0, by decide, rfl⟩, by decide, by decide⟩

/-- The greatest whole number of fifty-three bits is moved, because its digits and the zero behind
the point take more of them. -/
theorem decimal_moved :
    (⟨0x433fffffffffffff⟩ : Binary64).isFinite = true ∧
    Stored.parse (Stored.compact (decimal ⟨0x433fffffffffffff⟩)) ≠
      .ok (decimal ⟨0x433fffffffffffff⟩) := by
  have hfinite : (⟨0x433fffffffffffff⟩ : Binary64).isFinite = true := by decide
  have hscaled : Binary64.scaled? (⟨0x433fffffffffffff⟩ : Binary64).written.digits
      (⟨0x433fffffffffffff⟩ : Binary64).written.exponent = some ⟨0x433ffffffffffffe⟩ := by
    decide +kernel
  refine ⟨hfinite, fun h => ?_⟩
  have hmoved := (parse_decimal hfinite hscaled .compact).symm.trans h
  cases hmoved

end Cell

end MeasureInference
