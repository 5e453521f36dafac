import MeasureInference.Proofs.Column

/-!
The codes of levels that are taken from labels.

A level is coded by its position, but a code has thirty-two bits and a list of labels has no bound.
From position `2 ^ 31` on the codes go on from the least of them, so a longer list of labels has
neither its positions for codes nor codes that increase; they start to repeat at position `2 ^ 32`.
The labels themselves are all kept, and whether there are levels does not depend on their codes.
-/

namespace MeasureInference

namespace Level

/-- What a position becomes as a code. -/
def wrapped (k : Nat) : Int := Int.bmod k (Nat.pow 2 32)

theorem toInt_ofNat (k : Nat) : (Int32.ofNat k).toInt = wrapped k := Int32.toInt_ofNat'

theorem wrapped_of_lt {k : Nat} (h : k < Nat.pow 2 31) : wrapped k = k := by
  have hhalf : Nat.pow 2 32 = 2 * Nat.pow 2 31 := rfl
  exact Int.bmod_eq_of_le_mul_two (by omega) (by omega)

theorem wrapped_pow : wrapped (Nat.pow 2 31) = -2147483648 := by decide

theorem wrapped_period : wrapped (Nat.pow 2 32) = wrapped 0 := by decide

theorem wrapped_injOn {j k : Nat} (hj : j < Nat.pow 2 32) (hk : k < Nat.pow 2 32)
    (h : wrapped j = wrapped k) : j = k := by
  have hmod : (j : Int) % Nat.pow 2 32 = (k : Int) % Nat.pow 2 32 := by
    rw [← Int.bmod_emod, ← Int.bmod_emod (x := k)]
    exact congrArg (· % (Nat.pow 2 32 : Int)) h
  rw [Int.emod_eq_of_lt (Int.natCast_nonneg j) (Int.ofNat_lt.mpr hj),
    Int.emod_eq_of_lt (Int.natCast_nonneg k) (Int.ofNat_lt.mpr hk)] at hmod
  exact Int.ofNat_inj.mp hmod

end Level

namespace Column

/-- The codes of a column's levels. -/
def codes (c : Column) : List Int := c.levels.map fun level => level.value.toInt

variable (c : Column) (labels : List String)

theorem getElem?_levels_withLabels (k : Nat) :
    (c.withLabels labels).levels[k]? = labels[k]?.map fun label => ⟨Int32.ofNat k, label⟩ :=
  Level.getElem?_ofLabels labels k

theorem codes_withLabels :
    (c.withLabels labels).codes = (List.range labels.length).map Level.wrapped := by
  apply List.ext_getElem?
  intro k
  rw [codes, List.getElem?_map, getElem?_levels_withLabels, List.getElem?_map, Option.map_map]
  by_cases hk : k < labels.length
  · rw [List.getElem?_range hk, List.getElem?_eq_getElem hk, Option.map_some, Option.map_some,
      Function.comp_apply, Level.toInt_ofNat]
  · rw [List.getElem?_eq_none (Nat.le_of_not_lt hk),
      List.getElem?_eq_none (by rw [List.length_range]; exact Nat.le_of_not_lt hk)]
    rfl

/-- A relation between codes is one between positions. -/
theorem pairwise_codes_iff (R : Int → Int → Prop) :
    (c.withLabels labels).codes.Pairwise R ↔
      ∀ j k, j < k → k < labels.length → R (Level.wrapped j) (Level.wrapped k) := by
  rw [codes_withLabels, List.pairwise_iff_getElem]
  simp only [List.length_map, List.length_range, List.getElem_map, List.getElem_range]
  exact ⟨fun h j k hjk hk => h j k (Nat.lt_trans hjk hk) hk hjk,
    fun h j k _ hk hjk => h j k hjk hk⟩

theorem codes_eq_positions_iff :
    (c.withLabels labels).codes = (List.range labels.length).map Nat.cast ↔
      labels.length ≤ Nat.pow 2 31 := by
  rw [codes_withLabels, List.map_inj_left]
  constructor
  · intro h
    by_contra hlong
    have hcode := h (Nat.pow 2 31) (List.mem_range.mpr (Nat.lt_of_not_le hlong))
    rw [Level.wrapped_pow] at hcode
    omega
  · intro h k hk
    exact Level.wrapped_of_lt (Nat.lt_of_lt_of_le (List.mem_range.mp hk) h)

theorem codes_increasing_iff :
    (c.withLabels labels).codes.Pairwise (· < ·) ↔ labels.length ≤ Nat.pow 2 31 := by
  rw [pairwise_codes_iff]
  constructor
  · intro h
    by_contra hlong
    have hcodes := h (Nat.pow 2 31 - 1) (Nat.pow 2 31) (by decide) (Nat.lt_of_not_le hlong)
    rw [Level.wrapped_pow, Level.wrapped_of_lt (by decide)] at hcodes
    omega
  · intro h j k hjk hk
    rw [Level.wrapped_of_lt (by omega), Level.wrapped_of_lt (by omega)]
    omega

theorem nodup_codes_iff : (c.withLabels labels).codes.Nodup ↔ labels.length ≤ Nat.pow 2 32 := by
  rw [List.Nodup, pairwise_codes_iff]
  constructor
  · intro h
    by_contra hlong
    exact h 0 (Nat.pow 2 32) (by decide) (Nat.lt_of_not_le hlong) Level.wrapped_period.symm
  · intro h j k hjk hk heq
    have hjk' : j = k := Level.wrapped_injOn (by omega) (by omega) heq
    omega

theorem hasLevels_withLabels : (c.withLabels labels).hasLevels = true ↔ labels ≠ [] := by
  have hnone : (c.withLabels labels).labels = [] ↔ (c.withLabels labels).levels = [] :=
    List.map_eq_nil_iff
  rw [hasLevels, Bool.not_eq_true', List.isEmpty_eq_false_iff, ne_eq, ← hnone, labels_withLabels]

/-- Labels are all kept in their order, each coded by its position in thirty-two bits, and nothing
of earlier levels is left. The codes are the positions, and increase, as long as there are at most
`2 ^ 31` labels; they are different as long as there are at most `2 ^ 32`. -/
theorem withLabels_decided :
    (c.withLabels labels).levels.map Level.label = labels ∧
    (∀ k, (c.withLabels labels).codes[k]? =
      if k < labels.length then some (Int.bmod k (Nat.pow 2 32)) else none) ∧
    ((c.withLabels labels).codes = (List.range labels.length).map Nat.cast ↔
      labels.length ≤ Nat.pow 2 31) ∧
    ((c.withLabels labels).codes.Pairwise (· < ·) ↔ labels.length ≤ Nat.pow 2 31) ∧
    ((c.withLabels labels).codes.Nodup ↔ labels.length ≤ Nat.pow 2 32) ∧
    ((c.withLabels labels).argument.hasLevels = true ↔ labels ≠ []) ∧
    c.withLabels labels =
      { c with levels := (c.withLabels labels).levels } ∧
    (∀ levels, (c.withLevels levels).withLabels labels = c.withLabels labels) := by
  refine ⟨labels_withLabels c labels, fun k => ?_, codes_eq_positions_iff c labels,
    codes_increasing_iff c labels, nodup_codes_iff c labels, hasLevels_withLabels c labels, rfl,
    fun _ => rfl⟩
  rw [codes_withLabels, List.getElem?_map]
  split
  · next hk =>
    rw [List.getElem?_range hk, Option.map_some]
    rfl
  · next hk => rw [List.getElem?_eq_none (by rw [List.length_range]; omega), Option.map_none]

/-- The first list of labels that is too long: its last code is the least there is. -/
theorem withLabels_tooLong :
    ((Column.new "region" .nominal).withLabels
      (List.replicate (Nat.pow 2 31 + 1) "")).levels[Nat.pow 2 31]? = some ⟨-2147483648, ""⟩ ∧
    ¬((Column.new "region" .nominal).withLabels
      (List.replicate (Nat.pow 2 31 + 1) "")).codes.Pairwise (· < ·) := by
  constructor
  · have hlast : (List.replicate (Nat.pow 2 31 + 1) "")[Nat.pow 2 31]? = some "" :=
      List.getElem?_replicate_of_lt (by omega)
    have hcode : Int32.ofNat (Nat.pow 2 31) = -2147483648 := by decide
    rw [getElem?_levels_withLabels, hlast, Option.map_some, hcode]
  · have hlong : ¬(List.replicate (Nat.pow 2 31 + 1) "").length ≤ Nat.pow 2 31 := by
      rw [List.length_replicate]
      omega
    exact mt (codes_increasing_iff _ _).mp hlong

end Column

end MeasureInference
