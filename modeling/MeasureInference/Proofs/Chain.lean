import Mathlib.Order.Bounds.Basic
import Mathlib.Order.MinMax
import MeasureInference.Resolution

/-!
The chain of measures, and why the scan climbs it.

A scan is not a maximum: fed `continuous` in the state `nominalText` it would go down. What saves
it is that no scan started below the top ever sees that state, because the measure that leads
there also ends the scan. So the invariant is only that the state differs from `nominalText`;
under it every step takes the greater of state and measure, and the halt changes nothing, because
`nominalText` is the top of the chain. From there on a scan is a fold of `max`, and nothing below
needs to look at single steps again.
-/

namespace MeasureInference

namespace Measure

/-- The place of a measure in the chain `nominal < ordinal < continuous < nominalText`. -/
def rank : Measure → Nat
  | nominal => 0
  | ordinal => 1
  | continuous => 2
  | nominalText => 3

theorem rank_injective : Function.Injective rank := by
  intro a b h
  cases a <;> cases b <;> first | rfl | cases h

instance : LinearOrder Measure :=
  { PartialOrder.lift rank rank_injective with
    le_total := fun a b => Nat.le_total a.rank b.rank
    toDecidableLE := fun a b => inferInstanceAs (Decidable (a.rank ≤ b.rank))
    toDecidableEq := inferInstance }

theorem le_iff_rank_le {a b : Measure} : a ≤ b ↔ a.rank ≤ b.rank := Iff.rfl

theorem le_nominalText (m : Measure) : m ≤ nominalText := by
  rw [le_iff_rank_le]
  cases m <;> decide

@[simp] theorem step_nominalText (state : Measure) : step state nominalText = .halt nominalText :=
  rfl

/-- Below the top of the chain a step goes on with the greater of state and measure. -/
theorem step_eq_proceed_max {state next : Measure} (hstate : state ≠ nominalText)
    (hnext : next ≠ nominalText) : step state next = .proceed (max state next) := by
  cases state <;> cases next <;> first | contradiction | rfl

theorem max_ne_nominalText {a b : Measure} (ha : a ≠ nominalText) (hb : b ≠ nominalText) :
    max a b ≠ nominalText := by
  rcases max_choice a b with h | h
  · rwa [h]
  · rwa [h]

/-- A fold of `max` that has reached the top stays there. -/
theorem foldl_max_nominalText (measures : List Measure) :
    measures.foldl max nominalText = nominalText := by
  induction measures with
  | nil => rfl
  | cons m measures ih =>
      rw [List.foldl_cons, max_eq_left (le_nominalText m)]
      exact ih

theorem isGreatest_foldl_max (state : Measure) (measures : List Measure) :
    IsGreatest (insert state {m | m ∈ measures}) (measures.foldl max state) := by
  -- Each step moves the first measure into the start.
  induction measures generalizing state with
  | nil => simp
  | cons m measures ih =>
      obtain ⟨hmem, hbound⟩ := ih (max state m)
      rw [List.foldl_cons]
      constructor
      · rcases hmem with h | h
        · rcases max_choice state m with hmax | hmax
          · exact .inl (h.trans hmax)
          · exact .inr (List.mem_cons.mpr (.inl (h.trans hmax)))
        · exact .inr (List.mem_cons_of_mem m h)
      · have hstart : max state m ≤ measures.foldl max (max state m) := hbound (.inl rfl)
        rintro a (rfl | ha)
        · exact (le_max_left a m).trans hstart
        · rcases List.mem_cons.mp ha with rfl | ha
          · exact (le_max_right state a).trans hstart
          · exact hbound (.inr ha)

end Measure

open MeasureInference.Measure in
/-- A scan that starts below the top of the chain answers with the maximum of its start and of all
selected measures, those behind the halt included. -/
theorem value_scanArguments {state : Measure} (hstate : state ≠ nominalText)
    (selected : List (Nat × Argument)) :
    (scanArguments state selected).value =
      (selected.map fun entry => entry.2.measure).foldl max state := by
  induction selected generalizing state with
  | nil => rfl
  | cons entry selected ih =>
      obtain ⟨position, arg⟩ := entry
      simp only [scanArguments, Observed.value_bind, Observed.measureOf, Observed.value_look,
        List.map_cons, List.foldl_cons]
      by_cases harg : arg.measure = nominalText
      -- The halt is at the top of the chain, so the measures behind it can add nothing.
      · rw [harg, step_nominalText, max_eq_right (le_nominalText state), foldl_max_nominalText]
        rfl
      · rw [step_eq_proceed_max hstate harg]
        exact ih (max_ne_nominalText hstate harg)

end MeasureInference
