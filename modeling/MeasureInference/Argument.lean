import MeasureInference.Level
import MeasureInference.Measure

/-!
What inference may ask of one argument of a call: its measure, whether it has levels, and the
levels in their own order. The three answers are independent of each other.
-/

namespace MeasureInference

structure Argument where
  measure : Measure
  hasLevels : Bool
  levels : List Level
  deriving DecidableEq, Repr

namespace Argument

/-- A bare measure, such as that of a literal, has no levels. -/
def ofMeasure (measure : Measure) : Argument := ⟨measure, false, []⟩

/-- The arguments that return slots select, each with its position, in slot order. A slot beyond
the last argument selects nothing. -/
def selected (slots : List UInt64) (args : List Argument) : List (Nat × Argument) :=
  slots.filterMap fun slot => args[slot.toNat]?.map fun arg => (slot.toNat, arg)

end Argument

end MeasureInference
