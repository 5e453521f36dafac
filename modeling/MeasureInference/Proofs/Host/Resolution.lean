import Mathlib.Data.List.Count
import MeasureInference.Proofs.Column
import MeasureInference.Proofs.Host.Faults

/-!
The two kinds of resolution that an embedding program may ask for, side by side.

Both are given the same arguments and read them into different things: one into bare measures, the
other into columns, with codes for their labels. They stay in step because both read the spellings
first, from left to right, so that they are refused alike; and because inference looks at measures
and labels only, so that a bare measure does for the one what a whole column does for the other.
-/

namespace MeasureInference

namespace Host

/-! ### Refusals -/

/-- The labels of the arguments that slots select, in slot order and then in their own. -/
def offered (slots : List UInt64) (args : List (String × List String)) : List String :=
  (slots.filterMap fun slot => args[slot.toNat]?).flatMap Prod.snd

end Host

end MeasureInference
