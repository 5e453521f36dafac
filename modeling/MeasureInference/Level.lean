/-!
A level of a categorical column: the stored code and the label shown for it.
-/

namespace MeasureInference

structure Level where
  value : Int32
  label : String
  deriving DecidableEq, Repr

namespace Level

/-- Levels of a sequence of labels, coded from zero upwards. Codes have thirty-two bits, so those of
a longer sequence wrap around. -/
def ofLabels (labels : List String) : List Level :=
  labels.mapIdx fun k label => ⟨Int32.ofNat k, label⟩

end Level

end MeasureInference
