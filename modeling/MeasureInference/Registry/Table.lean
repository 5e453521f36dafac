import MeasureInference.Registry.Basic
import MeasureInference.Stored

/-!
The function table: the stored form of a registry. A text is read to its end before its rows are
looked at; no two rows may declare the same function.
-/

namespace MeasureInference.Registry

/-- Adds a row whose function is not declared yet. -/
def addRow (r : Registry) (row : Descriptor) : Except Fault Registry :=
  if r.contains row.id then .error (.duplicateFunction row.id)
  else .ok ⟨r.functions.put row⟩

/-- The registry of some rows, in their order, or a fault for the first row that repeats a function
of an earlier one. -/
def ofRows (rows : List Descriptor) : Except Fault Registry := rows.foldlM addRow empty

def ofTable (text : String) : Except Fault Registry := do
  ofRows (← Stored.parse text)

def toTable (r : Registry) : String := Stored.pretty r.toList

/-- Reads a function table and announces it. -/
def load (text : String) : ExceptT Fault Observed Registry := do
  let r ← ofTable text
  Observed.announce (.tableLoaded r.size)
  return r

end MeasureInference.Registry
