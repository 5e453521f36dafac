import MeasureInference.Observed

/-!
What is configured for one function: the measure it declares, the argument positions that may
override it, and how it is evaluated. An edit changes one of these, never the identity, and is
announced.
-/

namespace MeasureInference

structure Descriptor where
  id : FunctionId
  measure : Measure
  returns : List UInt64
  mode : EvalMode
  deriving DecidableEq, Repr

/-- A change to a descriptor. -/
inductive Edit where
  | configure (measure : Measure) (returns : List UInt64)
  | setMode (mode : EvalMode)
  deriving DecidableEq, Repr

namespace Edit

def setRowWise : Edit := setMode .rowWise

def setColumnWise : Edit := setMode .columnWise

end Edit

namespace Descriptor

/-- A function about which nothing has been said yet. -/
def new (id : FunctionId) : Descriptor := ⟨id, default, [], default⟩

def isFresh (d : Descriptor) : Bool := d = new d.id

def edited (d : Descriptor) : Edit → Descriptor
  | .configure measure returns => { d with measure, returns }
  | .setMode mode => { d with mode }

/-- The descriptor after each of some edits. -/
def history (d : Descriptor) : List Edit → List Descriptor
  | [] => []
  | e :: edits => d.edited e :: (d.edited e).history edits

/-- The event that an edit of the function announces. -/
def editEvent (function : FunctionId) : Edit → Event
  | .configure measure returns => .configured function measure returns
  | .setMode mode => .modeSet function mode

/-- Applies an edit and announces it, even when it changes nothing. -/
def edit (d : Descriptor) (e : Edit) : Observed Descriptor := do
  Observed.announce (editEvent d.id e)
  return d.edited e

/-- A line about the function that shows all of its configuration. -/
def summary (d : Descriptor) : String :=
  d.id.name ++ " \x7b row_wise: " ++ toString d.mode.isRowWise ++
    ", column_wise: " ++ toString d.mode.isColumnWise ++
    ", measure_type: " ++ d.measure.name ++
    ", returns: " ++ slotsText d.returns ++ " \x7d"

end Descriptor

end MeasureInference
