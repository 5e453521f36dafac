import MeasureInference.Registry.Basic

/-!
Resolving many computed columns at once. The functions are all looked up before any column is
resolved, and the results keep the order of the columns. Each column is resolved by a thread of its
own: what its two inferences look at and announce there is not followed by the one who asked.
-/

namespace MeasureInference

/-- A call that awaits inference: a function by name, its arguments and its output. -/
structure ColumnCall where
  function : FunctionId
  args : List Argument
  output : List Cell
  deriving DecidableEq, Repr

/-- A call whose function has been looked up. -/
structure ComputedColumn where
  descriptor : Descriptor
  args : List Argument
  output : List Cell
  deriving DecidableEq, Repr

structure ResolvedColumn where
  function : FunctionId
  measure : Measure
  levels : List ResolvedLevel
  deriving DecidableEq, Repr

namespace ComputedColumn

def resolve (c : ComputedColumn) : Observed ResolvedColumn := do
  let measure ← c.descriptor.resolveType c.args
  let levels ← c.descriptor.resolveLevels c.args c.output
  return ⟨c.descriptor.id, measure, levels⟩

def resolveAll (columns : List ComputedColumn) : Observed (List ResolvedColumn) := do
  Observed.announce (.columnsResolving columns.length)
  columns.mapM fun c => c.resolve.unfollowed

end ComputedColumn

namespace Registry

/-- Looks up the function of a call. -/
def prepare (r : Registry) (call : ColumnCall) : Except Fault ComputedColumn := do
  return ⟨← r.descriptor call.function, call.args, call.output⟩

/-- Resolves the calls, or fails for the first function that is not registered. -/
def batch (r : Registry) (calls : List ColumnCall) :
    ExceptT Fault Observed (List ResolvedColumn) := do
  let columns ← (calls.mapM r.prepare : Except Fault (List ComputedColumn))
  ComputedColumn.resolveAll columns

end Registry

end MeasureInference
