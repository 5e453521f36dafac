/-!
The identity of a registered function: the name that formulas call it by. Any text is a name,
and names are ordered by their code points.
-/

namespace MeasureInference

structure FunctionId where
  name : String
  deriving DecidableEq, Repr

namespace FunctionId

/-- The order of names, code point by code point; a name comes before its continuations. -/
def order (a b : FunctionId) : Ordering := compareOfLessAndEq a.name b.name

/-- The names in ascending order, repeated ones kept. -/
def sorted (ids : List FunctionId) : List FunctionId :=
  ids.mergeSort fun a b => order a b != .gt

/-- How many different names a list holds. -/
def distinct (ids : List FunctionId) : Nat := ids.eraseDups.length

end FunctionId

end MeasureInference
