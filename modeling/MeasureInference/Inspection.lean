import MeasureInference.Resolution

/-!
Watching inference from the caller's side: calls on the same arguments and output, each with its
result and with how often everything has been looked at since the first call.
-/

namespace MeasureInference

inductive Call where
  | resolveType
  | resolveLevels
  | levelUsage
  deriving DecidableEq, Repr

/-- The result of a call. -/
inductive CallResult where
  | measure (measure : Measure)
  | levels (levels : List ResolvedLevel)
  | usage (usage : Option Usage)
  deriving DecidableEq, Repr

def Descriptor.perform (d : Descriptor) (args : List Argument) (output : List Cell) :
    Call → Observed CallResult
  | .resolveType => .measure <$> d.resolveType args
  | .resolveLevels => .levels <$> d.resolveLevels args output
  | .levelUsage => .usage <$> d.levelUsage args output

/-- How often one argument has been asked each question. -/
structure ArgumentReads where
  measure : Nat
  hasLevels : Nat
  levels : Nat
  deriving DecidableEq, Repr

structure Readings where
  arguments : List ArgumentReads
  starts : Nat
  cells : Nat
  deriving DecidableEq, Repr

/-- Counts looks at so many arguments and at the output. -/
def Readings.ofLooks (arguments : Nat) (looks : List Look) : Readings where
  arguments := (List.range arguments).map fun j =>
    ⟨looks.count (.measure j), looks.count (.hasLevels j), looks.count (.levels j)⟩
  starts := looks.count .start
  cells := looks.count .cell

/-- Performs calls in order behind earlier looks. -/
def Descriptor.inspect (d : Descriptor) (args : List Argument) (output : List Cell)
    (earlier : List Look) : List Call → List (CallResult × Readings)
  | [] => []
  | call :: calls =>
    let performed := d.perform args output call
    let looks := earlier ++ performed.looks
    (performed.value, .ofLooks args.length looks) :: d.inspect args output looks calls

end MeasureInference
