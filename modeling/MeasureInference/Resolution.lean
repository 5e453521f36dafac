import MeasureInference.Argument
import MeasureInference.Descriptor
import MeasureInference.Measure.Scan
import MeasureInference.Usage.Basic

/-!
Inference for one call. The measure of the result comes from a scan over the arguments that the
return slots select; classifications behind the one that halts the scan are never asked for. Only
when a scan answers `nominalText` are levels resolved: the labels of the selected arguments become
candidates, whether or not the scan got as far, and the output is read once to count them. Without
candidates it is not read at all.
-/

namespace MeasureInference

namespace Observed

def measureOf (position : Nat) (arg : Argument) : Observed Measure :=
  look (.measure position) arg.measure

def hasLevelsOf (position : Nat) (arg : Argument) : Observed Bool :=
  look (.hasLevels position) arg.hasLevels

def levelsOf (position : Nat) (arg : Argument) : Observed (List Level) :=
  look (.levels position) arg.levels

end Observed

/-- Scans the measures of arguments, asking for each only when its turn comes. -/
def scanArguments (state : Measure) : List (Nat × Argument) → Observed Measure
  | [] => pure state
  | (position, arg) :: rest => do
    match state.step (← Observed.measureOf position arg) with
    | .proceed next => scanArguments next rest
    | .halt last => pure last

/-- The candidate labels of arguments, in order, of those that say they have levels. -/
def collectCandidates (candidates : Usage) : List (Nat × Argument) → Observed Usage
  | [] => pure candidates
  | (position, arg) :: rest => do
    if ← Observed.hasLevelsOf position arg then
      let levels ← Observed.levelsOf position arg
      let labels := levels.map Level.label
      collectCandidates (labels.foldl Usage.addCandidate candidates) rest
    else collectCandidates candidates rest

namespace Descriptor

/-- Whether the arguments decide: there are some, and there are slots to select them. -/
def scans (d : Descriptor) (args : List Argument) : Bool := !d.returns.isEmpty && !args.isEmpty

/-- The measure of a call's result. -/
def resolveType (d : Descriptor) (args : List Argument) : Observed Measure :=
  if d.scans args then do
    let measure ← scanArguments .nominal (Argument.selected d.returns args)
    Observed.announce (.measureResolved d.id measure)
    return measure
  else pure d.measure

/-- How often the candidate labels of a call occur in its output, or nothing when its result has no
levels to resolve. -/
def levelUsage (d : Descriptor) (args : List Argument) (output : List Cell) :
    Observed (Option Usage) := do
  if d.scans args then
    if (← d.resolveType args) = .nominalText then
      let candidates ← collectCandidates .empty (Argument.selected d.returns args)
      let usage ← if candidates.isEmpty then pure candidates else candidates.tally output
      Observed.announce (.usageTallied d.id usage.size)
      return some usage
    else return none
  else return none

/-- The levels of a call's result: the candidate labels that occur in its output. -/
def resolveLevels (d : Descriptor) (args : List Argument) (output : List Cell) :
    Observed (List ResolvedLevel) := do
  match ← d.levelUsage args output with
  | some usage => return usage.usedLevels
  | none => return []

end Descriptor

end MeasureInference
