import MeasureInference.Column
import MeasureInference.Registry.Table

/-!
The registry as an embedding program sees it. Everything crosses the border as plain data: a
measure is a free spelling, an argument a spelling with labels, a value a text or nothing.
Spellings are read from left to right before a function is looked up, and nothing is registered
for a spelling that stands for no measure.
-/

namespace MeasureInference.Host

/-- The version of the library. -/
def version : String := "0.1.0"

inductive Command where
  | version
  /-- Starts again with an empty registry. -/
  | fresh
  | returns (name measure : String) (slots : List UInt64)
  | rowWise (name : String)
  | columnWise (name : String)
  | isRowWise (name : String)
  | isColumnWise (name : String)
  | describe (name : String)
  | resolveType (name : String) (measures : List String)
  | resolveLevels (name : String) (args : List (String × List String))
      (values : List (Option String))
  | toTable
  | fromTable (text : String)
  | size
  | contains (name : String)

inductive Answer where
  | done
  | flag (value : Bool)
  | count (value : Nat)
  | text (value : String)
  | levels (levels : List ResolvedLevel)
  deriving DecidableEq, Repr

/-- The column of the argument at a position. -/
def column (position : Nat) (measure : String) (labels : List String) : Except Fault Column := do
  return (Column.new ("arg" ++ toString position) (← Measure.parse measure)).withLabels labels

/-- The columns of arguments from a position on. -/
def columns (position : Nat) : List (String × List String) → Except Fault (List Column)
  | [] => .ok []
  | (measure, labels) :: rest => do
    let first ← column position measure labels
    return first :: (← columns (position + 1) rest)

/-- The name of the measure of a call. -/
def resolveType (r : Registry) (name : String) (measures : List String) : Except Fault String := do
  let args := (← measures.mapM Measure.parse).map Argument.ofMeasure
  return (← (r.resolveType ⟨name⟩ args).run.value).name

/-- The levels of a call. -/
def resolveLevels (r : Registry) (name : String) (args : List (String × List String))
    (values : List (Option String)) : Except Fault (List ResolvedLevel) := do
  let args := (← columns 0 args).map Column.argument
  (r.resolveLevels ⟨name⟩ args (values.map Cell.ofText?)).run.value

/-- The registry after a command, and the answer to it or a fault. -/
def step (r : Registry) : Command → Registry × Except Fault Answer
  | .version => (r, .ok (.text version))
  | .fresh => (.empty, .ok .done)
  | .returns name measure slots =>
    match Measure.parse measure with
    | .error fault => (r, .error fault)
    | .ok m => ((r.returns ⟨name⟩ m slots).value, .ok .done)
  | .rowWise name => ((r.rowWise ⟨name⟩).value, .ok .done)
  | .columnWise name => ((r.columnWise ⟨name⟩).value, .ok .done)
  | .isRowWise name => (r, (r.descriptor ⟨name⟩).map fun d => .flag d.mode.isRowWise)
  | .isColumnWise name => (r, (r.descriptor ⟨name⟩).map fun d => .flag d.mode.isColumnWise)
  | .describe name => (r, (r.descriptor ⟨name⟩).map fun d => .text d.summary)
  | .resolveType name measures => (r, (resolveType r name measures).map .text)
  | .resolveLevels name args values => (r, (resolveLevels r name args values).map .levels)
  | .toTable => (r, .ok (.text r.toTable))
  | .fromTable text =>
    match Registry.ofTable text with
    | .error fault => (r, .error fault)
    | .ok loaded => (loaded, .ok (.count loaded.size))
  | .size => (r, .ok (.count r.size))
  | .contains name => (r, .ok (.flag (r.contains ⟨name⟩)))

/-- Runs commands in order. -/
def run (r : Registry) : List Command → List (Except Fault Answer) × Registry
  | [] => ([], r)
  | c :: commands =>
    let stepped := step r c
    let (answers, last) := run stepped.1 commands
    (stepped.2 :: answers, last)

end MeasureInference.Host
