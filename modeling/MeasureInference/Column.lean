import MeasureInference.Argument
import MeasureInference.Cell

/-!
A column in memory: an argument of calls and a source of values.
-/

namespace MeasureInference

structure Column where
  name : String
  measure : Measure
  levels : List Level
  values : List Cell
  deriving DecidableEq, Repr

namespace Column

/-- A column without levels and values. -/
def new (name : String) (measure : Measure) : Column := ⟨name, measure, [], []⟩

instance : Inhabited Column := ⟨new "" default⟩

def withLevels (c : Column) (levels : List Level) : Column := { c with levels }

/-- Takes levels from labels, coded from zero upwards. -/
def withLabels (c : Column) (labels : List String) : Column := c.withLevels (Level.ofLabels labels)

def withValues (c : Column) (values : List Cell) : Column := { c with values }

def hasLevels (c : Column) : Bool := !c.levels.isEmpty

def rowCount (c : Column) : Nat := c.values.length

def argument (c : Column) : Argument := ⟨c.measure, c.hasLevels, c.levels⟩

/-- Cell by cell equality of two rows of values. -/
def sameValues : List Cell → List Cell → Bool
  | [], [] => true
  | a :: as, b :: bs => a.sameValue b && sameValues as bs
  | _, _ => false

/-- Equality of columns, the values compared as values. -/
def sameColumn (a b : Column) : Bool :=
  a.name == b.name && a.measure == b.measure && a.levels == b.levels && sameValues a.values b.values

/-- A change to a column. Each replaces what was there before. -/
inductive Change where
  | labels (labels : List String)
  | levels (levels : List Level)
  | values (values : List Cell)
  deriving DecidableEq, Repr

def changed (c : Column) : Change → Column
  | .labels labels => c.withLabels labels
  | .levels levels => c.withLevels levels
  | .values values => c.withValues values

/-- The column after each of some changes, and whether it still equals the column before. -/
def history (c : Column) : List Change → List (Column × Bool)
  | [] => []
  | change :: changes =>
    (c.changed change, (c.changed change).sameColumn c) :: (c.changed change).history changes

end Column

end MeasureInference
