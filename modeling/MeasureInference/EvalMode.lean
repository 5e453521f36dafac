import MeasureInference.Text.Blank

/-!
How an evaluator feeds a function: one row at a time, or whole columns.
-/

namespace MeasureInference

inductive EvalMode where
  | unspecified
  | rowWise
  | columnWise
  deriving DecidableEq, Repr

namespace EvalMode

instance : Inhabited EvalMode := ⟨unspecified⟩

def name : EvalMode → String
  | unspecified => "unspecified"
  | rowWise => "row_wise"
  | columnWise => "column_wise"

def all : List EvalMode := [unspecified, rowWise, columnWise]

def isRowWise : EvalMode → Bool
  | rowWise => true
  | _ => false

def isColumnWise : EvalMode → Bool
  | columnWise => true
  | _ => false

/-- The mode of a trimmed word in small letters; the empty word leaves the mode open. -/
def ofWord? : String → Option EvalMode
  | "unspecified" => some unspecified
  | "" => some unspecified
  | "row_wise" => some rowWise
  | "row" => some rowWise
  | "column_wise" => some columnWise
  | "column" => some columnWise
  | _ => none

/-- The mode of a free spelling. -/
def ofText? (s : String) : Option EvalMode := ofWord? (Text.word s)

end EvalMode

end MeasureInference
