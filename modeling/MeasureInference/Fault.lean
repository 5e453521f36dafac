import MeasureInference.EvalMode
import MeasureInference.FunctionId
import MeasureInference.Json.Failure
import MeasureInference.Measure

/-!
What may go wrong at the border of the library. Inference itself never fails.
-/

namespace MeasureInference

inductive Fault where
  | unknownFunction (function : FunctionId)
  | duplicateFunction (function : FunctionId)
  | unknownMeasure (text : String)
  | unknownMode (text : String)
  | malformed (why : Json.Malformation)
  deriving DecidableEq, Repr

def Fault.message : Fault → String
  | unknownFunction f => "Function '" ++ f.name ++ "' has no registered descriptor"
  | duplicateFunction f =>
    "Function '" ++ f.name ++ "' is declared more than once in the function table"
  | unknownMeasure text => "Unknown measure type '" ++ text ++ "'"
  | unknownMode text => "Unknown evaluation mode '" ++ text ++ "'"
  | malformed why => "Malformed function table: " ++ why.message

/-- The measure of a free spelling, or a fault that quotes the text as it came. -/
def Measure.parse (s : String) : Except Fault Measure :=
  match Measure.ofText? s with
  | some m => .ok m
  | none => .error (.unknownMeasure s)

/-- The mode of a free spelling, or a fault that quotes the text as it came. -/
def EvalMode.parse (s : String) : Except Fault EvalMode :=
  match EvalMode.ofText? s with
  | some m => .ok m
  | none => .error (.unknownMode s)

end MeasureInference
