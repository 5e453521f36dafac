import MeasureInference.EvalMode
import MeasureInference.FunctionId
import MeasureInference.Measure

/-!
The journal of setup and inference. An event says what happened; its rendering gives a severity, a
message and fields of text in a fixed order.
-/

namespace MeasureInference

/-- A list of return slots as it is shown in texts. -/
def slotsText (slots : List UInt64) : String :=
  "[" ++ ", ".intercalate (slots.map fun slot => toString slot.toNat) ++ "]"

inductive Event where
  | registered (function : FunctionId)
  | configured (function : FunctionId) (measure : Measure) (returns : List UInt64)
  | modeSet (function : FunctionId) (mode : EvalMode)
  | tableLoaded (functions : Nat)
  | columnsResolving (columns : Nat)
  | measureResolved (function : FunctionId) (measure : Measure)
  | usageTallied (function : FunctionId) (candidates : Nat)
  deriving DecidableEq, Repr

inductive Severity where
  | debug
  | trace
  deriving DecidableEq, Repr

def Severity.name : Severity → String
  | debug => "DEBUG"
  | trace => "TRACE"

namespace Event

/-- Setup is reported for debugging, each inference only for tracing. -/
def severity : Event → Severity
  | measureResolved .. => .trace
  | usageTallied .. => .trace
  | _ => .debug

def message : Event → String
  | registered .. => "registered function"
  | configured .. => "configured function"
  | modeSet .. => "set evaluation mode"
  | tableLoaded .. => "loaded function table"
  | columnsResolving .. => "resolving computed columns"
  | measureResolved .. => "resolved measure type"
  | usageTallied .. => "tallied level usage"

def fields : Event → List (String × String)
  | registered function => [("function", function.name)]
  | configured function measure returns =>
    [("function", function.name), ("measure_type", measure.name), ("returns", slotsText returns)]
  | modeSet function mode => [("function", function.name), ("mode", mode.name)]
  | tableLoaded functions => [("functions", toString functions)]
  | columnsResolving columns => [("columns", toString columns)]
  | measureResolved function measure => [("function", function.name), ("resolved", measure.name)]
  | usageTallied function candidates =>
    [("function", function.name), ("candidates", toString candidates)]

end Event

end MeasureInference
