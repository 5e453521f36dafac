import MeasureInference.Binary64.Basic

/-!
A single value that a function produces. Only the text of a text cell can be a label.
-/

namespace MeasureInference

inductive Cell where
  | missing
  | integer (value : Int64)
  | decimal (value : Binary64)
  | text (value : String)
  deriving DecidableEq, Repr

namespace Cell

instance : Inhabited Cell := ⟨missing⟩

def asText? : Cell → Option String
  | text s => some s
  | _ => none

def isMissing : Cell → Bool
  | missing => true
  | _ => false

/-- Equality of values. Decimals compare as numbers, and never with integers. -/
def sameValue : Cell → Cell → Bool
  | missing, missing => true
  | integer m, integer n => m == n
  | decimal x, decimal y => x.sameNumber y
  | text s, text t => s == t
  | _, _ => false

/-- The cell of a text that may be absent. -/
def ofText? : Option String → Cell
  | some s => text s
  | none => missing

end Cell

end MeasureInference
