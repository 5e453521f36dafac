import MeasureInference.Binary64.Basic

/-!
JSON values. A number is whole or a decimal; the two never mix, because which of them a text
holds is decided by how the number is written. Objects keep their members in order.
-/

namespace MeasureInference.Json

inductive Number where
  | whole (value : Int)
  | decimal (value : Binary64)
  deriving DecidableEq, Repr

inductive Value where
  | null
  | flag (value : Bool)
  | number (value : Number)
  | text (value : String)
  | array (items : List Value)
  | object (members : List (String × Value))

end MeasureInference.Json
