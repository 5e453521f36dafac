import MeasureInference.Text.Blank

/-!
The statistical classification of a column, with its one written name and the free spellings
under which it may be asked for.
-/

namespace MeasureInference

inductive Measure where
  /-- Numbers on a continuous scale. -/
  | continuous
  /-- Coded categories with a meaningful order. -/
  | ordinal
  /-- Coded categories without an order. -/
  | nominal
  /-- Categories whose values are the labels themselves. -/
  | nominalText
  deriving DecidableEq, Repr

namespace Measure

instance : Inhabited Measure := ⟨continuous⟩

def name : Measure → String
  | continuous => "continuous"
  | ordinal => "ordinal"
  | nominal => "nominal"
  | nominalText => "nominal_text"

/-- Every measure, in the order in which a list of names offers them. -/
def all : List Measure := [continuous, ordinal, nominal, nominalText]

/-- The measure of a trimmed word in small letters; the separator of the last name may be left out. -/
def ofWord? : String → Option Measure
  | "continuous" => some continuous
  | "ordinal" => some ordinal
  | "nominal" => some nominal
  | "nominal_text" => some nominalText
  | "nominaltext" => some nominalText
  | _ => none

/-- The measure of a free spelling. -/
def ofText? (s : String) : Option Measure := ofWord? (Text.word s)

end Measure

end MeasureInference
