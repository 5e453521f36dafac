import MeasureInference.Json.Quoted
import MeasureInference.Json.Value
import MeasureInference.Binary64.Text

/-!
Writing values. The compact style has no white space; the pretty style puts each element and each
member on a line of its own, two spaces deeper than its bracket. A number that is not finite has
no text and is written as null.
-/

namespace MeasureInference.Json

/-- The white space of a style: what stands in front of a part at a depth, and behind a colon. -/
structure Style where
  newLine : Nat → List Char
  space : List Char

namespace Style

def compact : Style := ⟨fun _ => [], []⟩

def pretty : Style := ⟨fun depth => '\n' :: List.replicate (2 * depth) ' ', [' ']⟩

end Style

def Number.write : Number → List Char
  | whole n => (toString n).toList
  | decimal x => if x.isFinite then x.text else ['n', 'u', 'l', 'l']

namespace Value

mutual

/-- The text of a value whose brackets stand at a depth. -/
def write (style : Style) (depth : Nat) : Value → List Char
  | null => ['n', 'u', 'l', 'l']
  | flag true => ['t', 'r', 'u', 'e']
  | flag false => ['f', 'a', 'l', 's', 'e']
  | number n => n.write
  | text s => quote s
  | array [] => ['[', ']']
  | array (item :: items) =>
    '[' :: style.newLine (depth + 1) ++ write style (depth + 1) item ++
      writeItems style depth items
  | object [] => ['{', '}']
  | object ((key, value) :: members) =>
    '{' :: style.newLine (depth + 1) ++ quote key ++ ':' :: style.space ++
      write style (depth + 1) value ++ writeMembers style depth members

/-- The further items of an array and its closing bracket. -/
def writeItems (style : Style) (depth : Nat) : List Value → List Char
  | [] => style.newLine depth ++ [']']
  | item :: items =>
    ',' :: style.newLine (depth + 1) ++ write style (depth + 1) item ++
      writeItems style depth items

/-- The further members of an object and its closing bracket. -/
def writeMembers (style : Style) (depth : Nat) : List (String × Value) → List Char
  | [] => style.newLine depth ++ ['}']
  | (key, value) :: members =>
    ',' :: style.newLine (depth + 1) ++ quote key ++ ':' :: style.space ++
      write style (depth + 1) value ++ writeMembers style depth members

end

/-- The whole text of a value. -/
def render (style : Style) (v : Value) : String := String.ofList (v.write style 0)

end Value

end MeasureInference.Json
