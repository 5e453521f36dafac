import MeasureInference.Json.Container
import MeasureInference.Json.Value

/-!
Reading any value, fully decoded. Arrays and objects may be nested in each other so many times and
no more.
-/

namespace MeasureInference.Json

/-- How many brackets may be open at once. -/
def greatestDepth : Nat := 127

namespace Reader

/-- A value with at most `depth` brackets open at once. -/
def content (depth : Nat) : Reader Value := do
  let c ← startOfValue
  match keywordOf? c with
  | some (word, found) => do
    skip
    keyword word
    match found with
    | .flag b => pure (.flag b)
    | _ => pure .null
  | none =>
    if opensNumber c then .number <$> number
    else if c = '"' then .text <$> quotedText
    else if c = '[' then
      match depth with
      | 0 => failNext .tooDeep
      | depth + 1 => .array <$> elements (content depth)
    else if c = '{' then
      match depth with
      | 0 => failNext .tooDeep
      | depth + 1 => .object <$> members (content depth)
    else failNext .noValue

end Reader

end MeasureInference.Json
