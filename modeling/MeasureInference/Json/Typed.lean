import MeasureInference.Json.Container

/-!
Reading values of a known kind. A value of another kind is refused by what stands there; a number
or a text is read to its end first, an array or an object is not entered.
-/

namespace MeasureInference.Json

/-- A range of whole numbers, with the name that messages give it. -/
structure WholeRange where
  name : String
  least : Int
  greatest : Int

namespace Reader

variable {α : Type}

/-- What stands in the text. -/
def found : Reader Found := do
  match ← peek with
  | none => failNext .noValue
  | some c =>
    match keywordOf? c with
    | some (word, found) => skip; keyword word; pure found
    | none =>
      if opensNumber c then
        match ← number with
        | .whole n => pure (.whole n)
        | .decimal x => pure (.decimal x)
      else if c = '"' then .text <$> quotedText
      else if c = '[' then pure .array
      else if c = '{' then pure .object
      else failNext .noValue

/-- Refuses what stands in the text. -/
def refuse (expected : Expected) : Reader α := do
  let found ← found
  failHere (.wrongKind found expected)

def text : Reader String := do
  if (← startOfValue) = '"' then quotedText else refuse .text

/-- A whole number of a range. -/
def whole (range : WholeRange) : Reader Int := do
  if opensNumber (← startOfValue) then
    match ← number with
    | .whole n =>
      if range.least ≤ n ∧ n ≤ range.greatest then pure n
      else failHere (.wrongWhole n range.name)
    | .decimal x => failHere (.wrongKind (.decimal x) (.whole range.name))
  else refuse (.whole range.name)

def null : Reader Unit := do
  if (← startOfValue) = 'n' then do
    skip
    keyword ['u', 'l', 'l']
  else refuse .null

def arrayOf (element : Reader α) : Reader (List α) := do
  if (← startOfValue) = '[' then elements element else refuse .array

/-- The value that a name stands for. -/
def lookUp (names : List (String × α)) (name : String) : Reader α :=
  match names.lookup name with
  | some a => pure a
  | none => failHere (.unknownName name (names.map (·.1)))

/-- What follows the name of an object with one member, whose value is null. -/
def closeNamed : Reader Unit := do
  colon
  null
  match ← peekToken with
  | none => failHere .endInObject
  | some '}' => skip
  | some _ => failHere .noValue

/-- One of some names, as a text or as the key of an object with one member, whose value is null. -/
def named (names : List (String × α)) : Reader α := do
  match ← startOfValue with
  | '"' => lookUp names (← quotedText)
  | '{' =>
    skip
    match ← peekToken with
    | none => failNext .endInObject
    | some '}' => failNext .noValue
    | some '"' =>
      let a ← lookUp names (← quotedText)
      closeNamed
      pure a
    | some _ => failNext .keyNotText
  | _ => failNext .noValue

end Reader

end MeasureInference.Json
