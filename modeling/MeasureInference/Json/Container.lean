import MeasureInference.Json.Skip

/-!
Arrays and objects. What is inside either fails at a place, or ends with a verdict: a result, or a
cause that has no place yet. The closing bracket is looked for under either verdict, and a cause
without a place gets the one that this search has reached.
-/

namespace MeasureInference.Json.Reader

variable {α : Type}

/-- Takes the closing bracket of an array, or says why it is not there. -/
def closeArray : Reader (Option Failure) := do
  match ← peekToken with
  | some ']' => skip; pure none
  | some ',' =>
    skip
    let cause := if (← peekToken) = some ']' then Cause.trailingComma else .trailingCharacters
    return some (.next cause (← get))
  | some _ => return some (.next .trailingCharacters (← get))
  | none => return some (.next .endInArray (← get))

/-- Takes the closing bracket of an object, or says why it is not there. -/
def closeObject : Reader (Option Failure) := do
  match ← peekToken with
  | some '}' => skip; pure none
  | some ',' => return some (.next .trailingComma (← get))
  | some _ => return some (.next .trailingCharacters (← get))
  | none => return some (.next .endInObject (← get))

/-- A body between brackets, the opening one being next. -/
def enclosed (body : Reader (Except Cause α)) (close : Reader (Option Failure)) : Reader α := do
  skip
  let verdict ← body
  let missing? ← close
  match verdict, missing? with
  | .error cause, _ => failHere cause
  | .ok _, some failure => throw failure
  | .ok a, none => pure a

/-- Whether an array has one more element, which is then next. -/
def moreElements (first : Bool) : Reader Bool := do
  match ← peekToken with
  | none => failNext .endInArray
  | some c =>
    if c = ']' then pure false
    else if first then pure true
    else if c = ',' then do
      skip
      match ← peekToken with
      | none => failNext .endInValue
      | some ']' => failNext .trailingComma
      | some _ => pure true
    else failNext .noCommaOrBracket

/-- What follows where a key has to stand. -/
def keyNext : Option Char → Reader Bool
  | some '"' => pure true
  | _ => failNext .keyNotText

/-- Whether an object has one more member, whose key is then next. -/
def moreMembers (first : Bool) : Reader Bool := do
  match ← peekToken with
  | none => failNext .endInObject
  | some c =>
    if c = '}' then pure false
    else if first then keyNext (some c)
    else if c = ',' then do
      skip
      match ← peekToken with
      | none => failNext .endInValue
      | some '}' => failNext .trailingComma
      | some c => keyNext (some c)
    else failNext .noCommaOrBrace

/-- The elements between square brackets. -/
def elements (element : Reader α) : Reader (List α) :=
  enclosed
    (loop (fun read : List α => do
      if ← moreElements read.isEmpty then return .inl ((← element) :: read)
      else return .inr (.ok read.reverse)) [])
    closeArray

/-- The members between curly brackets. -/
def members (value : Reader α) : Reader (List (String × α)) :=
  enclosed
    (loop (fun read : List (String × α) => do
      if ← moreMembers read.isEmpty then
        let key ← quotedText
        colon
        return .inl ((key, ← value) :: read)
      else return .inr (.ok read.reverse)) [])
    closeObject

end MeasureInference.Json.Reader
