import MeasureInference.Json.Typed

/-!
Records: values with named fields, written as an object in any order of the fields or as an array
in the order in which the record declares them. An object may hold members that the record does
not know; an array may end before the fields that have a default.
-/

namespace MeasureInference.Json

/-- A field of a record that is read into a draft. -/
structure Field (Draft : Type) where
  name : String
  /-- Whether a draft already has the field. -/
  given : Draft → Bool
  read : Draft → Reader Draft

/-- How a record is read. The fields that have no default come first. -/
structure Record (Draft α : Type) where
  name : String
  fields : List (Field Draft)
  blank : Draft
  /-- The record of a draft, or the first field that is missing. -/
  finish : Draft → Except Cause α

namespace Record

variable {Draft α : Type}

/-- Reads elements into the fields, in order, as long as there are both: the number of elements and
the draft. -/
def elements (taken : Nat) (draft : Draft) : List (Field Draft) → Reader (Nat × Draft)
  | [] => pure (taken, draft)
  | field :: rest => do
    if ← Reader.moreElements (taken == 0) then
      let draft ← field.read draft
      elements (taken + 1) draft rest
    else pure (taken, draft)

/-- The inside of a record in square brackets. -/
def fromElements (r : Record Draft α) : Reader (Except Cause α) := do
  let (taken, draft) ← elements 0 r.blank r.fields
  match r.finish draft with
  | .ok a => pure (.ok a)
  | .error _ => pure (.error (.wrongLength taken r.name r.fields.length))

/-- Reads one member into a draft. A field that is given twice is the verdict. -/
def member (r : Record Draft α) (draft : Draft) : Reader (Except Cause Draft) := do
  let key ← Reader.quotedText
  match r.fields.find? (·.name = key) with
  | none => do
    Reader.colon
    Reader.skipAny
    pure (.ok draft)
  | some field =>
    if field.given draft then pure (.error (.duplicateField key))
    else do
      Reader.colon
      .ok <$> field.read draft

/-- The inside of a record in curly brackets. -/
def fromMembers (r : Record Draft α) : Reader (Except Cause α) :=
  Reader.loop (fun (first, draft) => do
    if ← Reader.moreMembers first then
      match ← r.member draft with
      | .ok draft => pure (.inl (false, draft))
      | .error cause => pure (.inr (.error cause))
    else pure (.inr (r.finish draft))) (true, r.blank)

def read (r : Record Draft α) : Reader α := do
  match ← Reader.startOfValue with
  | '[' => Reader.enclosed r.fromElements Reader.closeArray
  | '{' => Reader.enclosed r.fromMembers Reader.closeObject
  | _ => Reader.refuse (.record r.name)

end Record

end MeasureInference.Json
