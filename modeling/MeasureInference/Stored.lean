import MeasureInference.Cell
import MeasureInference.Descriptor
import MeasureInference.Fault
import MeasureInference.Json.Content
import MeasureInference.Json.Record
import MeasureInference.Json.Writer
import MeasureInference.Level

/-!
The stored forms of the library's values. Every value is written in one form, all fields present;
when it is read back, fields that have a default may be left out and fields that are not known are
left aside.
-/

namespace MeasureInference

open Json (Reader Record Value Cause WholeRange)

/-- Values that have a stored form. -/
class Stored (α : Type) where
  /-- Reads a value. A cause without a place is one that the whole text is at fault for. -/
  reader : Reader (Except Cause α)
  toValue : α → Value

namespace Stored

variable {α : Type} [Stored α]

def parse (text : String) : Except Fault α :=
  match Reader.document reader text with
  | .ok a => .ok a
  | .error why => .error (.malformed why)

def compact (a : α) : String := (toValue a).render .compact

def pretty (a : α) : String := (toValue a).render .pretty

end Stored

def Measure.reader : Reader Measure := Reader.named (Measure.all.map fun m => (m.name, m))

def Measure.toValue (m : Measure) : Value := .text m.name

instance : Stored Measure := ⟨.ok <$> Measure.reader, Measure.toValue⟩

def EvalMode.reader : Reader EvalMode := Reader.named (EvalMode.all.map fun m => (m.name, m))

def EvalMode.toValue (m : EvalMode) : Value := .text m.name

instance : Stored EvalMode := ⟨.ok <$> EvalMode.reader, EvalMode.toValue⟩

def FunctionId.reader : Reader FunctionId := FunctionId.mk <$> Reader.text

def FunctionId.toValue (f : FunctionId) : Value := .text f.name

instance : Stored FunctionId := ⟨.ok <$> FunctionId.reader, FunctionId.toValue⟩

namespace Level

/-- The codes of levels. -/
def codeRange : WholeRange := ⟨"i32", Int32.minValue.toInt, Int32.maxValue.toInt⟩

structure Draft where
  value? : Option Int32
  label? : Option String

def record : Record Draft Level where
  name := "Level"
  fields := [
    ⟨"value", (·.value?.isSome), fun draft => do
      let n ← Reader.whole codeRange
      return { draft with value? := some (Int32.ofInt n) }⟩,
    ⟨"label", (·.label?.isSome), fun draft => do
      let s ← Reader.text
      return { draft with label? := some s }⟩]
  blank := ⟨none, none⟩
  finish := fun
    | ⟨some value, some label⟩ => .ok ⟨value, label⟩
    | ⟨none, _⟩ => .error (.missingField "value")
    | ⟨some _, none⟩ => .error (.missingField "label")

def toValue (l : Level) : Value :=
  .object [("value", .number (.whole l.value.toInt)), ("label", .text l.label)]

end Level

instance : Stored Level := ⟨.ok <$> Level.record.read, Level.toValue⟩

namespace Descriptor

/-- The positions of arguments. -/
def slotRange : WholeRange := ⟨"usize", 0, UInt64.size - 1⟩

def slotReader : Reader UInt64 := do
  let n ← Reader.whole slotRange
  return UInt64.ofNat n.toNat

structure Draft where
  id? : Option FunctionId
  measure? : Option Measure
  returns? : Option (List UInt64)
  mode? : Option EvalMode

def record : Record Draft Descriptor where
  name := "FunctionDescriptor"
  fields := [
    ⟨"id", (·.id?.isSome), fun draft => do
      let f ← FunctionId.reader
      return { draft with id? := some f }⟩,
    ⟨"measure_type", (·.measure?.isSome), fun draft => do
      let m ← Measure.reader
      return { draft with measure? := some m }⟩,
    ⟨"returns", (·.returns?.isSome), fun draft => do
      let slots ← Reader.arrayOf slotReader
      return { draft with returns? := some slots }⟩,
    ⟨"mode", (·.mode?.isSome), fun draft => do
      let m ← EvalMode.reader
      return { draft with mode? := some m }⟩]
  blank := ⟨none, none, none, none⟩
  finish := fun draft =>
    match draft.id? with
    | some id =>
      .ok ⟨id, draft.measure?.getD default, draft.returns?.getD [], draft.mode?.getD default⟩
    | none => .error (.missingField "id")

def toValue (d : Descriptor) : Value :=
  .object [
    ("id", d.id.toValue),
    ("measure_type", d.measure.toValue),
    ("returns", .array (d.returns.map fun slot => .number (.whole slot.toNat))),
    ("mode", d.mode.toValue)]

end Descriptor

instance : Stored Descriptor := ⟨.ok <$> Descriptor.record.read, Descriptor.toValue⟩

/-- A function table: an array of descriptors. -/
instance : Stored (List Descriptor) :=
  ⟨.ok <$> Reader.arrayOf Descriptor.record.read, fun rows => .array (rows.map Descriptor.toValue)⟩

namespace Cell

/-- The cell that a value stands for. A whole number beyond sixty-four signed bits becomes the
nearest decimal. -/
def ofValue : Value → Except Cause Cell
  | .null => .ok missing
  | .text s => .ok (text s)
  | .number (.whole n) =>
    if Int64.minValue.toInt ≤ n ∧ n ≤ Int64.maxValue.toInt then .ok (integer (Int64.ofInt n))
    else .ok (decimal (Binary64.ofRatio (n < 0) n.natAbs 1))
  | .number (.decimal x) => .ok (decimal x)
  | _ => .error (.noVariant "CellValue")

def toValue : Cell → Value
  | missing => .null
  | integer n => .number (.whole n.toInt)
  | decimal x => .number (.decimal x)
  | text s => .text s

end Cell

instance : Stored Cell := ⟨Cell.ofValue <$> Reader.content Json.greatestDepth, Cell.toValue⟩

end MeasureInference
