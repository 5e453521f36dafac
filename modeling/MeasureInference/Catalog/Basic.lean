import MeasureInference.Registry.Batch
import MeasureInference.Stored

/-!
The registry with its keys.

Each descriptor is filed under a key of its own, which is a second copy of the function's identity.
It is written once: from the name under which a function is registered, or from the row of a table
that is read. From then on everything is looked up by the key alone, while the descriptors are
edited where they lie and announce their changes under the identity that they carry themselves.
Nothing ever compares the two.
-/

namespace MeasureInference

/-- A descriptor and the key it is filed under. -/
structure Filed where
  key : FunctionId
  descriptor : Descriptor
  deriving DecidableEq, Repr

instance : Keyed Filed FunctionId := ⟨Filed.key⟩

structure Catalog where
  files : Roster Filed
  deriving DecidableEq, Repr

namespace Catalog

def empty : Catalog := ⟨.empty⟩

instance : Inhabited Catalog := ⟨empty⟩

def size (c : Catalog) : Nat := c.files.size

def isEmpty (c : Catalog) : Bool := c.files.isEmpty

/-- The descriptors, in the order in which they were filed. -/
def toList (c : Catalog) : List Descriptor := c.files.entries.map Filed.descriptor

/-- The descriptor under a key. -/
def find? (c : Catalog) (key : FunctionId) : Option Descriptor :=
  (c.files.find? key).map Filed.descriptor

def contains (c : Catalog) (key : FunctionId) : Bool := c.files.contains key

/-- Equality of the descriptors under every key, up to the order of filing. -/
def agrees (c c' : Catalog) : Bool := c.files.agrees c'.files

/-- The descriptor under a key under which there has to be one. -/
def descriptor (c : Catalog) (key : FunctionId) : Except Fault Descriptor :=
  match c.find? key with
  | some d => .ok d
  | none => .error (.unknownFunction key)

/-- Files the descriptor of a new function, unless there is something under its key. -/
def register (c : Catalog) (key : FunctionId) : Observed Catalog :=
  if c.contains key then pure c
  else do
    Observed.announce (.registered key)
    return ⟨c.files.put ⟨key, .new key⟩⟩

/-- Edits what is filed under a key. The key stays. -/
def edit (c : Catalog) (key : FunctionId) (e : Edit) : Observed Catalog :=
  match c.files.find? key with
  | none => pure c
  | some file => do
    let descriptor ← file.descriptor.edit e
    return ⟨c.files.put { file with descriptor }⟩

/-- Edits what is filed under a key in several steps. -/
def editAll (c : Catalog) (key : FunctionId) : List Edit → Observed Catalog
  | [] => pure c
  | e :: edits => do (← c.edit key e).editAll key edits

/-- Edits a function, which is registered first if need be. -/
def establish (c : Catalog) (key : FunctionId) (e : Edit) : Observed Catalog := do
  (← c.register key).edit key e

/-- Declares the measure and the return slots of a function that has to be registered. A fault
stands beside the catalog that it leaves. -/
def configureExisting (c : Catalog) (key : FunctionId) (measure : Measure) (slots : List UInt64) :
    Observed (Except Fault Unit × Catalog) :=
  if c.contains key then do
    let configured ← c.edit key (.configure measure slots)
    return (.ok (), configured)
  else return (.error (.unknownFunction key), c)

/-- The measure of a call of a registered function. -/
def resolveType (c : Catalog) (key : FunctionId) (args : List Argument) :
    ExceptT Fault Observed Measure := do
  let d ← c.descriptor key
  d.resolveType args

/-- The levels of a call of a registered function. -/
def resolveLevels (c : Catalog) (key : FunctionId) (args : List Argument) (output : List Cell) :
    ExceptT Fault Observed (List ResolvedLevel) := do
  let d ← c.descriptor key
  d.resolveLevels args output

/-- Looks up the function of a call. -/
def prepare (c : Catalog) (call : ColumnCall) : Except Fault ComputedColumn := do
  return ⟨← c.descriptor call.function, call.args, call.output⟩

/-- Resolves the calls, or fails for the first function that is not registered. -/
def batch (c : Catalog) (calls : List ColumnCall) :
    ExceptT Fault Observed (List ResolvedColumn) := do
  let columns ← (calls.mapM c.prepare : Except Fault (List ComputedColumn))
  ComputedColumn.resolveAll columns

/-- Files a row under the identity that it declares, if there is nothing under it yet. -/
def addRow (c : Catalog) (row : Descriptor) : Except Fault Catalog :=
  if c.contains row.id then .error (.duplicateFunction row.id)
  else .ok ⟨c.files.put ⟨row.id, row⟩⟩

/-- The catalog of some rows, or a fault for the first row that repeats a function of an earlier
one. -/
def ofRows (rows : List Descriptor) : Except Fault Catalog := rows.foldlM addRow empty

def ofTable (text : String) : Except Fault Catalog := do
  ofRows (← Stored.parse text)

/-- A table has the descriptors, without their keys. -/
def toTable (c : Catalog) : String := Stored.pretty c.toList

/-- Reads a function table and announces it. -/
def load (text : String) : ExceptT Fault Observed Catalog := do
  let c ← ofTable text
  Observed.announce (.tableLoaded c.size)
  return c

end Catalog

end MeasureInference
