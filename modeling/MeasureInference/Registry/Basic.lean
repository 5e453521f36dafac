import MeasureInference.Resolution
import MeasureInference.Fault
import MeasureInference.Roster.Basic

/-!
The registry of functions: one descriptor for each function, in the order of registration. Some
operations register a function they do not find; the strict ones fail instead, before they change
or announce anything.
-/

namespace MeasureInference

instance : Keyed Descriptor FunctionId := ⟨Descriptor.id⟩

structure Registry where
  functions : Roster Descriptor
  deriving DecidableEq, Repr

namespace Registry

def empty : Registry := ⟨.empty⟩

instance : Inhabited Registry := ⟨empty⟩

def size (r : Registry) : Nat := r.functions.size

def isEmpty (r : Registry) : Bool := r.functions.isEmpty

/-- The descriptors, in the order of registration. -/
def toList (r : Registry) : List Descriptor := r.functions.entries

def find? (r : Registry) (id : FunctionId) : Option Descriptor := r.functions.find? id

def contains (r : Registry) (id : FunctionId) : Bool := r.functions.contains id

/-- Equality up to the order of registration. -/
def agrees (r s : Registry) : Bool := r.functions.agrees s.functions

/-- The descriptor of a function that has to be registered. -/
def descriptor (r : Registry) (id : FunctionId) : Except Fault Descriptor :=
  match r.find? id with
  | some d => .ok d
  | none => .error (.unknownFunction id)

/-- Registers a function, unless it is registered already. -/
def register (r : Registry) (id : FunctionId) : Observed Registry :=
  if r.contains id then pure r
  else do
    Observed.announce (.registered id)
    return ⟨r.functions.put (.new id)⟩

/-- Edits a registered function. An unregistered one stays so. -/
def edit (r : Registry) (id : FunctionId) (e : Edit) : Observed Registry :=
  match r.find? id with
  | none => pure r
  | some d => do
    let d ← d.edit e
    return ⟨r.functions.put d⟩

/-- Edits a function in several steps. -/
def editAll (r : Registry) (id : FunctionId) : List Edit → Observed Registry
  | [] => pure r
  | e :: edits => do (← r.edit id e).editAll id edits

/-- Edits a function, which is registered first if need be. -/
def establish (r : Registry) (id : FunctionId) (e : Edit) : Observed Registry := do
  (← r.register id).edit id e

/-- Declares the measure and the return slots of a function. -/
def returns (r : Registry) (id : FunctionId) (measure : Measure) (slots : List UInt64) :
    Observed Registry :=
  r.establish id (.configure measure slots)

def rowWise (r : Registry) (id : FunctionId) : Observed Registry := r.establish id .setRowWise

def columnWise (r : Registry) (id : FunctionId) : Observed Registry :=
  r.establish id .setColumnWise

/-- Declares the measure and the return slots of a function that has to be registered. A fault
stands beside the registry that it leaves. -/
def configureExisting (r : Registry) (id : FunctionId) (measure : Measure) (slots : List UInt64) :
    Observed (Except Fault Unit × Registry) :=
  if r.contains id then do
    let configured ← r.edit id (.configure measure slots)
    return (.ok (), configured)
  else return (.error (.unknownFunction id), r)

/-- The measure of a call of a registered function. -/
def resolveType (r : Registry) (id : FunctionId) (args : List Argument) :
    ExceptT Fault Observed Measure := do
  let d ← r.descriptor id
  d.resolveType args

/-- The levels of a call of a registered function. -/
def resolveLevels (r : Registry) (id : FunctionId) (args : List Argument) (output : List Cell) :
    ExceptT Fault Observed (List ResolvedLevel) := do
  let d ← r.descriptor id
  d.resolveLevels args output

end Registry

end MeasureInference
