import MeasureInference.Registry.Batch
import MeasureInference.Registry.Table
import MeasureInference.Snapshots

/-!
A session with a registry: commands, their answers, and the state they leave. The session keeps
snapshots of its registry under names.
-/

namespace MeasureInference

namespace Registry

inductive Command where
  | getOrCreate (id : FunctionId)
  | rowWise (id : FunctionId)
  | columnWise (id : FunctionId)
  | returns (id : FunctionId) (measure : Measure) (slots : List UInt64)
  | configureExisting (id : FunctionId) (measure : Measure) (slots : List UInt64)
  | edit (id : FunctionId) (edits : List Edit)
  | get (id : FunctionId)
  | descriptor (id : FunctionId)
  | contains (id : FunctionId)
  | size
  | list
  | resolveType (id : FunctionId) (args : List Argument)
  | resolveLevels (id : FunctionId) (args : List Argument) (output : List Cell)
  | batch (calls : List ColumnCall)
  | fromTable (text : String)
  | toTable
  | save (slot : String)
  | restore (slot : String)
  | agrees (slot : String)

inductive Answer where
  | done
  | flag (value : Bool)
  | count (value : Nat)
  | size (value : Nat) (isEmpty : Bool)
  | text (value : String)
  | found (descriptor : Option Descriptor)
  | listed (descriptors : List Descriptor)
  | measure (measure : Measure)
  | levels (levels : List ResolvedLevel)
  | columns (columns : List ResolvedColumn)
  | failed (fault : Fault)
  deriving DecidableEq, Repr

structure Session where
  registry : Registry
  snapshots : Snapshots Registry

namespace Session

def start : Session := ⟨.empty, .empty⟩

/-- Answers with what is now registered for a function. -/
def thenShow (s : Session) (id : FunctionId) (changed : Observed Registry) :
    Observed (Answer × Session) := do
  let registry ← changed
  return (.found (registry.find? id), { s with registry })

/-- Answers a question that leaves the session as it is. -/
def reply (s : Session) (answer : Answer) : Observed (Answer × Session) := pure (answer, s)

/-- Answers with the outcome of something that may fail and leaves the session as it is. -/
def attempt {α : Type} (s : Session) (outcome : ExceptT Fault Observed α) (answer : α → Answer) :
    Observed (Answer × Session) := do
  match ← outcome.run with
  | .error fault => s.reply (.failed fault)
  | .ok a => s.reply (answer a)

def step (s : Session) : Command → Observed (Answer × Session)
  | .getOrCreate id => s.thenShow id (s.registry.register id)
  | .rowWise id => s.thenShow id (s.registry.rowWise id)
  | .columnWise id => s.thenShow id (s.registry.columnWise id)
  | .returns id measure slots => s.thenShow id (s.registry.returns id measure slots)
  | .configureExisting id measure slots => do
    let (outcome, registry) ← s.registry.configureExisting id measure slots
    match outcome with
    | .error fault => return (.failed fault, { s with registry })
    | .ok () => return (.found (registry.find? id), { s with registry })
  | .edit id edits => s.thenShow id (s.registry.editAll id edits)
  | .get id => s.reply (.found (s.registry.find? id))
  | .descriptor id =>
    match s.registry.descriptor id with
    | .error fault => s.reply (.failed fault)
    | .ok d => s.reply (.found (some d))
  | .contains id => s.reply (.flag (s.registry.contains id))
  | .size => s.reply (.size s.registry.size s.registry.isEmpty)
  | .list => s.reply (.listed s.registry.toList)
  | .resolveType id args => s.attempt (s.registry.resolveType id args) .measure
  | .resolveLevels id args output => s.attempt (s.registry.resolveLevels id args output) .levels
  | .batch calls => s.attempt (s.registry.batch calls) .columns
  | .fromTable text => do
    match ← (Registry.load text).run with
    | .error fault => s.reply (.failed fault)
    | .ok registry => return (.count registry.size, { s with registry })
  | .toTable => s.reply (.text s.registry.toTable)
  | .save slot => pure (.done, { s with snapshots := s.snapshots.save slot s.registry })
  | .restore slot => pure (.done, { s with registry := s.snapshots.load slot })
  | .agrees slot => s.reply (.flag (s.registry.agrees (s.snapshots.load slot)))

/-- Runs commands in order: each with its answer and its events, and the session they leave. -/
def run (s : Session) : List Command → List (Answer × List Event) × Session
  | [] => ([], s)
  | c :: commands =>
    let stepped := s.step c
    let (answers, last) := run stepped.value.2 commands
    ((stepped.value.1, stepped.events) :: answers, last)

end Session

end Registry

end MeasureInference
