import MeasureInference.Catalog.Basic
import MeasureInference.Registry.Session

/-!
A session with a catalog. It takes the same commands as one with a registry and answers in the same
terms, but every command goes by the keys.
-/

namespace MeasureInference

namespace Catalog

open MeasureInference.Registry (Command Answer)

structure Session where
  catalog : Catalog
  snapshots : Snapshots Catalog

namespace Session

def start : Session := ⟨.empty, .empty⟩

/-- Answers with what is now filed under a key. -/
def thenShow (s : Session) (key : FunctionId) (changed : Observed Catalog) :
    Observed (Answer × Session) := do
  let catalog ← changed
  return (.found (catalog.find? key), { s with catalog })

/-- Answers a question that leaves the session as it is. -/
def reply (s : Session) (answer : Answer) : Observed (Answer × Session) := pure (answer, s)

/-- Answers with the outcome of something that may fail and leaves the session as it is. -/
def attempt {α : Type} (s : Session) (outcome : ExceptT Fault Observed α) (answer : α → Answer) :
    Observed (Answer × Session) := do
  match ← outcome.run with
  | .error fault => s.reply (.failed fault)
  | .ok a => s.reply (answer a)

def step (s : Session) : Command → Observed (Answer × Session)
  | .getOrCreate id => s.thenShow id (s.catalog.register id)
  | .rowWise id => s.thenShow id (s.catalog.establish id .setRowWise)
  | .columnWise id => s.thenShow id (s.catalog.establish id .setColumnWise)
  | .returns id measure slots => s.thenShow id (s.catalog.establish id (.configure measure slots))
  | .configureExisting id measure slots => do
    let (outcome, catalog) ← s.catalog.configureExisting id measure slots
    match outcome with
    | .error fault => return (.failed fault, { s with catalog })
    | .ok () => return (.found (catalog.find? id), { s with catalog })
  | .edit id edits => s.thenShow id (s.catalog.editAll id edits)
  | .get id => s.reply (.found (s.catalog.find? id))
  | .descriptor id =>
    match s.catalog.descriptor id with
    | .error fault => s.reply (.failed fault)
    | .ok d => s.reply (.found (some d))
  | .contains id => s.reply (.flag (s.catalog.contains id))
  | .size => s.reply (.size s.catalog.size s.catalog.isEmpty)
  | .list => s.reply (.listed s.catalog.toList)
  | .resolveType id args => s.attempt (s.catalog.resolveType id args) .measure
  | .resolveLevels id args output => s.attempt (s.catalog.resolveLevels id args output) .levels
  | .batch calls => s.attempt (s.catalog.batch calls) .columns
  | .fromTable text => do
    match ← (Catalog.load text).run with
    | .error fault => s.reply (.failed fault)
    | .ok catalog => return (.count catalog.size, { s with catalog })
  | .toTable => s.reply (.text s.catalog.toTable)
  | .save slot => pure (.done, { s with snapshots := s.snapshots.save slot s.catalog })
  | .restore slot => pure (.done, { s with catalog := s.snapshots.load slot })
  | .agrees slot => s.reply (.flag (s.catalog.agrees (s.snapshots.load slot)))

/-- Runs commands in order: each with its answer and its events, and the session they leave. -/
def run (s : Session) : List Command → List (Answer × List Event) × Session
  | [] => ([], s)
  | c :: commands =>
    let stepped := s.step c
    let (answers, last) := run stepped.value.2 commands
    ((stepped.value.1, stepped.events) :: answers, last)

end Session

end Catalog

end MeasureInference
