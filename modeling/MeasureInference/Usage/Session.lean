import MeasureInference.Snapshots
import MeasureInference.Usage.Basic

/-!
A session with a label count: commands, their answers, and the state they leave.
-/

namespace MeasureInference.Usage

inductive Command where
  | add (label : String)
  | record (cell : Cell)
  | tally (cells : List Cell)
  | count (label : String)
  | used
  | save (slot : String)
  | restore (slot : String)
  | agrees (slot : String)

inductive Answer where
  | done
  | flag (value : Bool)
  | count (value : Option Nat)
  | levels (levels : List ResolvedLevel)
  deriving DecidableEq, Repr

structure Session where
  usage : Usage
  snapshots : Snapshots Usage

namespace Session

def start : Session := ⟨.empty, .empty⟩

def step (s : Session) : Command → Answer × Session
  | .add label => (.done, { s with usage := s.usage.addCandidate label })
  | .record cell => (.flag (s.usage.matchesCell cell), { s with usage := s.usage.record cell })
  | .tally cells => (.done, { s with usage := (s.usage.tally cells).value })
  | .count label => (.count (s.usage.count? label), s)
  | .used => (.levels s.usage.usedLevels, s)
  | .save slot => (.done, { s with snapshots := s.snapshots.save slot s.usage })
  | .restore slot => (.done, { s with usage := s.snapshots.load slot })
  | .agrees slot => (.flag (s.usage.agrees (s.snapshots.load slot)), s)

/-- Runs commands in order: each answer with the state behind it. -/
def run (s : Session) : List Command → List (Answer × Usage)
  | [] => []
  | c :: commands =>
    let stepped := s.step c
    (stepped.1, stepped.2.usage) :: run stepped.2 commands

end Session

end MeasureInference.Usage
