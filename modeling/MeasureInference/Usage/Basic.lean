import MeasureInference.Cell
import MeasureInference.Observed
import MeasureInference.Roster.Basic

/-!
How often each candidate label occurs in an output. Candidates keep the order in which they were
first added, and a label counts only from then on.
-/

namespace MeasureInference

structure Tally where
  label : String
  count : Nat
  deriving DecidableEq, Repr

instance : Keyed Tally String := ⟨Tally.label⟩

/-- A level of a computed column: its code and the text shown for it. -/
structure ResolvedLevel where
  code : String
  label : String
  deriving DecidableEq, Repr

/-- Of a text column the label itself is the code. -/
def ResolvedLevel.ofLabel (label : String) : ResolvedLevel := ⟨label, label⟩

structure Usage where
  tallies : Roster Tally
  deriving DecidableEq, Repr

namespace Usage

def empty : Usage := ⟨.empty⟩

instance : Inhabited Usage := ⟨empty⟩

/-- Adds a candidate label. One that is there already keeps its place and its count. -/
def addCandidate (u : Usage) (label : String) : Usage := ⟨u.tallies.add ⟨label, 0⟩⟩

/-- Counts a cell if its text is a candidate. -/
def record (u : Usage) (cell : Cell) : Usage :=
  match cell.asText?.bind u.tallies.find? with
  | some tally => ⟨u.tallies.put { tally with count := tally.count + 1 }⟩
  | none => u

/-- Whether a cell is one that counts. -/
def matchesCell (u : Usage) (cell : Cell) : Bool := (cell.asText?.bind u.tallies.find?).isSome

/-- Counts cells as they are taken from an output, one after the other. -/
def recordAll (u : Usage) : List Cell → Observed Usage
  | [] => pure u
  | cell :: cells => do (u.record (← Observed.look .cell cell)).recordAll cells

/-- Counts every cell of an output, which is read once from its first cell. -/
def tally (u : Usage) (output : List Cell) : Observed Usage := do
  Observed.look .start ()
  u.recordAll output

def size (u : Usage) : Nat := u.tallies.size

def isEmpty (u : Usage) : Bool := u.tallies.isEmpty

def count? (u : Usage) (label : String) : Option Nat := (u.tallies.find? label).map Tally.count

/-- The candidates with their counts, in the order in which they were added. -/
def counts (u : Usage) : List Tally := u.tallies.entries

/-- The candidates that occurred. -/
def usedLevels (u : Usage) : List ResolvedLevel :=
  (u.counts.filter fun tally => 0 < tally.count).map fun tally => .ofLabel tally.label

/-- Equality up to the order of the candidates. -/
def agrees (u v : Usage) : Bool := u.tallies.agrees v.tallies

end Usage

end MeasureInference
