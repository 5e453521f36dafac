/-!
A roster: entries that carry a key, one entry for each key, in the order in which their keys first
arrived. Putting an entry replaces the one with the same key where it stands, or goes to the end.
Two rosters agree when each has the entries of the other; the order of arrival does not matter.
-/

namespace MeasureInference

/-- Entries that carry the key under which they are looked up. -/
class Keyed (α : Type) (κ : outParam Type) where
  key : α → κ

structure Roster (α : Type) where
  entries : List α
  deriving DecidableEq, Repr

namespace Roster

variable {α κ : Type}

def empty : Roster α := ⟨[]⟩

instance : Inhabited (Roster α) := ⟨empty⟩

def size (r : Roster α) : Nat := r.entries.length

def isEmpty (r : Roster α) : Bool := r.entries.isEmpty

section

variable [Keyed α κ] [DecidableEq κ]

def keys (r : Roster α) : List κ := r.entries.map Keyed.key

def find? (r : Roster α) (k : κ) : Option α := r.entries.find? fun a => Keyed.key a = k

def contains (r : Roster α) (k : κ) : Bool := (r.find? k).isSome

/-- Replaces the entry with the same key where it stands, or adds a new one at the end. -/
def put (r : Roster α) (a : α) : Roster α :=
  if r.contains (Keyed.key a) then
    ⟨r.entries.map fun b => if Keyed.key b = Keyed.key a then a else b⟩
  else ⟨r.entries ++ [a]⟩

/-- Adds an entry at the end, unless its key is there already. -/
def add (r : Roster α) (a : α) : Roster α :=
  if r.contains (Keyed.key a) then r else r.put a

/-- Equality up to the order of arrival. -/
def agrees [DecidableEq α] (r s : Roster α) : Bool :=
  r.size == s.size && r.entries.all fun a => s.find? (Keyed.key a) = some a

end

end Roster

end MeasureInference
