/-!
Snapshots of a value under names. A name that was never saved stands for the default value.
-/

namespace MeasureInference

structure Snapshots (α : Type) where
  saved : List (String × α)

namespace Snapshots

variable {α : Type}

def empty : Snapshots α := ⟨[]⟩

instance : Inhabited (Snapshots α) := ⟨empty⟩

/-- The latest save under a name counts. -/
def save (s : Snapshots α) (slot : String) (a : α) : Snapshots α := ⟨(slot, a) :: s.saved⟩

def load [Inhabited α] (s : Snapshots α) (slot : String) : α := (s.saved.lookup slot).getD default

section

variable [Inhabited α]

/-- Saving changes what one name stands for. -/
theorem load_save (s : Snapshots α) (slot : String) (a : α) (k : String) :
    (s.save slot a).load k = if k = slot then a else s.load k := by
  rw [load, save, List.lookup_cons]
  by_cases hk : k = slot
  · simp [hk]
  · have hbeq : (k == slot) = false := by simpa using hk
    rw [hbeq, if_neg hk]
    rfl

/-- What relates two lots of snapshots under every name still does when related values are saved
under one name. -/
theorem forall_load_save {R : α → α → Prop} {s t : Snapshots α}
    (h : ∀ k, R (s.load k) (t.load k)) (slot : String) {a b : α} (hab : R a b) (k : String) :
    R ((s.save slot a).load k) ((t.save slot b).load k) := by
  rw [load_save, load_save]
  split
  · exact hab
  · exact h k

end

end Snapshots

end MeasureInference
