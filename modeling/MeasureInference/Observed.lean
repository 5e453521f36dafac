import MeasureInference.Event

/-!
A result together with what reaching it let an observer see: the looks taken at the caller's
arguments and output, and the events announced, each in order. Running one thing after another
appends what both let see.
-/

namespace MeasureInference

/-- One look at what the caller provides, an argument being named by its position. -/
inductive Look where
  | measure (argument : Nat)
  | hasLevels (argument : Nat)
  | levels (argument : Nat)
  /-- The output is read from its first cell. -/
  | start
  /-- One cell of the output is taken. -/
  | cell
  deriving DecidableEq, Repr

structure Observed (α : Type) where
  value : α
  looks : List Look
  events : List Event

namespace Observed

variable {α β : Type}

instance : Monad Observed where
  pure a := ⟨a, [], []⟩
  bind x f := ⟨(f x.value).value, x.looks ++ (f x.value).looks, x.events ++ (f x.value).events⟩

/-- Gives the answer to one look. -/
def look (l : Look) (answer : α) : Observed α := ⟨answer, [l], []⟩

def announce (e : Event) : Observed Unit := ⟨(), [], [e]⟩

/-- What somebody else does, whose looks and events the observer does not follow. -/
def unfollowed (x : Observed α) : Observed α := pure x.value

@[simp] theorem value_pure (a : α) : (pure a : Observed α).value = a := rfl

@[simp] theorem looks_pure (a : α) : (pure a : Observed α).looks = [] := rfl

@[simp] theorem events_pure (a : α) : (pure a : Observed α).events = [] := rfl

theorem bind_eq (x : Observed α) (f : α → Observed β) :
    x >>= f =
      ⟨(f x.value).value, x.looks ++ (f x.value).looks, x.events ++ (f x.value).events⟩ := rfl

@[simp] theorem value_bind (x : Observed α) (f : α → Observed β) :
    (x >>= f).value = (f x.value).value := rfl

@[simp] theorem looks_bind (x : Observed α) (f : α → Observed β) :
    (x >>= f).looks = x.looks ++ (f x.value).looks := rfl

@[simp] theorem events_bind (x : Observed α) (f : α → Observed β) :
    (x >>= f).events = x.events ++ (f x.value).events := rfl

@[simp] theorem value_map (f : α → β) (x : Observed α) : (f <$> x).value = f x.value := rfl

@[simp] theorem looks_map (f : α → β) (x : Observed α) : (f <$> x).looks = x.looks :=
  List.append_nil x.looks

@[simp] theorem events_map (f : α → β) (x : Observed α) : (f <$> x).events = x.events :=
  List.append_nil x.events

@[simp] theorem value_look (l : Look) (a : α) : (look l a).value = a := rfl

@[simp] theorem looks_look (l : Look) (a : α) : (look l a).looks = [l] := rfl

@[simp] theorem events_look (l : Look) (a : α) : (look l a).events = [] := rfl

@[simp] theorem looks_announce (e : Event) : (announce e).looks = [] := rfl

@[simp] theorem events_announce (e : Event) : (announce e).events = [e] := rfl

instance : LawfulMonad Observed :=
  LawfulMonad.mk' Observed
    (fun x => by
      show Observed.mk x.value (x.looks ++ []) (x.events ++ []) = x
      rw [List.append_nil, List.append_nil])
    (fun _ _ => rfl)
    (fun x f g => by simp only [bind_eq, List.append_assoc])

end Observed

end MeasureInference
