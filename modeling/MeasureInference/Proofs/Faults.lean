import Mathlib.Data.List.Forall2
import MeasureInference.Fault
import MeasureInference.Observed

/-!
The fault that a computation ends with, and what is left of a run without its idle commands.

Of several things done in order the first that fails decides the fault, so the fault of a sequence
is a search through it. Commands that leave the state as it is may be struck from a run: the
others meet the same states, answer the same, and lead to the same end.
-/

namespace MeasureInference

namespace Fault

variable {α β : Type}

/-- The fault that something ends with, if it fails. -/
def of? : Except Fault α → Option Fault
  | .error fault => some fault
  | .ok _ => none

theorem of?_eq_some {x : Except Fault α} {fault : Fault} :
    of? x = some fault ↔ x = .error fault := by
  cases x with
  | error e =>
      constructor
      · intro h
        exact congrArg Except.error (Option.some.inj h)
      · intro h
        exact congrArg some (Except.error.inj h)
  | ok a => exact ⟨nofun, nofun⟩

theorem of?_eq_none {x : Except Fault α} : of? x = none ↔ ∃ a, x = .ok a := by
  cases x with
  | error e => exact ⟨nofun, nofun⟩
  | ok a => exact ⟨fun _ => ⟨a, rfl⟩, fun _ => rfl⟩

@[simp] theorem of?_map (f : α → β) (x : Except Fault α) : of? (x.map f) = of? x := by
  cases x <;> rfl

/-- What succeeds has succeeded with both of its parts. -/
theorem exists_of_bind_eq_ok {x : Except Fault α} {f : α → Except Fault β} {b : β}
    (h : x >>= f = .ok b) : ∃ a, x = .ok a ∧ f a = .ok b := by
  cases x with
  | error fault => cases h
  | ok a => exact ⟨a, rfl, h⟩

/-- What comes behind counts only where nothing has failed before. -/
theorem of?_bind {x : Except Fault α} {f : α → Except Fault β} {behind : Option Fault}
    (h : ∀ a, of? (f a) = behind) : of? (x >>= f) = (of? x).or behind := by
  cases x with
  | error fault => rfl
  | ok a => exact h a

theorem of?_bind_pure (x : Except Fault α) (f : α → β) :
    of? (x >>= fun a => pure (f a)) = of? x := by
  cases x <;> rfl

theorem of?_mapM (f : α → Except Fault β) (as : List α) :
    of? (as.mapM f) = as.findSome? fun a => of? (f a) := by
  induction as with
  | nil => rfl
  | cons a as ih =>
      have hrest (b : β) : of? (as.mapM f >>= fun bs => pure (b :: bs)) =
          as.findSome? fun a => of? (f a) := by
        rw [of?_bind_pure, ih]
      rw [List.mapM_cons, of?_bind hrest, List.findSome?_cons]
      cases of? (f a) <;> rfl

/-- Where nothing fails, the results stand against what they are results of. -/
theorem forall₂_of_mapM_eq_ok {f : α → Except Fault β} {as : List α} {bs : List β}
    (h : as.mapM f = .ok bs) : List.Forall₂ (fun a b => f a = .ok b) as bs := by
  induction as generalizing bs with
  | nil =>
      cases h
      exact .nil
  | cons a as ih =>
      rw [List.mapM_cons] at h
      obtain ⟨b, hb, hbehind⟩ := exists_of_bind_eq_ok h
      obtain ⟨rest, hrest, hcons⟩ := exists_of_bind_eq_ok hbehind
      cases hcons
      exact .cons hb (ih hrest)

/-! ### Faults in front of what can be observed -/

/-- Something that fails for want of what has to be found first, before anything is done, and that
otherwise does one thing with what has been found. -/
def GuardedBy (x : ExceptT Fault Observed β) (found : Except Fault α) (f : α → Observed β) : Prop :=
  x.run =
    match found with
    | .error fault => pure (.error fault)
    | .ok a => Except.ok <$> f a

theorem guardedBy_bind (found : Except Fault α) (f : α → Observed β) :
    GuardedBy (do let a ← found; f a) found f := by
  unfold GuardedBy
  cases found <;> rfl

namespace GuardedBy

variable {x : ExceptT Fault Observed β} {found : Except Fault α} {f : α → Observed β}

theorem run_of_error (h : GuardedBy x found f) {fault : Fault} (hfound : found = .error fault) :
    x.run = pure (.error fault) := by
  rw [h, hfound]

theorem run_of_ok (h : GuardedBy x found f) {a : α} (hfound : found = .ok a) :
    x.run = Except.ok <$> f a := by
  rw [h, hfound]

theorem of?_value (h : GuardedBy x found f) : of? x.run.value = of? found := by
  rw [h]
  cases found <;> rfl

end GuardedBy

end Fault

/-! ### Idle commands -/

section Striking

variable {σ γ α : Type}

/-- A run that does commands one by one, with an answer to each. -/
structure OneByOne (next : σ → γ → σ) (answer : σ → γ → α)
    (run : σ → List γ → List α × σ) : Prop where
  nil (s : σ) : run s [] = ([], s)
  cons (s : σ) (c : γ) (commands : List γ) :
    run s (c :: commands) =
      (answer s c :: (run (next s c) commands).1, (run (next s c) commands).2)

/-- Strikes the commands that are idle in the state in which their turn comes. -/
def strike (next : σ → γ → σ) (idle : σ → γ → Bool) (s : σ) : List γ → List γ
  | [] => []
  | c :: commands =>
    if idle s c then strike next idle s commands
    else c :: strike next idle (next s c) commands

variable {next : σ → γ → σ} {answer : σ → γ → α} {run : σ → List γ → List α × σ}

/-- Striking commands that change nothing takes their answers away and does nothing else. -/
theorem OneByOne.run_strike (h : OneByOne next answer run) {idle : σ → γ → Bool}
    (hidle : ∀ s c, idle s c = true → next s c = s) (s : σ) (commands : List γ) :
    (run s (strike next idle s commands)).2 = (run s commands).2 ∧
      (run s (strike next idle s commands)).1.Sublist (run s commands).1 := by
  induction commands generalizing s with
  | nil => exact ⟨rfl, .refl _⟩
  | cons c commands ih =>
      rw [strike, h.cons s c commands]
      by_cases hc : idle s c = true
      · rw [if_pos hc, hidle s c hc]
        obtain ⟨hlast, hanswers⟩ := ih s
        exact ⟨hlast, hanswers.cons _⟩
      · rw [if_neg hc, h.cons]
        obtain ⟨hlast, hanswers⟩ := ih (next s c)
        exact ⟨hlast, hanswers.cons_cons _⟩

/-- What is left answers as commands do that are not idle. -/
theorem OneByOne.forall_mem_run_strike (h : OneByOne next answer run) {idle : σ → γ → Bool}
    {p : α → Prop} (hp : ∀ s c, idle s c = false → p (answer s c)) (s : σ) (commands : List γ) :
    ∀ a ∈ (run s (strike next idle s commands)).1, p a := by
  induction commands generalizing s with
  | nil =>
      rw [strike, h.nil]
      exact List.forall_mem_nil p
  | cons c commands ih =>
      rw [strike]
      by_cases hc : idle s c = true
      · rw [if_pos hc]
        exact ih s
      · rw [if_neg hc, h.cons]
        exact List.forall_mem_cons.mpr ⟨hp s c (Bool.eq_false_iff.mpr hc), ih (next s c)⟩

end Striking

end MeasureInference
