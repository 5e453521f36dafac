import MeasureInference.Host
import MeasureInference.Proofs.Registry.Faults

/-!
Calls of an embedding program that are refused.

A call may fail for a spelling that stands for no measure and for a function that is not registered.
Spellings come first, from left to right, and only then the function is looked up, which both kinds
of resolution do in the same way. Nothing has happened to the registry by then: the spelling of a
declaration is read before its function is registered.
-/

namespace MeasureInference

/-- The fault of a text as the spelling of a measure. -/
def misspelled? (spelling : String) : Option Fault :=
  if (Measure.ofText? spelling).isSome then none else some (.unknownMeasure spelling)

@[simp] theorem fault_parse_measure (spelling : String) :
    Fault.of? (Measure.parse spelling) = misspelled? spelling := by
  rw [Measure.parse, misspelled?]
  cases Measure.ofText? spelling <;> rfl

namespace Host

/-- The fault of a call of a function by name, its arguments being given by spellings. -/
def callFault? (r : Registry) (name : String) (spellings : List String) : Option Fault :=
  (spellings.findSome? misspelled?).or (r.unknown? ⟨name⟩)

/-- The fault that a registry answers a command with, if it refuses it. -/
def Command.fault? (r : Registry) : Command → Option Fault
  | returns _ measure _ => misspelled? measure
  | isRowWise name | isColumnWise name | describe name => r.unknown? ⟨name⟩
  | resolveType name measures => callFault? r name measures
  | resolveLevels name args _ => callFault? r name (args.map Prod.fst)
  | fromTable text => Registry.tableFault? text
  | _ => none

/-- Whether a command only asks. -/
def Command.asks : Command → Bool
  | version | isRowWise _ | isColumnWise _ | describe _ | resolveType .. | resolveLevels .. => true
  | toTable | size | contains _ => true
  | _ => false

/-- Whether a command has no effect on a registry. -/
def Command.idle (r : Registry) (c : Command) : Bool := c.asks || (c.fault? r).isSome

/-! ### Single calls -/

theorem fault_columns (position : Nat) (args : List (String × List String)) :
    Fault.of? (columns position args) = (args.map Prod.fst).findSome? misspelled? := by
  induction args generalizing position with
  | nil => rfl
  | cons arg args ih =>
      have hcolumn : Fault.of? (column position arg.1 arg.2) = misspelled? arg.1 := by
        rw [column, Fault.of?_bind_pure, fault_parse_measure]
      have hrest (first : Column) :
          Fault.of? (columns (position + 1) args >>= fun rest => pure (first :: rest)) =
            (args.map Prod.fst).findSome? misspelled? := by
        rw [Fault.of?_bind_pure, ih]
      rw [columns, Fault.of?_bind hrest, hcolumn, List.map_cons, List.findSome?_cons]
      cases misspelled? arg.1 <;> rfl

theorem fault_resolveType (r : Registry) (name : String) (measures : List String) :
    Fault.of? (resolveType r name measures) = callFault? r name measures := by
  have hlookup (ms : List Measure) :
      Fault.of? ((r.resolveType ⟨name⟩ (ms.map Argument.ofMeasure)).run.value >>= fun m =>
        pure m.name) = r.unknown? ⟨name⟩ := by
    rw [Fault.of?_bind_pure, Registry.fault_resolveType]
  rw [resolveType, Fault.of?_bind hlookup, Fault.of?_mapM, callFault?]
  simp only [fault_parse_measure]

theorem fault_resolveLevels (r : Registry) (name : String) (args : List (String × List String))
    (values : List (Option String)) :
    Fault.of? (resolveLevels r name args values) = callFault? r name (args.map Prod.fst) := by
  have hlookup (cs : List Column) :
      Fault.of? (r.resolveLevels ⟨name⟩ (cs.map Column.argument)
        (values.map Cell.ofText?)).run.value = r.unknown? ⟨name⟩ :=
    Registry.fault_resolveLevels ..
  rw [resolveLevels, Fault.of?_bind hlookup, fault_columns, callFault?]

theorem fault_step (r : Registry) (c : Command) : Fault.of? (step r c).2 = c.fault? r := by
  cases c with
  | returns name measure slots =>
      dsimp only [step, Command.fault?]
      rw [← fault_parse_measure]
      cases Measure.parse measure <;> rfl
  | isRowWise name | isColumnWise name | describe name =>
      exact (Fault.of?_map _ _).trans (Registry.fault_descriptor r ⟨name⟩)
  | resolveType name measures =>
      exact (Fault.of?_map _ _).trans (fault_resolveType r name measures)
  | resolveLevels name args values =>
      exact (Fault.of?_map _ _).trans (fault_resolveLevels r name args values)
  | fromTable text =>
      dsimp only [step, Command.fault?]
      rw [← Registry.fault_ofTable]
      cases Registry.ofTable text <;> rfl
  | version | fresh | rowWise | columnWise | toTable | size | contains => rfl

theorem registry_step_of_asks {c : Command} (h : c.asks = true) (r : Registry) :
    (step r c).1 = r := by
  cases c with
  | fresh | returns | rowWise | columnWise | fromTable => cases h
  | _ => rfl

theorem registry_step_of_fault {r : Registry} {c : Command} {fault : Fault}
    (h : c.fault? r = some fault) : (step r c).1 = r := by
  cases c with
  | returns name measure slots =>
      dsimp only [step]
      rw [Fault.of?_eq_some.mp ((fault_parse_measure measure).trans h)]
  | fromTable text =>
      dsimp only [step]
      rw [Fault.of?_eq_some.mp ((Registry.fault_ofTable text).trans h)]
  | fresh | rowWise | columnWise => cases h
  | version | isRowWise | isColumnWise | describe | resolveType | resolveLevels => rfl
  | toTable | size | contains => rfl

/-- An idle command leaves the registry as it is. -/
theorem registry_step_of_idle {r : Registry} {c : Command} (h : c.idle r = true) :
    (step r c).1 = r := by
  rw [Command.idle, Bool.or_eq_true] at h
  obtain hasks | hfault := h
  · exact registry_step_of_asks hasks r
  · obtain ⟨fault, hfault⟩ := Option.isSome_iff_exists.mp hfault
    exact registry_step_of_fault hfault

theorem step_failed_iff {r : Registry} {c : Command} {fault : Fault} :
    (step r c).2 = .error fault ↔ c.fault? r = some fault := by
  rw [← Fault.of?_eq_some, fault_step]

/-- What a registry makes of a command that is refused or only asks. -/
structure Careful (r : Registry) (c : Command) : Prop where
  fails : ∀ fault, (step r c).2 = .error fault ↔ c.fault? r = some fault
  refused : ∀ fault, (step r c).2 = .error fault → step r c = (r, .error fault)
  asked : c.asks = true → (step r c).1 = r

theorem careful (r : Registry) (c : Command) : Careful r c where
  fails _ := step_failed_iff
  refused _ h := Prod.ext (registry_step_of_fault (step_failed_iff.mp h)) h
  asked h := registry_step_of_asks h r

/-! ### Whole runs -/

theorem oneByOne_run : OneByOne (fun r c => (step r c).1) (fun r c => (step r c).2) run :=
  ⟨fun _ => rfl, fun _ _ _ => rfl⟩

/-- Commands without those that are idle when their turn comes. -/
def effective (r : Registry) (commands : List Command) : List Command :=
  strike (fun r c => (step r c).1) (fun r c => c.idle r) r commands

/-- A run without its idle commands leads to the same registry. The other commands are answered as
before, and none of them is refused. -/
theorem run_effective (r : Registry) (commands : List Command) :
    (run r (effective r commands)).2 = (run r commands).2 ∧
      (run r (effective r commands)).1.Sublist (run r commands).1 ∧
      ∀ a ∈ (run r (effective r commands)).1, ∃ answer, a = .ok answer := by
  have hstep (r : Registry) (c : Command) (h : c.idle r = true) : (step r c).1 = r :=
    registry_step_of_idle h
  have hanswer (r : Registry) (c : Command) (h : c.idle r = false) :
      ∃ answer, (step r c).2 = .ok answer := by
    rw [Command.idle, Bool.or_eq_false_iff, Option.isSome_eq_false_iff,
      Option.isNone_iff_eq_none, ← fault_step] at h
    exact Fault.of?_eq_none.mp h.2
  obtain ⟨hlast, hanswers⟩ := oneByOne_run.run_strike hstep r commands
  exact ⟨hlast, hanswers, oneByOne_run.forall_mem_run_strike hanswer r commands⟩

/-- Faults are atomic and questions are pure, in a session and at its border. A command that fails
is one whose fault is known beforehand; it changes nothing and, in a session, looks at nothing and
announces nothing. This includes the tables whose rows are found to repeat a function when some of
them have been added. A command that only asks changes nothing either, nor does an edit of a
function that is not registered. No such command has any influence on the others of a run. A
declaration under a spelling that stands for no measure leaves its function as it was, registered or
not. -/
theorem faults_atomic_questions_pure (s : Registry.Session) (r : Registry) :
    (∀ c, s.Careful c) ∧
    (∀ text, (∃ fault, (s.step (.fromTable text)).value.1 = .failed fault) ↔
      ¬∃ rows : List Descriptor, Stored.parse text = .ok rows ∧ (rows.map Descriptor.id).Nodup) ∧
    (∀ commands, (s.run (s.effective commands)).2 = (s.run commands).2 ∧
      (s.run (s.effective commands)).1.Sublist (s.run commands).1 ∧
      ∀ a ∈ (s.run (s.effective commands)).1, ∀ fault, a.1 ≠ .failed fault) ∧
    (∀ c, Careful r c) ∧
    (∀ commands, (run r (effective r commands)).2 = (run r commands).2 ∧
      (run r (effective r commands)).1.Sublist (run r commands).1 ∧
      ∀ a ∈ (run r (effective r commands)).1, ∃ answer, a = .ok answer) ∧
    ∀ name measure slots, Measure.ofText? measure = none →
      step r (.returns name measure slots) = (r, .error (.unknownMeasure measure)) := by
  refine ⟨s.careful, s.exists_failed_fromTable_iff, s.run_effective, careful r, run_effective r, ?_⟩
  intro name measure slots hmeasure
  apply (careful r (.returns name measure slots)).refused
  apply step_failed_iff.mpr
  rw [Command.fault?, misspelled?, hmeasure]
  rfl

/-- The spelling is refused and the function stays row-wise, whatever else was to be declared. -/
theorem returns_ratio :
    Measure.ofText? " Ratio" = none ∧
      step (Registry.empty.rowWise ⟨"ABS"⟩).value (.returns "ABS" " Ratio" [0]) =
        ((Registry.empty.rowWise ⟨"ABS"⟩).value, .error (.unknownMeasure " Ratio")) :=
  ⟨by decide,
    (faults_atomic_questions_pure .start (Registry.empty.rowWise ⟨"ABS"⟩).value).2.2.2.2.2 _ _ _
      (by decide)⟩

end Host

end MeasureInference
