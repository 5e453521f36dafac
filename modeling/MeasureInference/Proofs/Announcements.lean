import MeasureInference.Proofs.LevelResolution
import MeasureInference.Proofs.Lines

/-!
What inference announces: one event for a scan, one more for a count, and nothing of setup.
-/

namespace MeasureInference

open MeasureInference.Measure (nominalText)

theorem events_scanArguments (state : Measure) (selected : List (Nat × Argument)) :
    (scanArguments state selected).events = [] := by
  induction selected generalizing state with
  | nil => rfl
  | cons entry selected ih =>
      obtain ⟨position, arg⟩ := entry
      rw [scanArguments, Observed.events_bind, Observed.measureOf, Observed.events_look,
        Observed.value_look]
      cases state.step arg.measure with
      | proceed next => exact ih next
      | halt last => rfl

theorem events_collectCandidates (candidates : Usage) (selected : List (Nat × Argument)) :
    (collectCandidates candidates selected).events = [] := by
  induction selected generalizing candidates with
  | nil => rfl
  | cons entry selected ih =>
      obtain ⟨position, arg⟩ := entry
      rw [collectCandidates, Observed.events_bind, Observed.hasLevelsOf, Observed.events_look,
        Observed.value_look]
      split
      · exact ih _
      · exact ih _

theorem Descriptor.events_resolveType (d : Descriptor) (args : List Argument) :
    (d.resolveType args).events =
      if d.scans args then [.measureResolved d.id (d.resolveType args).value] else [] := by
  rw [Descriptor.resolveType]
  split
  · rw [Observed.events_bind, events_scanArguments]
    rfl
  · rfl

/-- A count is announced behind the scan that asks for it, with the number of its candidates. -/
theorem Descriptor.events_levelUsage (d : Descriptor) (args : List Argument)
    (output : List Cell) :
    (d.levelUsage args output).events =
      (d.resolveType args).events ++
        if d.scans args = true ∧ (d.resolveType args).value = nominalText then
          [.usageTallied d.id (d.candidateLabels args).length]
        else [] := by
  by_cases hscans : d.scans args = true
  · by_cases htext : (d.resolveType args).value = nominalText
    · rw [Descriptor.levelUsage_of_eq_nominalText hscans htext]
      dsimp only
      rw [events_collectCandidates, List.nil_append, Descriptor.size_tally_candidates,
        if_pos ⟨hscans, htext⟩]
    · rw [Descriptor.levelUsage_of_ne_nominalText hscans htext, if_neg (mt And.right htext),
        List.append_nil]
  · rw [Descriptor.levelUsage_of_not_scans hscans, if_neg (mt And.left hscans),
      Descriptor.events_resolveType, if_neg hscans]
    rfl

theorem Descriptor.events_resolveLevels (d : Descriptor) (args : List Argument)
    (output : List Cell) :
    (d.resolveLevels args output).events =
      (d.resolveType args).events ++
        if d.scans args = true ∧ (d.resolveType args).value = nominalText then
          [.usageTallied d.id (d.candidateLabels args).length]
        else [] := by
  rw [← Descriptor.events_levelUsage d args output, Descriptor.resolveLevels, Observed.events_bind]
  cases (d.levelUsage args output).value <;> exact List.append_nil _

/-- No event of these tells of setup. -/
def Silent (events : List Event) : Prop := ∀ e ∈ events, e.isSetup = false

theorem silent_nil : Silent [] := fun _ h => absurd h List.not_mem_nil

theorem Silent.append {events events' : List Event} (h : Silent events) (h' : Silent events') :
    Silent (events ++ events') := List.forall_mem_append.mpr ⟨h, h'⟩

theorem silent_singleton {e : Event} (h : e.isSetup = false) : Silent [e] :=
  List.forall_mem_singleton.mpr h

theorem silent_resolveType (d : Descriptor) (args : List Argument) :
    Silent (d.resolveType args).events := by
  rw [Descriptor.events_resolveType]
  split
  · exact silent_singleton rfl
  · exact silent_nil

theorem silent_resolveLevels (d : Descriptor) (args : List Argument) (output : List Cell) :
    Silent (d.resolveLevels args output).events := by
  rw [Descriptor.events_resolveLevels]
  refine (silent_resolveType d args).append ?_
  split
  · exact silent_singleton rfl
  · exact silent_nil

end MeasureInference
