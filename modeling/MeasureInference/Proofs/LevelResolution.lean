import MeasureInference.Proofs.TypeResolution
import MeasureInference.Proofs.Usage

/-!
The levels of a call, in closed form.

Three loops run one after the other: the scan of measures, which may stop early, the collection of
candidates, which never does, and the count over the output, which is left out when there is
nothing to count. Each has its closed form: the scan answers `nominalText` exactly when some
selected argument is of that measure, wherever it stands; the candidates are the labels of all
selected arguments that say they have levels, first arrivals only; and the count of each of them is
how often it occurs. Leaving out the last loop changes nothing, because a count without candidates
ignores every cell.
-/

namespace MeasureInference

open MeasureInference.Measure (nominalText)

namespace Argument

/-- The labels of arguments in order, of those that say they have levels. -/
def levelLabels (args : List Argument) : List String :=
  (args.filter Argument.hasLevels).flatMap fun arg => arg.levels.map Level.label

theorem levelLabels_cons (arg : Argument) (args : List Argument) :
    levelLabels (arg :: args) =
      (if arg.hasLevels then arg.levels.map Level.label else []) ++ levelLabels args := by
  rw [levelLabels, List.filter_cons]
  split
  · rfl
  · rfl

theorem levelLabels_append (args later : List Argument) :
    levelLabels (args ++ later) = levelLabels args ++ levelLabels later := by
  rw [levelLabels, List.filter_append, List.flatMap_append]
  rfl

theorem mem_levelLabels {args : List Argument} {label : String} :
    label ∈ levelLabels args ↔
      ∃ arg ∈ args, arg.hasLevels = true ∧ label ∈ arg.levels.map Level.label := by
  simp only [levelLabels, List.mem_flatMap, List.mem_filter, and_assoc]

end Argument

theorem value_collectCandidates (candidates : Usage) (selected : List (Nat × Argument)) :
    (collectCandidates candidates selected).value =
      (Argument.levelLabels (selected.map Prod.snd)).foldl Usage.addCandidate candidates := by
  induction selected generalizing candidates with
  | nil => rfl
  | cons entry selected ih =>
      obtain ⟨position, arg⟩ := entry
      rw [collectCandidates, List.map_cons, Argument.levelLabels_cons, List.foldl_append,
        Observed.value_bind, Observed.hasLevelsOf, Observed.value_look]
      by_cases hlevels : arg.hasLevels = true
      · rw [if_pos hlevels, if_pos hlevels]
        exact ih _
      · rw [if_neg hlevels, if_neg hlevels]
        exact ih _

namespace Descriptor

/-- The gate is open exactly when one of the selected arguments is a text. -/
theorem value_resolveType_eq_nominalText {d : Descriptor} {args : List Argument}
    (hreturns : d.returns ≠ []) (hargs : args ≠ []) :
    (d.resolveType args).value = nominalText ↔
      ∃ arg ∈ Argument.views d.returns args, arg.measure = nominalText := by
  obtain ⟨hmem, hbound⟩ := isGreatest_resolveType hreturns hargs
  constructor
  · intro h
    rw [h] at hmem
    rcases hmem with hnominal | hmem
    · cases hnominal
    · exact hmem
  · intro h
    exact le_antisymm (Measure.le_nominalText _) (hbound (.inr h))

/-- The candidates of a call, before anything is counted. -/
def candidates (d : Descriptor) (args : List Argument) : Usage :=
  (Argument.levelLabels (Argument.views d.returns args)).foldl Usage.addCandidate .empty

theorem distinct_candidates (d : Descriptor) (args : List Argument) :
    (d.candidates args).Distinct :=
  Usage.distinct_empty.foldl_addCandidate _

theorem value_collectCandidates_selected (d : Descriptor) (args : List Argument) :
    (collectCandidates .empty (Argument.selected d.returns args)).value = d.candidates args := by
  rw [value_collectCandidates, Argument.map_snd_selected]
  rfl

theorem levelUsage_of_not_scans {d : Descriptor} {args : List Argument}
    (h : ¬d.scans args = true) (output : List Cell) : d.levelUsage args output = pure none := by
  rw [levelUsage, if_neg h]

/-- A call whose gate stays shut has scanned and does nothing else. -/
theorem levelUsage_of_ne_nominalText {d : Descriptor} {args : List Argument}
    (hscans : d.scans args = true) (htext : (d.resolveType args).value ≠ nominalText)
    (output : List Cell) :
    d.levelUsage args output = ⟨none, (d.resolveType args).looks, (d.resolveType args).events⟩ := by
  rw [levelUsage, if_pos hscans, Observed.bind_eq]
  dsimp only
  rw [if_neg htext, Observed.looks_pure, Observed.events_pure, List.append_nil, List.append_nil]
  rfl

/-- A call whose gate is open scans, collects, and reads the output if there is something to
count. -/
theorem levelUsage_of_eq_nominalText {d : Descriptor} {args : List Argument}
    (hscans : d.scans args = true) (htext : (d.resolveType args).value = nominalText)
    (output : List Cell) :
    d.levelUsage args output =
      { value := some ((d.candidates args).tally output).value
        looks := (d.resolveType args).looks ++
          ((collectCandidates .empty (Argument.selected d.returns args)).looks ++
            if (d.candidates args).isEmpty then []
            else ((d.candidates args).tally output).looks)
        events := (d.resolveType args).events ++
          ((collectCandidates .empty (Argument.selected d.returns args)).events ++
            [.usageTallied d.id ((d.candidates args).tally output).value.size]) } := by
  rw [levelUsage, if_pos hscans, Observed.bind_eq]
  dsimp only
  rw [if_pos htext, Observed.bind_eq, value_collectCandidates_selected]
  dsimp only
  split
  · next hempty =>
    -- The output is not read here; reading it would have counted nothing.
    rw [Usage.value_tally_of_isEmpty hempty]
    rfl
  · rw [Observed.bind_eq, Observed.looks_bind, Observed.events_bind, Usage.events_tally]
    simp only [Observed.looks_announce, Observed.looks_pure, List.append_nil]
    rfl

theorem value_levelUsage_of_not_scans {d : Descriptor} {args : List Argument}
    (h : ¬d.scans args = true) (output : List Cell) :
    (d.levelUsage args output).value = none := by
  rw [levelUsage_of_not_scans h]
  rfl

theorem value_levelUsage_of_scans {d : Descriptor} {args : List Argument}
    (h : d.scans args = true) (output : List Cell) :
    (d.levelUsage args output).value =
      if (d.resolveType args).value = nominalText then some ((d.candidates args).tally output).value
      else none := by
  by_cases htext : (d.resolveType args).value = nominalText
  · rw [levelUsage_of_eq_nominalText h htext, if_pos htext]
  · rw [levelUsage_of_ne_nominalText h htext, if_neg htext]

theorem value_levelUsage_eq_none {d : Descriptor} {args : List Argument} {output : List Cell} :
    (d.levelUsage args output).value = none ↔
      d.returns = [] ∨ args = [] ∨
        ∀ arg ∈ Argument.views d.returns args, arg.measure ≠ nominalText := by
  by_cases hscans : d.scans args = true
  · obtain ⟨hreturns, hargs⟩ := scans_eq_true.mp hscans
    have hgate := value_resolveType_eq_nominalText hreturns hargs
    rw [value_levelUsage_of_scans hscans]
    by_cases htext : (d.resolveType args).value = nominalText
    · obtain ⟨arg, harg, hmeasure⟩ := hgate.mp htext
      rw [if_pos htext]
      simp only [reduceCtorEq, hreturns, hargs, false_or, false_iff]
      exact fun h => h arg harg hmeasure
    · rw [if_neg htext]
      simp only [hreturns, hargs, false_or, true_iff]
      exact fun arg harg hmeasure => htext (hgate.mpr ⟨arg, harg, hmeasure⟩)
  · have hempty : d.returns = [] ∨ args = [] := by
      rw [scans_eq_true] at hscans
      tauto
    rw [value_levelUsage_of_not_scans hscans]
    tauto

theorem value_levelUsage_eq_some {d : Descriptor} {args : List Argument} {output : List Cell}
    {usage : Usage} :
    (d.levelUsage args output).value = some usage ↔
      d.scans args = true ∧ (d.resolveType args).value = nominalText ∧
        usage = ((d.candidates args).tally output).value := by
  by_cases hscans : d.scans args = true
  · rw [value_levelUsage_of_scans hscans]
    split
    · next htext => simp [hscans, htext, eq_comm]
    · next htext => simp [htext]
  · simp [value_levelUsage_of_not_scans hscans, hscans]

theorem eq_tally_of_value_levelUsage {d : Descriptor} {args : List Argument}
    {output : List Cell} {usage : Usage} (h : (d.levelUsage args output).value = some usage) :
    usage = ((d.candidates args).tally output).value :=
  (value_levelUsage_eq_some.mp h).2.2

/-- The labels that a call offers, each once and where it came first. -/
def candidateLabels (d : Descriptor) (args : List Argument) : List String :=
  (Argument.levelLabels (Argument.views d.returns args)).eraseDups

theorem counts_tally_candidates (d : Descriptor) (args : List Argument) (output : List Cell) :
    ((d.candidates args).tally output).value.counts =
      (d.candidateLabels args).map fun label => ⟨label, Cell.occurrences label output⟩ := by
  have hcounts : (d.candidates args).counts =
      (d.candidateLabels args).map fun label => ⟨label, 0⟩ :=
    Usage.counts_foldl_addCandidate_empty _
  rw [(distinct_candidates d args).counts_tally, hcounts, List.map_map]
  apply List.map_congr_left
  intro label _
  rw [Function.comp_apply, Nat.zero_add]

theorem value_resolveLevels (d : Descriptor) (args : List Argument) (output : List Cell) :
    (d.resolveLevels args output).value =
      match (d.levelUsage args output).value with
      | none => []
      | some usage => usage.usedLevels := by
  rw [resolveLevels, Observed.value_bind]
  cases (d.levelUsage args output).value <;> rfl

/-- The labels that a call offers and that occur in its output. -/
def usedLabels (d : Descriptor) (args : List Argument) (output : List Cell) : List String :=
  (d.candidateLabels args).filter fun label => 0 < Cell.occurrences label output

theorem nodup_usedLabels (d : Descriptor) (args : List Argument) (output : List Cell) :
    (d.usedLabels args output).Nodup :=
  (Roster.nodup_eraseDups _).filter _

theorem labels_tally_candidates (d : Descriptor) (args : List Argument) (output : List Cell) :
    ((d.candidates args).tally output).value.labels = d.candidateLabels args := by
  rw [← Usage.map_label_counts, counts_tally_candidates, List.map_map]
  exact List.map_id _

theorem size_tally_candidates (d : Descriptor) (args : List Argument) (output : List Cell) :
    ((d.candidates args).tally output).value.size = (d.candidateLabels args).length := by
  rw [← labels_tally_candidates d args output]
  exact (List.length_map _).symm

theorem count?_tally_candidates (d : Descriptor) (args : List Argument) (output : List Cell)
    (label : String) :
    ((d.candidates args).tally output).value.count? label =
      if label ∈ d.candidateLabels args then some (Cell.occurrences label output) else none :=
  Usage.count?_of_counts_eq_map (counts_tally_candidates d args output) label

theorem usedLevels_tally_candidates (d : Descriptor) (args : List Argument) (output : List Cell) :
    ((d.candidates args).tally output).value.usedLevels =
      (d.usedLabels args output).map ResolvedLevel.ofLabel := by
  rw [Usage.usedLevels, counts_tally_candidates, List.filter_map, List.map_map]
  rfl

/-- The levels of a call are the offered labels that occur, if the call is a text. This includes
calls that are texts by declaration: where nothing is scanned, nothing is offered. -/
theorem value_resolveLevels_eq_ite (d : Descriptor) (args : List Argument) (output : List Cell) :
    (d.resolveLevels args output).value =
      if (d.resolveType args).value = nominalText then
        (d.usedLabels args output).map ResolvedLevel.ofLabel
      else [] := by
  rw [value_resolveLevels]
  by_cases hscans : d.scans args = true
  · rw [value_levelUsage_of_scans hscans]
    by_cases htext : (d.resolveType args).value = nominalText
    · rw [if_pos htext, if_pos htext]
      exact usedLevels_tally_candidates d args output
    · rw [if_neg htext, if_neg htext]
  · have hviews : Argument.views d.returns args = [] := by
      rw [scans_eq_true, not_and_or, not_not, not_not] at hscans
      rcases hscans with hreturns | hargs
      · rw [hreturns]
        rfl
      · rw [hargs]
        simp [Argument.views]
    have hused : d.usedLabels args output = [] := by
      rw [usedLabels, candidateLabels, hviews]
      rfl
    rw [value_levelUsage_of_not_scans hscans, hused, List.map_nil, ite_self]

/-- Usage is counted exactly for calls whose scan meets a text. It holds the labels of all selected
arguments that have levels, each once and where it came first, with the number of their occurrences
in the output; the levels of the call are the labels that occur. -/
theorem levelUsage_eq_occurrences (d : Descriptor) (args : List Argument) (output : List Cell) :
    ((d.levelUsage args output).value = none ↔
      d.returns = [] ∨ args = [] ∨
        ∀ arg ∈ Argument.views d.returns args, arg.measure ≠ nominalText) ∧
    (∀ usage, (d.levelUsage args output).value = some usage →
      usage.counts =
        (Argument.levelLabels (Argument.views d.returns args)).eraseDups.map fun label =>
          ⟨label, Cell.occurrences label output⟩) ∧
    (d.resolveLevels args output).value =
      match (d.levelUsage args output).value with
      | none => []
      | some usage => (usage.counts.filter fun t => 0 < t.count).map fun t => ⟨t.label, t.label⟩ := by
  refine ⟨value_levelUsage_eq_none, fun usage h => ?_, value_resolveLevels d args output⟩
  rw [eq_tally_of_value_levelUsage h]
  exact counts_tally_candidates d args output

end Descriptor

end MeasureInference
