import MeasureInference.Proofs.LevelResolution

/-!
What further slots and further output add to a call.

A function may be given slots behind those that it has, and it may go on to produce more. The scan
may then halt elsewhere, the gate may open, and labels that were offered once may be offered again.
None of this takes anything back. The measure is a maximum over more measures, so it climbs; the
labels offered first keep their places in front of the new ones; and a longer output holds each text
at least as often.
-/

namespace MeasureInference

open MeasureInference.Measure (nominalText)

theorem Measure.foldl_max_le_append (state : Measure) (measures later : List Measure) :
    measures.foldl max state ≤ (measures ++ later).foldl max state := by
  obtain ⟨-, hbound⟩ := isGreatest_foldl_max (measures.foldl max state) later
  rw [List.foldl_append]
  exact hbound (.inl rfl)

theorem Argument.views_append (slots later : List UInt64) (args : List Argument) :
    views (slots ++ later) args = views slots args ++ views later args :=
  List.filterMap_append

theorem Cell.occurrences_le_of_sublist {output output' : List Cell} (h : output.Sublist output')
    (label : String) : occurrences label output ≤ occurrences label output' :=
  h.count_le (Cell.text label)

namespace Descriptor

/-- A function with further slots behind its own. -/
def extended (d : Descriptor) (later : List UInt64) : Descriptor :=
  { d with returns := d.returns ++ later }

variable {d : Descriptor} {args : List Argument} {output output' : List Cell}

theorem resolveType_le_extended (hreturns : d.returns ≠ []) (hargs : args ≠ [])
    (later : List UInt64) :
    (d.resolveType args).value ≤ ((d.extended later).resolveType args).value := by
  have hextended : (d.extended later).returns ≠ [] := List.append_ne_nil_of_left_ne_nil hreturns _
  rw [value_resolveType hreturns hargs, value_resolveType hextended hargs, extended,
    Argument.views_append, List.map_append]
  exact Measure.foldl_max_le_append _ _ _

theorem candidateLabels_isPrefix_extended (d : Descriptor) (args : List Argument)
    (later : List UInt64) :
    d.candidateLabels args <+: (d.extended later).candidateLabels args := by
  rw [candidateLabels, candidateLabels, extended, Argument.views_append,
    Argument.levelLabels_append]
  exact Roster.eraseDups_isPrefix _ _

theorem usedLabels_sublist_extended (d : Descriptor) (args : List Argument)
    (later : List UInt64) (h : output.Sublist output') :
    (d.usedLabels args output).Sublist ((d.extended later).usedLabels args output') := by
  -- First the longer output, which keeps more of the same labels; then the further slots.
  have hused : (d.usedLabels args output).Sublist (d.usedLabels args output') := by
    apply List.monotone_filter_right
    intro label hlabel
    rw [decide_eq_true_eq] at hlabel ⊢
    exact hlabel.trans_le (Cell.occurrences_le_of_sublist h label)
  exact hused.trans ((candidateLabels_isPrefix_extended d args later).sublist.filter _)

theorem levelUsage_extended {usage : Usage} (h : output.Sublist output')
    (husage : (d.levelUsage args output).value = some usage) (later : List UInt64) :
    ∃ usage', ((d.extended later).levelUsage args output').value = some usage' ∧
      usage.labels <+: usage'.labels ∧
      ∀ label count, usage.count? label = some count →
        ∃ count', usage'.count? label = some count' ∧ count ≤ count' ∧
          (output = output' → count = count') := by
  obtain ⟨hscans, htext, rfl⟩ := value_levelUsage_eq_some.mp husage
  obtain ⟨hreturns, hargs⟩ := scans_eq_true.mp hscans
  have hscans' : (d.extended later).scans args = true :=
    scans_eq_true.mpr ⟨List.append_ne_nil_of_left_ne_nil hreturns _, hargs⟩
  have htext' : ((d.extended later).resolveType args).value = nominalText :=
    le_antisymm (Measure.le_nominalText _) (htext ▸ resolveType_le_extended hreturns hargs later)
  have hgrown := candidateLabels_isPrefix_extended d args later
  refine ⟨_, value_levelUsage_eq_some.mpr ⟨hscans', htext', rfl⟩, ?_, ?_⟩
  · rw [labels_tally_candidates, labels_tally_candidates]
    exact hgrown
  · intro label count hcount
    rw [count?_tally_candidates, Option.ite_none_right_eq_some] at hcount
    obtain ⟨hlabel, hoccurs⟩ := hcount
    cases hoccurs
    rw [count?_tally_candidates, if_pos (hgrown.subset hlabel)]
    exact ⟨_, rfl, Cell.occurrences_le_of_sublist h label, fun heq => by rw [heq]⟩

/-- Resolution is monotone in the slots and in the output. The measure of a call climbs the chain. A
usage that is counted stays counted: its labels stay in front, in their order, and no number falls,
nor does it rise without more output. The levels of a call stay, in their order, among the levels of
the larger one. -/
theorem resolution_monotone (d : Descriptor) (args : List Argument) (later : List UInt64)
    (output output' : List Cell) (hreturns : d.returns ≠ []) (hargs : args ≠ [])
    (h : output.Sublist output') :
    (d.resolveType args).value ≤ ((d.extended later).resolveType args).value ∧
    (∀ usage, (d.levelUsage args output).value = some usage →
      ∃ usage', ((d.extended later).levelUsage args output').value = some usage' ∧
        usage.labels <+: usage'.labels ∧
        ∀ label count, usage.count? label = some count →
          ∃ count', usage'.count? label = some count' ∧ count ≤ count' ∧
            (output = output' → count = count')) ∧
    (d.resolveLevels args output).value.Sublist
      ((d.extended later).resolveLevels args output').value := by
  have hclimbs := resolveType_le_extended hreturns hargs later
  refine ⟨hclimbs, fun usage husage => levelUsage_extended h husage later, ?_⟩
  rw [value_resolveLevels_eq_ite, value_resolveLevels_eq_ite]
  split
  · next htext =>
    rw [htext] at hclimbs
    rw [if_pos (le_antisymm (Measure.le_nominalText _) hclimbs)]
    exact (usedLabels_sublist_extended d args later h).map _
  · exact List.nil_sublist _

def branch : Descriptor := ⟨⟨"IF"⟩, .ordinal, [0], .rowWise⟩

def branchArgs : List Argument :=
  [⟨.nominalText, true, [⟨0, "x"⟩, ⟨1, "y"⟩]⟩, ⟨.nominalText, true, [⟨0, "z"⟩, ⟨1, "x"⟩]⟩]

def shortOutput : List Cell := [.text "x", .text "z"]

def longOutput : List Cell := [.text "y", .text "x", .missing, .text "z", .text "x"]

/-- A further slot, one out of range and one again, all behind the halt of the scan. -/
theorem resolution_branch_extended :
    shortOutput.Sublist longOutput ∧
    (branch.levelUsage branchArgs shortOutput).value = some ⟨⟨[⟨"x", 1⟩, ⟨"y", 0⟩]⟩⟩ ∧
    (∃ usage, ((branch.extended [1, 9, 0]).levelUsage branchArgs longOutput).value = some usage ∧
      ["x", "y"] <+: usage.labels ∧ ∃ count, usage.count? "x" = some count ∧ 1 ≤ count) ∧
    (branch.resolveLevels branchArgs shortOutput).value.Sublist
      ((branch.extended [1, 9, 0]).resolveLevels branchArgs longOutput).value ∧
    (branch.resolveLevels branchArgs shortOutput).value = [⟨"x", "x"⟩] ∧
    ((branch.extended [1, 9, 0]).resolveLevels branchArgs longOutput).value =
      [⟨"x", "x"⟩, ⟨"y", "y"⟩, ⟨"z", "z"⟩] := by
  have hshort : (branch.levelUsage branchArgs shortOutput).value =
      some ⟨⟨[⟨"x", 1⟩, ⟨"y", 0⟩]⟩⟩ := by decide
  obtain ⟨-, husage, hlevels⟩ := resolution_monotone branch branchArgs [1, 9, 0] shortOutput
    longOutput (by decide) (by decide) (by decide)
  obtain ⟨usage, hlong, hlabels, hcounts⟩ := husage _ hshort
  obtain ⟨count, hcount, hle, -⟩ := hcounts "x" 1 (by decide)
  exact ⟨by decide, hshort, ⟨usage, hlong, hlabels, count, hcount, hle⟩, hlevels, by decide,
    by decide⟩

end Descriptor

end MeasureInference
