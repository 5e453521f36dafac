import Mathlib.Data.Finset.Card
import MeasureInference.Proofs.Announcements
import MeasureInference.Proofs.Registry.Reachable

/-!
What the journal tells of the calls that are resolved.

A call leaves a line for the scan, if there is one, and for a call whose levels are asked for and
that the scan finds to be a text a second line, for the count. The lines are the answers over again:
the first has the measure, and the second the number of labels that the levels are chosen from,
each label once however many arguments offer it. Where no line of a count stands there are no
levels, so levels are never answered without their count being told.
-/

namespace MeasureInference

open MeasureInference.Measure (nominalText)

namespace Line

/-- The line of a scan. -/
def resolved (id : FunctionId) (measure : Measure) : Line :=
  ⟨.trace, "resolved measure type", [("function", id.name), ("resolved", measure.name)]⟩

/-- The line of a count. -/
def tallied (id : FunctionId) (candidates : Nat) : Line :=
  ⟨.trace, "tallied level usage", [("function", id.name), ("candidates", toString candidates)]⟩

end Line

namespace Descriptor

/-- How many different labels the selected arguments that have levels offer. -/
def labelCount (d : Descriptor) (args : List Argument) : Nat :=
  (Argument.levelLabels (Argument.views d.returns args)).toFinset.card

theorem length_candidateLabels (d : Descriptor) (args : List Argument) :
    (d.candidateLabels args).length = d.labelCount args := by
  have hsame : (d.candidateLabels args).toFinset =
      (Argument.levelLabels (Argument.views d.returns args)).toFinset := by
    ext label
    simp [candidateLabels]
  rw [labelCount, ← hsame]
  exact (List.toFinset_card_of_nodup (Roster.nodup_eraseDups _)).symm

theorem length_value_resolveLevels_le (d : Descriptor) (args : List Argument)
    (output : List Cell) : (d.resolveLevels args output).value.length ≤ d.labelCount args := by
  rw [value_resolveLevels_eq_ite]
  split
  · rw [List.length_map, ← length_candidateLabels]
    exact List.length_filter_le ..
  · exact Nat.zero_le _

/-- There are levels only behind a scan that has found a text. -/
theorem isText_of_value_resolveLevels_ne_nil {d : Descriptor} {args : List Argument}
    {output : List Cell} (h : (d.resolveLevels args output).value ≠ []) :
    d.scans args = true ∧ (d.resolveType args).value = nominalText := by
  rw [value_resolveLevels] at h
  cases husage : (d.levelUsage args output).value with
  | none =>
      rw [husage] at h
      exact absurd rfl h
  | some usage =>
      obtain ⟨hscans, htext, -⟩ := value_levelUsage_eq_some.mp husage
      exact ⟨hscans, htext⟩

/-- The lines that a call leaves whose measure is asked for. -/
def typeLines (d : Descriptor) (args : List Argument) : List Line :=
  if d.returns = [] ∨ args = [] then [] else [.resolved d.id (d.resolveType args).value]

theorem map_line_events_resolveType (d : Descriptor) (args : List Argument) :
    (d.resolveType args).events.map Event.line = d.typeLines args := by
  have hscans : d.scans args = true ↔ ¬(d.returns = [] ∨ args = []) := by
    rw [scans_eq_true, not_or]
  rw [events_resolveType, typeLines]
  by_cases hempty : d.returns = [] ∨ args = []
  · rw [if_pos hempty, if_neg (mt hscans.mp (not_not_intro hempty))]
    rfl
  · rw [if_neg hempty, if_pos (hscans.mpr hempty)]
    rfl

theorem map_line_events_resolveLevels (d : Descriptor) (args : List Argument)
    (output : List Cell) :
    (d.resolveLevels args output).events.map Event.line =
      d.typeLines args ++
        if d.returns ≠ [] ∧ args ≠ [] ∧ (d.resolveType args).value = nominalText then
          [.tallied d.id (d.labelCount args)]
        else [] := by
  rw [events_resolveLevels, List.map_append, map_line_events_resolveType, ← length_candidateLabels]
  simp only [scans_eq_true, and_assoc]
  split <;> rfl

end Descriptor

namespace Registry.Session

variable {s : Session} {id : FunctionId} {d : Descriptor}

/-- Of a call of a registered function the journal tells the measure that is answered, unless there
was nothing to scan. When levels are asked for it tells the same and then, exactly if the scan has
found a text, the number of different labels that were offered; levels are answered only behind
these two lines, and no more of them than were offered. -/
theorem traces_tell_answers (h : s.registry.find? id = some d) (args : List Argument)
    (output : List Cell) :
    ∃ measure levels,
      (s.step (.resolveType id args)).value = (.measure measure, s) ∧
      (s.step (.resolveLevels id args output)).value = (.levels levels, s) ∧
      (s.step (.resolveType id args)).events.map Event.line =
        (if d.returns = [] ∨ args = [] then [] else [.resolved id measure]) ∧
      (s.step (.resolveLevels id args output)).events.map Event.line =
        (s.step (.resolveType id args)).events.map Event.line ++
          (if d.returns ≠ [] ∧ args ≠ [] ∧ measure = nominalText then
            [.tallied id (d.labelCount args)] else []) ∧
      (levels ≠ [] →
        (s.step (.resolveLevels id args output)).events.map Event.line =
          [.resolved id nominalText, .tallied id (d.labelCount args)] ∧
        levels.length ≤ d.labelCount args) := by
  obtain rfl : d.id = id := id_of_find? h
  have htype := step_resolveType_of_find? h args
  have hlevels := step_resolveLevels_of_find? h args output
  have htypeEvents : (s.step (.resolveType d.id args)).events = (d.resolveType args).events := by
    rw [htype, Observed.events_map]
  have hlevelEvents : (s.step (.resolveLevels d.id args output)).events =
      (d.resolveLevels args output).events := by
    rw [hlevels, Observed.events_map]
  refine ⟨_, _, congrArg Observed.value htype, congrArg Observed.value hlevels, ?typeLines,
    ?levelLines, fun hsome => ⟨?bothLines, ?bound⟩⟩
  case typeLines =>
    rw [htypeEvents]
    exact d.map_line_events_resolveType args
  case levelLines =>
    rw [htypeEvents, hlevelEvents, d.map_line_events_resolveType]
    exact d.map_line_events_resolveLevels args output
  case bothLines =>
    obtain ⟨hscans, htext⟩ := Descriptor.isText_of_value_resolveLevels_ne_nil hsome
    obtain ⟨hreturns, hargs⟩ := Descriptor.scans_eq_true.mp hscans
    rw [hlevelEvents, d.map_line_events_resolveLevels, Descriptor.typeLines,
      if_neg (not_or.mpr ⟨hreturns, hargs⟩), if_pos ⟨hreturns, hargs, htext⟩, htext]
    rfl
  case bound => exact d.length_value_resolveLevels_le args output

/-- A function whose slots select one argument twice, one that is no text, and one beyond the
last. -/
def withChoice : Session :=
  (start.run [.returns ⟨"IF"⟩ .nominal [1, 2, 1, 7]]).2

def choiceArgs : List Argument :=
  [.ofMeasure .continuous, ⟨.nominalText, true, Level.ofLabels ["Low", "High", "Low"]⟩,
    ⟨.ordinal, true, Level.ofLabels ["High", "Mid"]⟩]

theorem traces_tell_answers_withChoice :
    (withChoice.step (.resolveLevels ⟨"IF"⟩ choiceArgs [.text "Mid", .text "Top"])).events.map
        Event.line =
      [.resolved ⟨"IF"⟩ nominalText, .tallied ⟨"IF"⟩ 3] ∧
    (withChoice.step (.resolveLevels ⟨"IF"⟩ choiceArgs [.text "Mid", .text "Top"])).value.1 =
      .levels [⟨"Mid", "Mid"⟩] := by
  have hfind : withChoice.registry.find? ⟨"IF"⟩ =
      some ⟨⟨"IF"⟩, .nominal, [1, 2, 1, 7], .unspecified⟩ := by decide
  obtain ⟨measure, levels, -, hlevels, -, -, hboth⟩ :=
    traces_tell_answers hfind choiceArgs [.text "Mid", .text "Top"]
  have hanswer : (withChoice.step (.resolveLevels ⟨"IF"⟩ choiceArgs
      [.text "Mid", .text "Top"])).value.1 = .levels [⟨"Mid", "Mid"⟩] := by decide
  have hsame : Answer.levels levels = .levels [⟨"Mid", "Mid"⟩] :=
    (congrArg Prod.fst hlevels).symm.trans hanswer
  have hsome : levels ≠ [] := by
    rintro rfl
    cases hsame
  exact ⟨(hboth hsome).1, hanswer⟩

end Registry.Session

end MeasureInference
