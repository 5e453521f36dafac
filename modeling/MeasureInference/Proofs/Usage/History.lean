import Mathlib.Algebra.BigOperators.Group.List.Lemmas
import Mathlib.Algebra.GroupWithZero.Nat
import Mathlib.Data.List.Induction
import Mathlib.Data.List.TakeWhile
import MeasureInference.Proofs.Usage
import MeasureInference.Usage.Session

/-!
A label count as its history tells it.

A label that is added starts at zero, whatever has been fed before, and from then on counts every
cell that is its text. Adding it again changes nothing. So what a count holds can be read off the
list of commands: the added labels in the order of their first adding, each with the number of its
cells behind that adding. A command does at most two things, adding a label and feeding cells, and
never both, so `usage_step` is all that the induction over a history has to know of the commands.
-/

namespace MeasureInference

/-- Whether a cell is the text of one of some labels. -/
def Cell.isTextOf (labels : List String) (cell : Cell) : Bool :=
  cell.asText?.any fun text => text ∈ labels

namespace Usage

namespace Command

/-- The label that a command adds. -/
def adds? : Command → Option String
  | add label => some label
  | _ => none

/-- The cells that a command feeds to the count. -/
def cells : Command → List Cell
  | record cell => [cell]
  | tally cells => cells
  | _ => []

/-- Whether a command may put another count in the place of the present one. -/
def replaces : Command → Bool
  | restore _ => true
  | _ => false

end Command

/-- The labels that commands add, in order. -/
def added (commands : List Command) : List String := commands.filterMap Command.adds?

/-- How many cells commands feed that are the text of a label, behind the first adding of it. -/
def countedSince (label : String) (commands : List Command) : Nat :=
  Cell.occurrences label
    ((commands.dropWhile fun c => c.adds? ≠ some label).flatMap Command.cells)

/-- How many cells commands feed that are the text of a label added in front of them. -/
def matched (labels : List String) : List Command → Nat
  | [] => 0
  | c :: commands =>
    c.cells.countP (Cell.isTextOf labels) + matched (labels ++ c.adds?.toList) commands

/-- What commands leave of an empty count. -/
def recounted (commands : List Command) : List Tally :=
  (added commands).eraseDups.map fun label => ⟨label, countedSince label commands⟩

/-! ### Counting behind the first adding -/

theorem added_append (commands commands' : List Command) :
    added (commands ++ commands') = added commands ++ added commands' :=
  List.filterMap_append

theorem added_singleton (c : Command) : added [c] = c.adds?.toList := by
  rw [added, List.filterMap_cons]
  cases c.adds? <;> rfl

theorem countedSince_append_of_mem {label : String} {commands : List Command}
    (h : label ∈ added commands) (c : Command) :
    countedSince label (commands ++ [c]) =
      countedSince label commands + Cell.occurrences label c.cells := by
  obtain ⟨first, hfirst, hadds⟩ := List.mem_filterMap.mp h
  have hsome : ¬(commands.dropWhile fun c => c.adds? ≠ some label).isEmpty = true := by
    rw [List.isEmpty_iff, List.dropWhile_eq_nil_iff]
    intro hnone
    simpa [hadds] using hnone first hfirst
  rw [countedSince, List.dropWhile_append, if_neg hsome, List.flatMap_append, Cell.occurrences,
    List.count_append, List.flatMap_singleton]
  rfl

/-- What is fed in front of the first adding does not count. -/
theorem countedSince_append_of_not_mem {label : String} {commands : List Command}
    (h : label ∉ added commands) (c : Command) :
    countedSince label (commands ++ [c]) = countedSince label [c] := by
  have hall : ∀ c ∈ commands, decide (c.adds? ≠ some label) = true := by
    intro c hc
    rw [decide_eq_true_eq]
    exact fun hadds => h (List.mem_filterMap.mpr ⟨c, hc, hadds⟩)
  rw [countedSince, countedSince, List.dropWhile_append_of_pos hall]

theorem map_label_recounted (commands : List Command) :
    (recounted commands).map Tally.label = (added commands).eraseDups := by
  rw [recounted, List.map_map]
  exact List.map_id _

theorem recounted_append_of_feeds {c : Command} (hc : c.adds? = none) (commands : List Command) :
    recounted (commands ++ [c]) =
      (recounted commands).map fun t => ⟨t.label, t.count + Cell.occurrences t.label c.cells⟩ := by
  rw [recounted, added_append, added_singleton, hc, Option.toList_none, List.append_nil, recounted,
    List.map_map]
  apply List.map_congr_left
  intro label hlabel
  rw [countedSince_append_of_mem (List.mem_eraseDups.mp hlabel)]
  rfl

theorem recounted_append_of_mem {label : String} {commands : List Command}
    (h : label ∈ added commands) :
    recounted (commands ++ [.add label]) = recounted commands := by
  have hremoved : [label].removeAll (added commands) = [] := by simpa [List.removeAll] using h
  rw [recounted, added_append, added_singleton, Command.adds?, Option.toList_some,
    List.eraseDups_append, hremoved, List.eraseDups_nil, List.append_nil, recounted]
  apply List.map_congr_left
  intro l hl
  rw [countedSince_append_of_mem (List.mem_eraseDups.mp hl)]
  rfl

theorem recounted_append_of_not_mem {label : String} {commands : List Command}
    (h : label ∉ added commands) :
    recounted (commands ++ [.add label]) = recounted commands ++ [⟨label, 0⟩] := by
  have hkept : [label].removeAll (added commands) = [label] := by simpa [List.removeAll] using h
  have hnew : countedSince label (commands ++ [.add label]) = 0 := by
    rw [countedSince_append_of_not_mem h, countedSince,
      List.dropWhile_cons_of_neg (by simp [Command.adds?])]
    rfl
  have hold : (added commands).eraseDups.map
      (fun l => (⟨l, countedSince l (commands ++ [.add label])⟩ : Tally)) = recounted commands := by
    apply List.map_congr_left
    intro l hl
    rw [countedSince_append_of_mem (List.mem_eraseDups.mp hl)]
    rfl
  rw [recounted, added_append, added_singleton, Command.adds?, Option.toList_some,
    List.eraseDups_append, hkept, List.map_append, hold]
  simp [List.eraseDups_cons, hnew]

/-! ### What a count holds -/

theorem counts_addCandidate_of_mem {u : Usage} {label : String} (h : label ∈ u.labels) :
    (u.addCandidate label).counts = u.counts := by
  rw [addCandidate, Roster.add_of_mem h]

theorem counts_addCandidate_of_not_mem {u : Usage} {label : String} (h : label ∉ u.labels) :
    (u.addCandidate label).counts = u.counts ++ [⟨label, 0⟩] := by
  rw [addCandidate, Roster.add_of_not_mem h, counts, Roster.put_of_not_mem h]
  rfl

theorem matchesCell_eq (u : Usage) (cell : Cell) : u.matchesCell cell = cell.isTextOf u.labels := by
  rw [matchesCell, Cell.isTextOf]
  cases cell.asText? with
  | none => rfl
  | some text =>
      rw [Option.bind_some, Option.any_some, Bool.eq_iff_iff, decide_eq_true_eq]
      exact Roster.contains_iff

theorem labels_of_counts {u : Usage} {commands : List Command} (h : u.counts = recounted commands) :
    u.labels = (added commands).eraseDups := by
  rw [← map_label_counts, h, map_label_recounted]

theorem mem_labels_of_counts {u : Usage} {commands : List Command}
    (h : u.counts = recounted commands) (label : String) :
    label ∈ u.labels ↔ label ∈ added commands := by
  rw [labels_of_counts h, List.mem_eraseDups]

theorem distinct_of_counts {u : Usage} {commands : List Command}
    (h : u.counts = recounted commands) : u.Distinct := by
  show u.labels.Nodup
  rw [labels_of_counts h]
  exact Roster.nodup_eraseDups _

theorem sum_occurrences_singleton {labels : List String} (h : labels.Nodup) (cell : Cell) :
    (labels.map fun label => Cell.occurrences label [cell]).sum =
      if cell.isTextOf labels then 1 else 0 := by
  have hcount : ∀ text, (labels.map fun label => Cell.occurrences label [.text text]).sum =
      labels.count text := by
    intro text
    clear h
    induction labels with
    | nil => rfl
    | cons label labels ih =>
        rw [List.map_cons, List.sum_cons, ih, List.count_cons, Nat.add_comm]
        by_cases htext : label = text
        · simp [Cell.occurrences, htext]
        · simp [Cell.occurrences, htext, Ne.symm htext]
  cases cell with
  | text s =>
      rw [hcount, h.count]
      simp [Cell.isTextOf, Cell.asText?]
  | missing | integer | decimal => simp [Cell.occurrences, Cell.isTextOf, Cell.asText?]

/-- Each cell is the text of at most one label, so the labels share the cells among them. -/
theorem sum_occurrences {labels : List String} (h : labels.Nodup) (cells : List Cell) :
    (labels.map fun label => Cell.occurrences label cells).sum =
      cells.countP (Cell.isTextOf labels) := by
  induction cells with
  | nil => simp [Cell.occurrences]
  | cons cell cells ih =>
      simp only [Cell.occurrences_cons _ cell cells, List.sum_map_add, ih,
        sum_occurrences_singleton h]
      rw [List.countP_cons, Nat.add_comm]

theorem isTextOf_eraseDups (labels : List String) :
    Cell.isTextOf labels.eraseDups = Cell.isTextOf labels := by
  funext cell
  simp [Cell.isTextOf]

theorem matched_append (labels : List String) (commands : List Command) (c : Command) :
    matched labels (commands ++ [c]) =
      matched labels commands + c.cells.countP (Cell.isTextOf (labels ++ added commands)) := by
  induction commands generalizing labels with
  | nil => simp [matched, added]
  | cons first commands ih =>
      have hadded : added (first :: commands) = first.adds?.toList ++ added commands := by
        rw [← added_singleton, ← added_append]
        rfl
      rw [List.cons_append, matched, ih, matched, hadded, List.append_assoc, Nat.add_assoc]

theorem sum_recounted (commands : List Command) :
    ((recounted commands).map Tally.count).sum = matched [] commands := by
  induction commands using List.reverseRecOn with
  | nil => rfl
  | append_singleton commands c ih =>
      rw [matched_append, List.nil_append, ← ih]
      cases hadds : c.adds? with
      | none =>
          have hlabels := sum_occurrences (Roster.nodup_eraseDups (added commands)) c.cells
          rw [isTextOf_eraseDups, ← map_label_recounted, List.map_map] at hlabels
          rw [recounted_append_of_feeds hadds, List.map_map, ← hlabels, ← List.sum_map_add]
          rfl
      | some label =>
          obtain rfl : c = .add label := by
            cases c <;> cases hadds
            rfl
          by_cases h : label ∈ added commands
          · rw [recounted_append_of_mem h]
            rfl
          · rw [recounted_append_of_not_mem h, List.map_append, List.sum_append]
            rfl

namespace Session

/-- The session behind some commands. -/
def after (s : Session) (commands : List Command) : Session :=
  commands.foldl (fun s c => (s.step c).2) s

theorem after_append (s : Session) (commands commands' : List Command) :
    s.after (commands ++ commands') = (s.after commands).after commands' :=
  List.foldl_append

theorem after_singleton (s : Session) (c : Command) : s.after [c] = (s.step c).2 := rfl

/-- The entries of a run, each from the session that the commands in front of it have left. -/
theorem getElem?_run (s : Session) (commands : List Command) (k : Nat) :
    (s.run commands)[k]? = commands[k]?.map fun c =>
      (((s.after (commands.take k)).step c).1, (s.after (commands.take (k + 1))).usage) := by
  induction commands generalizing s k with
  | nil => rfl
  | cons c commands ih =>
      cases k with
      | zero => rfl
      | succ k => exact ih (s.step c).2 k

theorem usage_step_of_feeds {c : Command} (hadds : c.adds? = none) (hc : c.replaces = false)
    (s : Session) : (s.step c).2.usage = (s.usage.tally c.cells).value := by
  cases c with
  | add => cases hadds
  | restore => cases hc
  | record | tally | count | used | save | agrees => rfl

theorem counts_after {commands : List Command} (h : ∀ c ∈ commands, c.replaces = false) :
    (start.after commands).usage.counts = recounted commands := by
  induction commands using List.reverseRecOn with
  | nil => rfl
  | append_singleton commands c ih =>
      obtain ⟨hcommands, hc⟩ := List.forall_mem_append.mp h
      have hcounts := ih hcommands
      have hmem := mem_labels_of_counts hcounts
      rw [after_append, after_singleton]
      cases hadds : c.adds? with
      | none =>
          rw [usage_step_of_feeds hadds (hc c (List.mem_singleton_self c)),
            (distinct_of_counts hcounts).counts_tally, hcounts, recounted_append_of_feeds hadds]
      | some label =>
          obtain rfl : c = .add label := by
            cases c <;> cases hadds
            rfl
          by_cases hadded : label ∈ added commands
          · rw [recounted_append_of_mem hadded, ← hcounts]
            exact counts_addCandidate_of_mem ((hmem label).mpr hadded)
          · rw [recounted_append_of_not_mem hadded, ← hcounts]
            exact counts_addCandidate_of_not_mem (mt (hmem label).mp hadded)

theorem count?_after {commands : List Command} (h : ∀ c ∈ commands, c.replaces = false)
    (label : String) :
    (start.after commands).usage.count? label =
      if label ∈ added commands then some (countedSince label commands) else none := by
  rw [count?_of_counts_eq_map (counts_after h)]
  simp only [List.mem_eraseDups]

theorem usedLevels_after {commands : List Command} (h : ∀ c ∈ commands, c.replaces = false) :
    (start.after commands).usage.usedLevels =
      ((added commands).eraseDups.filter fun label => 0 < countedSince label commands).map
        .ofLabel := by
  rw [usedLevels, counts_after h, recounted, List.filter_map, List.map_map]
  rfl

theorem record_run {commands : List Command} (h : ∀ c ∈ commands, c.replaces = false) {k : Nat}
    {cell : Cell} (hk : commands[k]? = some (.record cell)) :
    (start.run commands)[k]? =
      some (.flag (cell.isTextOf (added (commands.take k))),
        (start.after (commands.take (k + 1))).usage) := by
  have htake : ∀ c ∈ commands.take k, c.replaces = false :=
    fun c hc => h c (List.mem_of_mem_take hc)
  have hlabels := labels_of_counts (counts_after htake)
  rw [getElem?_run, hk, Option.map_some, step, matchesCell_eq, hlabels, isTextOf_eraseDups]

/-- Whatever is added and fed, a count holds the added labels in the order of their first adding,
each with the number of its cells behind that adding, and nothing for other labels; all counts
together are the cells that were texts of labels added in front of them, and a cell is said to count
exactly when it is one of these. The levels in use are the labels with a count. -/
theorem run_eq_history (commands : List Command) (h : ∀ c ∈ commands, c.replaces = false) :
    (start.after commands).usage.counts =
      (added commands).eraseDups.map (fun label => ⟨label, countedSince label commands⟩) ∧
    (∀ label, (start.after commands).usage.count? label =
      if label ∈ added commands then some (countedSince label commands) else none) ∧
    ((start.after commands).usage.counts.map Tally.count).sum = matched [] commands ∧
    (start.after commands).usage.usedLevels =
      ((added commands).eraseDups.filter fun label => 0 < countedSince label commands).map
        (fun label => ⟨label, label⟩) ∧
    (∀ k cell, commands[k]? = some (.record cell) →
      (start.run commands)[k]? =
        some (.flag (cell.isTextOf (added (commands.take k))),
          (start.after (commands.take (k + 1))).usage)) := by
  refine ⟨counts_after h, count?_after h, ?_, usedLevels_after h, fun k cell hk => record_run h hk⟩
  rw [counts_after h]
  exact sum_recounted commands

/-- Cells in front of an adding, labels added again, and cells that are no label. -/
def addedLate : List Command :=
  [.record (.text "B"), .add "A", .tally [.text "A", .text "B", .missing], .add "B",
    .record (.text "B"), .add "A", .record (.text "C"), .record (.text "A"), .add "D"]

theorem run_addedLate :
    (∀ c ∈ addedLate, c.replaces = false) ∧
    (start.after addedLate).usage.counts = [⟨"A", 2⟩, ⟨"B", 1⟩, ⟨"D", 0⟩] ∧
    (start.after addedLate).usage.usedLevels = [⟨"A", "A"⟩, ⟨"B", "B"⟩] := by
  have hcommands : ∀ c ∈ addedLate, c.replaces = false := by decide
  obtain ⟨hcounts, -, -, hused, -⟩ := run_eq_history addedLate hcommands
  exact ⟨hcommands, hcounts.trans (by decide), hused.trans (by decide)⟩

end Session

end Usage

end MeasureInference
