import Mathlib.Data.List.Forall2
import MeasureInference.Proofs.Usage.History

/-!
Label counts that agree cannot be told apart, and the order of adding and of counting is lost.

Agreement leaves out the order of the candidates. For counts without repeated labels it comes to
this, that every lookup gives the same in both. Adding a label and counting a cell go by lookups
alone, so counts alike stay alike, and only the list of the levels in use shows the order.

Labels added one after the other find each other in place or not, but a lookup behind all of them
asks only whether its label is among them; cells counted one after the other add up. Neither depends
on an order. An adding and a counting do not change places: a cell in front of the adding of its
label is lost.
-/

namespace MeasureInference

namespace Usage

/-- Counts without repeated labels in which every lookup gives the same. -/
def Alike (u v : Usage) : Prop := u.tallies.Alike v.tallies

/-- Counts that agree, answer every question alike and have the same levels in use, in some
order. -/
structure Interchangeable (u v : Usage) : Prop where
  agrees : u.agrees v = true
  count? : ∀ label, u.count? label = v.count? label
  size : u.size = v.size
  matchesCell : ∀ cell, u.matchesCell cell = v.matchesCell cell
  usedLevels : u.usedLevels.Perm v.usedLevels

namespace Alike

variable {u v : Usage}

theorem refl (hu : u.Distinct) : u.Alike u := Roster.Alike.refl hu

theorem distinct (h : u.Alike v) : u.Distinct := h.left

theorem interchangeable (h : u.Alike v) : u.Interchangeable v where
  agrees := Roster.Alike.agrees h
  count? label := congrArg (Option.map Tally.count) (h.find? label)
  size := h.perm.length_eq
  matchesCell cell := by rw [Usage.matchesCell, Usage.matchesCell, funext h.find?]
  usedLevels := (h.perm.filter _).map _

/-! ### Steps on counts alike -/

theorem addCandidate (h : u.Alike v) (label : String) :
    (u.addCandidate label).Alike (v.addCandidate label) :=
  Roster.Alike.add h ⟨label, 0⟩

theorem record (h : u.Alike v) (cell : Cell) : (u.record cell).Alike (v.record cell) := by
  rw [Usage.record, Usage.record, funext h.find?]
  cases cell.asText?.bind v.tallies.find? with
  | none => exact h
  | some t => exact Roster.Alike.put h { t with count := t.count + 1 }

theorem tally (h : u.Alike v) (cells : List Cell) :
    (u.tally cells).value.Alike (v.tally cells).value := by
  rw [value_tally, value_tally]
  induction cells generalizing u v with
  | nil => exact h
  | cons cell cells ih => exact ih (h.record cell)

end Alike

/-! ### Blocks of steps -/

/-- Behind a block of labels it only matters for a lookup whether its label is in the block. -/
theorem find?_foldl_addCandidate (u : Usage) (labels : List String) (k : String) :
    (labels.foldl addCandidate u).tallies.find? k =
      if k ∈ labels then some ((u.tallies.find? k).getD ⟨k, 0⟩) else u.tallies.find? k := by
  induction labels generalizing u with
  | nil => rfl
  | cons label labels ih =>
      rw [List.foldl_cons, ih, addCandidate, Roster.find?_add, Tally.key_eq_label]
      by_cases hk : k = label
      · simp [hk]
      · simp [hk]

theorem Distinct.alike_foldl_addCandidate {u : Usage} (hu : u.Distinct)
    {labels labels' : List String} (h : labels.Perm labels') :
    (labels.foldl Usage.addCandidate u).Alike (labels'.foldl Usage.addCandidate u) where
  left := hu.foldl_addCandidate labels
  right := hu.foldl_addCandidate labels'
  find? k := by simp only [find?_foldl_addCandidate, h.mem_iff]

/-- Cells are counted label by label, and how often a label occurs does not depend on an order. -/
theorem Distinct.value_tally_eq_of_perm {u : Usage} (hu : u.Distinct) {cells cells' : List Cell}
    (h : cells.Perm cells') : (u.tally cells).value = (u.tally cells').value := by
  apply ext_counts
  rw [hu.counts_tally, hu.counts_tally]
  apply List.map_congr_left
  intro t _
  rw [Cell.occurrences, Cell.occurrences, h.count_eq]

/-- Commands that differ in the order of labels added one after the other, of cells counted one
after the other, or of cells counted at once. -/
inductive Rearranged : List Command → List Command → Prop
  | adds (front : List Command) {labels labels' : List String} (back : List Command)
      (h : labels.Perm labels') :
      Rearranged (front ++ labels.map .add ++ back) (front ++ labels'.map .add ++ back)
  | records (front : List Command) {cells cells' : List Cell} (back : List Command)
      (h : cells.Perm cells') :
      Rearranged (front ++ cells.map .record ++ back) (front ++ cells'.map .record ++ back)
  | tally (front : List Command) {cells cells' : List Cell} (back : List Command)
      (h : cells.Perm cells') :
      Rearranged (front ++ [.tally cells] ++ back) (front ++ [.tally cells'] ++ back)
  | trans {first second third : List Command} (h : Rearranged first second)
      (h' : Rearranged second third) : Rearranged first third

/-- Answers that differ at most by the order of the candidates. -/
def Answer.Alike : Answer → Answer → Prop
  | .levels ls, .levels ms => ls.Perm ms
  | a, b => a = b

namespace Session

/-! ### Sessions side by side -/

/-- Sessions with counts alike, now and under every name of a snapshot. -/
structure Alike (s t : Session) : Prop where
  usage : s.usage.Alike t.usage
  snapshots : ∀ slot, (s.snapshots.load slot).Alike (t.snapshots.load slot)

/-- A session that opens on a count. -/
def opened (u : Usage) : Session := ⟨u, .empty⟩

variable {s t : Session}

theorem alike_opened {u v : Usage} (h : u.Alike v) : (opened u).Alike (opened v) :=
  ⟨h, fun _ => .refl distinct_empty⟩

theorem alike_start : start.Alike start := alike_opened (.refl distinct_empty)

theorem Alike.trans {r : Session} (h : r.Alike s) (h' : s.Alike t) : r.Alike t :=
  ⟨Roster.Alike.trans h.usage h'.usage,
    fun slot => Roster.Alike.trans (h.snapshots slot) (h'.snapshots slot)⟩

theorem Alike.step (h : s.Alike t) (c : Command) :
    (s.step c).1.Alike (t.step c).1 ∧ (s.step c).2.Alike (t.step c).2 := by
  cases c with
  | add label => exact ⟨rfl, h.usage.addCandidate label, h.snapshots⟩
  | record cell =>
      exact ⟨congrArg Answer.flag (h.usage.interchangeable.matchesCell cell), h.usage.record cell,
        h.snapshots⟩
  | tally cells => exact ⟨rfl, h.usage.tally cells, h.snapshots⟩
  | count label => exact ⟨congrArg Answer.count (h.usage.interchangeable.count? label), h⟩
  | used => exact ⟨h.usage.interchangeable.usedLevels, h⟩
  | save slot => exact ⟨rfl, h.usage, Snapshots.forall_load_save h.snapshots slot h.usage⟩
  | restore slot => exact ⟨rfl, h.snapshots slot, h.snapshots⟩
  | agrees slot =>
      exact ⟨congrArg Answer.flag (Roster.Alike.agrees_eq h.usage (h.snapshots slot)), h⟩

theorem Alike.run (h : s.Alike t) (commands : List Command) :
    List.Forall₂ (fun x y => x.1.Alike y.1 ∧ x.2.Interchangeable y.2) (s.run commands)
      (t.run commands) := by
  induction commands generalizing s t with
  | nil => exact .nil
  | cons c commands ih =>
      obtain ⟨hanswer, hsession⟩ := h.step c
      exact .cons ⟨hanswer, hsession.usage.interchangeable⟩ (ih hsession)

theorem Alike.after (h : s.Alike t) (commands : List Command) :
    (s.after commands).Alike (t.after commands) := by
  induction commands generalizing s t with
  | nil => exact h
  | cons c commands ih => exact ih (h.step c).2

/-- No commands lead to a count in which a label is repeated. -/
theorem distinct_after (commands : List Command) : (start.after commands).usage.Distinct :=
  (alike_start.after commands).usage.distinct

/-! ### Rearranged commands -/

theorem after_adds (s : Session) (labels : List String) :
    s.after (labels.map .add) = { s with usage := labels.foldl Usage.addCandidate s.usage } := by
  induction labels generalizing s with
  | nil => rfl
  | cons label labels ih => exact ih (s.step (.add label)).2

theorem after_records (s : Session) (cells : List Cell) :
    s.after (cells.map .record) = { s with usage := (s.usage.tally cells).value } := by
  induction cells generalizing s with
  | nil => rfl
  | cons cell cells ih => exact ih (s.step (.record cell)).2

/-- What stands in front of two blocks and behind them does not matter if the blocks lead from one
session to sessions alike. -/
theorem alike_after_between {block block' : List Command}
    (h : ∀ s : Session, s.Alike s → (s.after block).Alike (s.after block'))
    (front back : List Command) :
    (start.after (front ++ block ++ back)).Alike (start.after (front ++ block' ++ back)) := by
  simp only [after_append]
  exact (h _ (alike_start.after front)).after back

theorem alike_after_of_rearranged {commands commands' : List Command}
    (h : Rearranged commands commands') :
    (start.after commands).Alike (start.after commands') := by
  induction h with
  | adds front back h =>
      refine alike_after_between (fun s hs => ?_) front back
      rw [after_adds, after_adds]
      exact ⟨hs.usage.distinct.alike_foldl_addCandidate h, hs.snapshots⟩
  | records front back h =>
      refine alike_after_between (fun s hs => ?_) front back
      rw [after_records, after_records, hs.usage.distinct.value_tally_eq_of_perm h]
      exact ⟨hs.usage.tally _, hs.snapshots⟩
  | tally front back h =>
      refine alike_after_between (fun s hs => ?_) front back
      rw [after_singleton, after_singleton, step, step,
        hs.usage.distinct.value_tally_eq_of_perm h]
      exact ⟨hs.usage.tally _, hs.snapshots⟩
  | trans _ _ ih ih' => exact ih.trans ih'

/-- Two counts that agree go on to agree behind the same commands, step by step, and every command
is answered alike on both: only the levels in use may be listed in another order. Commands that
differ in the order of addings in a row or of countings in a row lead to counts that agree. -/
theorem agrees_congruence {u v : Usage} (hu : u.Distinct) (hv : v.Distinct)
    (h : u.agrees v = true) :
    u.Interchangeable v ∧
    (∀ commands, List.Forall₂ (fun x y => x.1.Alike y.1 ∧ x.2.Interchangeable y.2)
      ((opened u).run commands) ((opened v).run commands)) ∧
    (∀ commands commands', Rearranged commands commands' →
      (start.after commands).usage.Interchangeable (start.after commands').usage) := by
  have halike : u.Alike v := (Roster.alike_iff_agrees hu hv).mpr h
  refine ⟨halike.interchangeable, (alike_opened halike).run, fun commands commands' hre => ?_⟩
  exact (alike_after_of_rearranged hre).usage.interchangeable

/-- Two orders of the same labels and cells, a cell in front of the adding of its label in both. -/
def labelsForth : List Command :=
  [.record (.text "B"), .add "A", .add "B", .tally [.text "B", .text "A", .text "B"]]

def labelsBack : List Command :=
  [.record (.text "B"), .add "B", .add "A", .tally [.text "A", .text "B", .text "B"]]

theorem agrees_congruence_labelsBack :
    (start.after labelsForth).usage.counts = [⟨"A", 1⟩, ⟨"B", 2⟩] ∧
    (start.after labelsBack).usage.counts = [⟨"B", 2⟩, ⟨"A", 1⟩] ∧
    List.Forall₂ (fun x y => x.1.Alike y.1 ∧ x.2.Interchangeable y.2)
      ((opened (start.after labelsForth).usage).run addedLate)
      ((opened (start.after labelsBack).usage).run addedLate) ∧
    Rearranged labelsForth labelsBack ∧
    (start.after labelsForth).usage.Interchangeable (start.after labelsBack).usage := by
  have hadds : ["A", "B"].Perm ["B", "A"] := .swap ..
  have hcells : [Cell.text "B", .text "A", .text "B"].Perm [.text "A", .text "B", .text "B"] :=
    .swap ..
  have hre : Rearranged labelsForth labelsBack :=
    (Rearranged.adds [.record (.text "B")] [.tally _] hadds).trans
      (Rearranged.tally [.record (.text "B"), .add "B", .add "A"] [] hcells)
  obtain ⟨-, hruns, hrearranged⟩ :=
    agrees_congruence (distinct_after labelsForth) (distinct_after labelsBack) (by decide)
  exact ⟨by decide, by decide, hruns addedLate, hre, hrearranged _ _ hre⟩

end Session

end Usage

end MeasureInference
