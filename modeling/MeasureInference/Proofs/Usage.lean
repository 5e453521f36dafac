import MeasureInference.Proofs.Roster
import MeasureInference.Usage.Basic

/-!
What a label count holds after adding candidates and after counting cells.

Adding and counting work on different halves of a count. Candidates only ever lengthen the list of
labels, in the order of their first arrival and with nothing counted for them; cells only raise the
numbers behind the labels that are there. Counting replaces one entry by the entry found under its
label, so it relies on labels being distinct, which is the one invariant of a count.
-/

namespace MeasureInference

@[simp] theorem Tally.key_eq_label (t : Tally) : Keyed.key t = t.label := rfl

/-- How many cells of an output are the text of a label. -/
def Cell.occurrences (label : String) (cells : List Cell) : Nat := cells.count (.text label)

theorem Cell.occurrences_cons (label : String) (cell : Cell) (cells : List Cell) :
    occurrences label (cell :: cells) = occurrences label [cell] + occurrences label cells := by
  rw [occurrences, ← List.singleton_append, List.count_append]
  rfl

namespace Usage

/-- The candidate labels, in the order in which they were added. -/
def labels (u : Usage) : List String := u.tallies.keys

/-- No label is a candidate twice. -/
def Distinct (u : Usage) : Prop := u.tallies.Distinct

theorem map_label_counts (u : Usage) : u.counts.map Tally.label = u.labels := rfl

/-- Lookup in a count that has a number for each of some labels. -/
theorem count?_of_counts_eq_map {u : Usage} {labels : List String} {number : String → Nat}
    (h : u.counts = labels.map fun label => ⟨label, number label⟩) (label : String) :
    u.count? label = if label ∈ labels then some (number label) else none := by
  have hlabels : u.labels = labels := by
    rw [← map_label_counts, h, List.map_map]
    exact List.map_id _
  rw [count?]
  split
  · next hmem =>
    rw [← hlabels] at hmem
    obtain ⟨t, ht⟩ := Option.isSome_iff_exists.mp (Roster.contains_iff.mpr hmem)
    have htally : t ∈ u.counts := Roster.mem_of_find? ht
    have hlabel : t.label = label := Roster.key_of_find? ht
    rw [h] at htally
    obtain ⟨found, -, rfl⟩ := List.mem_map.mp htally
    rw [ht, ← hlabel]
    rfl
  · next hmem =>
    rw [← hlabels] at hmem
    rw [Roster.find?_eq_none.mpr hmem]
    rfl

theorem ext_counts {u v : Usage} (h : u.counts = v.counts) : u = v := by
  obtain ⟨⟨entries⟩⟩ := u
  obtain ⟨⟨entries'⟩⟩ := v
  exact congrArg (fun entries => Usage.mk ⟨entries⟩) h

theorem distinct_empty : empty.Distinct := Roster.distinct_empty

/-! ### Adding candidates -/

theorem Distinct.addCandidate {u : Usage} (hu : u.Distinct) (label : String) :
    (u.addCandidate label).Distinct :=
  Roster.Distinct.add hu ⟨label, 0⟩

theorem Distinct.foldl_addCandidate {u : Usage} (hu : u.Distinct) (labels : List String) :
    (labels.foldl Usage.addCandidate u).Distinct := by
  induction labels generalizing u with
  | nil => exact hu
  | cons label labels ih => exact ih (hu.addCandidate label)

theorem Distinct.labels_addCandidate {u : Usage} (hu : u.Distinct) (label : String) :
    (u.addCandidate label).labels = (u.labels ++ [label]).eraseDups :=
  Roster.Distinct.keys_add hu ⟨label, 0⟩

theorem Distinct.labels_foldl_addCandidate {u : Usage} (hu : u.Distinct)
    (labels : List String) :
    (labels.foldl Usage.addCandidate u).labels = (u.labels ++ labels).eraseDups := by
  induction labels generalizing u with
  | nil =>
      rw [List.append_nil]
      exact (Roster.eraseDups_of_nodup hu).symm
  | cons label labels ih =>
      rw [List.foldl_cons, ih (hu.addCandidate label), hu.labels_addCandidate,
        Roster.eraseDups_eraseDups_append, List.append_assoc]
      rfl

theorem mem_counts_addCandidate {u : Usage} {label : String} {t : Tally}
    (h : t ∈ (u.addCandidate label).counts) : t ∈ u.counts ∨ t = ⟨label, 0⟩ := by
  rw [addCandidate] at h
  by_cases hmem : label ∈ u.labels
  · rw [Roster.add_of_mem hmem] at h
    exact .inl h
  · rw [Roster.add_of_not_mem hmem, Roster.put_of_not_mem hmem] at h
    rcases List.mem_append.mp h with h | h
    · exact .inl h
    · exact .inr (List.mem_singleton.mp h)

theorem count_eq_zero_of_mem_foldl_addCandidate {u : Usage} (hu : ∀ t ∈ u.counts, t.count = 0)
    (labels : List String) : ∀ t ∈ (labels.foldl addCandidate u).counts, t.count = 0 := by
  induction labels generalizing u with
  | nil => exact hu
  | cons label labels ih =>
      apply ih
      intro t ht
      rcases mem_counts_addCandidate ht with ht | rfl
      · exact hu t ht
      · rfl

/-- Candidates added to an empty count stand in the order of their first arrival, uncounted. -/
theorem counts_foldl_addCandidate_empty (labels : List String) :
    (labels.foldl addCandidate empty).counts =
      labels.eraseDups.map fun label => ⟨label, 0⟩ := by
  have hzero : ∀ t ∈ (labels.foldl addCandidate empty).counts, t.count = 0 :=
    count_eq_zero_of_mem_foldl_addCandidate (fun t ht => absurd ht List.not_mem_nil) labels
  have hlabels : (labels.foldl addCandidate empty).labels = labels.eraseDups :=
    distinct_empty.labels_foldl_addCandidate labels
  rw [← hlabels, ← map_label_counts, List.map_map]
  apply Roster.eq_map_of_forall_eq
  intro t ht
  obtain ⟨label, count⟩ := t
  have hcount : count = 0 := hzero _ ht
  rw [hcount]
  rfl

/-! ### Counting cells -/

theorem counts_record_text_of_find? {u : Usage} {s : String} {t : Tally}
    (h : u.tallies.find? s = some t) :
    (u.record (.text s)).counts =
      u.counts.map fun b => if b.label = s then ⟨t.label, t.count + 1⟩ else b := by
  have hlabel : t.label = s := Roster.key_of_find? h
  have hmem : t.label ∈ u.tallies.keys :=
    List.mem_map_of_mem (f := Tally.label) (Roster.mem_of_find? h)
  have hrecord : u.record (.text s) = ⟨u.tallies.put ⟨t.label, t.count + 1⟩⟩ := by
    simp only [record, Cell.asText?, Option.bind_some, h]
  rw [hrecord, counts, Roster.put_of_mem (by exact hmem)]
  simp only [Tally.key_eq_label, hlabel, counts]

theorem record_of_forall_ne {u : Usage} {cell : Cell}
    (h : ∀ label ∈ u.labels, cell ≠ .text label) : u.record cell = u := by
  cases cell with
  | text s =>
      have hnone : u.tallies.find? s = none :=
        Roster.find?_eq_none.mpr fun hs => h s hs rfl
      simp only [record, Cell.asText?, Option.bind_some, hnone]
  | missing | integer | decimal => rfl

/-- One cell raises the count of the candidate that it is the text of. -/
theorem Distinct.counts_record {u : Usage} (hu : u.Distinct) (cell : Cell) :
    (u.record cell).counts =
      u.counts.map fun t => ⟨t.label, t.count + Cell.occurrences t.label [cell]⟩ := by
  by_cases hcell : ∃ label ∈ u.labels, cell = .text label
  · obtain ⟨s, hs, rfl⟩ := hcell
    obtain ⟨t, ht⟩ := Option.isSome_iff_exists.mp (Roster.contains_iff.mpr hs)
    rw [counts_record_text_of_find? ht]
    apply List.map_congr_left
    intro b hb
    by_cases hlabel : b.label = s
    -- Labels are distinct, so the only entry with this label is the one that was found.
    · have hbt : b = t := by
        have hfind := Roster.find?_of_mem hu hb
        rw [Tally.key_eq_label, hlabel, ht] at hfind
        exact (Option.some.inj hfind).symm
      rw [if_pos hlabel, hbt]
      have ht' : t.label = s := Roster.key_of_find? ht
      simp [Cell.occurrences, ht']
    · have hne : ¬s = b.label := fun h => hlabel h.symm
      rw [if_neg hlabel]
      simp [Cell.occurrences, hne]
  · have hne : ∀ label ∈ u.labels, cell ≠ .text label :=
      fun label hlabel heq => hcell ⟨label, hlabel, heq⟩
    rw [record_of_forall_ne hne]
    apply Roster.eq_map_of_forall_eq
    intro t ht
    have hzero : Cell.occurrences t.label [cell] = 0 := by
      apply List.count_eq_zero_of_not_mem
      intro hmem
      exact hne t.label (List.mem_map_of_mem ht) (List.mem_singleton.mp hmem).symm
    rw [hzero]
    rfl

theorem Distinct.record {u : Usage} (hu : u.Distinct) (cell : Cell) :
    (u.record cell).Distinct := by
  have hlabels : (u.record cell).labels = u.labels := by
    rw [← map_label_counts, hu.counts_record, List.map_map, ← map_label_counts]
    rfl
  show (u.record cell).labels.Nodup
  rw [hlabels]
  exact hu

theorem value_recordAll (u : Usage) (cells : List Cell) :
    (u.recordAll cells).value = cells.foldl record u := by
  induction cells generalizing u with
  | nil => rfl
  | cons cell cells ih =>
      rw [recordAll, Observed.value_bind, Observed.value_look, ih]
      rfl

theorem value_tally (u : Usage) (output : List Cell) :
    (u.tally output).value = output.foldl record u := by
  rw [tally, Observed.value_bind, value_recordAll]

/-- Counting an output raises the count of every candidate by its occurrences. -/
theorem Distinct.counts_tally {u : Usage} (hu : u.Distinct) (output : List Cell) :
    (u.tally output).value.counts =
      u.counts.map fun t => ⟨t.label, t.count + Cell.occurrences t.label output⟩ := by
  rw [value_tally]
  induction output generalizing u with
  | nil => exact (List.map_id _).symm
  | cons cell output ih =>
      rw [List.foldl_cons, ih (hu.record cell), hu.counts_record, List.map_map]
      apply List.map_congr_left
      intro t _
      rw [Function.comp_apply, Cell.occurrences_cons t.label cell output, Nat.add_assoc]

theorem value_tally_of_isEmpty {u : Usage} (h : u.isEmpty = true) (output : List Cell) :
    (u.tally output).value = u := by
  have hlabels : u.labels = [] := by
    rw [← map_label_counts, counts, List.isEmpty_iff.mp h]
    rfl
  rw [value_tally]
  induction output with
  | nil => rfl
  | cons cell output ih =>
      rw [List.foldl_cons, record_of_forall_ne (by simp [hlabels]), ih]

/-! ### Reading an output

Counting takes every cell once, whether it counts or not, and announces nothing. -/

theorem looks_recordAll (u : Usage) (cells : List Cell) :
    (u.recordAll cells).looks = cells.map fun _ => .cell := by
  induction cells generalizing u with
  | nil => rfl
  | cons cell cells ih =>
      rw [recordAll, Observed.looks_bind, Observed.looks_look, ih]
      rfl

theorem looks_tally (u : Usage) (output : List Cell) :
    (u.tally output).looks = .start :: output.map fun _ => .cell := by
  rw [tally, Observed.looks_bind, Observed.looks_look, looks_recordAll]
  rfl

theorem events_recordAll (u : Usage) (cells : List Cell) : (u.recordAll cells).events = [] := by
  induction cells generalizing u with
  | nil => rfl
  | cons cell cells ih =>
      rw [recordAll, Observed.events_bind, ih]
      rfl

theorem events_tally (u : Usage) (output : List Cell) : (u.tally output).events = [] := by
  rw [tally, Observed.events_bind, events_recordAll]
  rfl

end Usage

end MeasureInference
